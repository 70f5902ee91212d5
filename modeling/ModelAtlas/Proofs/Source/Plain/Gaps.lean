import ModelAtlas.Proofs.Source.Plain.Spelling
import ModelAtlas.Source.Parse.Lookahead

/-!
# White space of plain sources

What the layout makes of the white space in front of a token (`Gap`) and of the end of a row
(`NextRow`).
-/

namespace ModelAtlas.Source

open Grammar (Terminal)
open Parse
open Plain (past)

/-! ### White space -/

/-- White space in front of a token: none, a space, or the start of a row, behind a tab or not. -/
inductive Gap where
  | none
  | space
  | line (tab : Bool)

namespace Gap

def chars : Gap → List Char
  | .none => []
  | .space => [' ']
  | .line false => ['\n']
  | .line true => ['\n', '\t']

def isLine : Gap → Bool
  | .line _ => true
  | _ => false

/-- Columns since the start of the row. -/
def indent : Gap → Nat
  | .space => 1
  | .line true => 8
  | _ => 0

end Gap

/-- Whether a character may be white space between tokens, join rows or start a comment. -/
def isBlank (x : Char) : Bool := isSpace x || x == '#' || x == '\\'

/-- Whether a token starts here. -/
def isSolid (rest : List Char) : Bool := rest.head?.any fun x => !isBlank x

section Gaps

variable {gap : Gap} {m : Mark} {rest : List Char}

theorem exists_cons_of_isSolid (solid : isSolid rest) :
    ∃ x more, rest = x :: more ∧ isBlank x = false := by
  cases rest with
  | nil => cases solid
  | cons x more => exact ⟨x, more, rfl, by simpa [isSolid] using solid⟩

theorem dropWhile_gap (solid : isSolid rest) :
    (Cursor.mk m (gap.chars ++ rest)).dropWhile isSpace = ⟨past m gap.chars, rest⟩ := by
  obtain ⟨x, more, rfl, plain⟩ := exists_cons_of_isSolid solid
  have stop : isSpace x = false := by
    simp only [isBlank, Bool.or_eq_false_iff] at plain
    exact plain.1.1
  have blank : isSpace ' ' = true ∧ isSpace '\n' = true ∧ isSpace '\t' = true := by decide
  cases gap with
  | line tab => cases tab <;> simp [Cursor.dropWhile, Cursor.skipWhile, Gap.chars, past, stop, blank]
  | _ => simp [Cursor.dropWhile, Cursor.skipWhile, Gap.chars, past, stop, blank]

theorem skip_gap (solid : isSolid rest) (atLine : Bool) {fuel : Nat}
    (enough : gap.chars.length < fuel) :
    Blanks.skip atLine fuel { here := ⟨m, gap.chars ++ rest⟩ } = some {
      here := ⟨past m gap.chars, rest⟩
      moved := gap.chars ≠ []
      lineEnd := gap.isLine
      indent := gap.indent } := by
  obtain ⟨x, more, rfl, plain⟩ := exists_cons_of_isSolid solid
  have others : x ≠ '\n' ∧ x ≠ ' ' ∧ x ≠ '\r' ∧ x ≠ '\x0c' ∧ x ≠ '\t' ∧ x ≠ '#' ∧ x ≠ '\\' := by
    simp only [isBlank, isSpace, Bool.or_eq_false_iff, beq_eq_false_iff_ne] at plain
    grind
  obtain ⟨k, rfl⟩ : ∃ k, fuel = k + gap.chars.length + 1 := ⟨fuel - gap.chars.length - 1, by omega⟩
  cases gap with
  | line tab =>
    cases tab <;>
      simp [Blanks.skip, Gap.chars, Gap.isLine, Gap.indent, Cursor.next, past, others]
  | _ => simp [Blanks.skip, Gap.chars, Gap.isLine, Gap.indent, Cursor.next, past, others]

/-- No backslash stands in front of a token. -/
theorem head?_gap (solid : isSolid rest) : (gap.chars ++ rest).head?.all (· != '\\') := by
  obtain ⟨x, more, rfl, plain⟩ := exists_cons_of_isSolid solid
  have other : x ≠ '\\' := by
    simp only [isBlank, Bool.or_eq_false_iff, beq_eq_false_iff_ne] at plain
    exact plain.2
  cases gap with
  | line tab => cases tab <;> simp [Gap.chars]
  | none => simpa [Gap.chars] using other
  | space => simp [Gap.chars]

/-- The end of a row, and how far the next row is indented. -/
inductive NextRow : List Char → Nat → Prop
  | row (tab : Bool) {rest : List Char} : isSolid rest →
      NextRow ((Gap.line tab).chars ++ rest) (Gap.line tab).indent
  | last : NextRow ['\n'] 0

/-- No quotation mark stands where a row ends. -/
theorem NextRow.head?_all {n : Nat} (next : NextRow rest n) : rest.head?.all (· != '\'') := by
  cases next with
  | row tab _ => cases tab <;> rfl
  | last => rfl

theorem skip_nextRow {n : Nat} (next : NextRow rest n) (m : Mark) (atLine : Bool)
    {fuel : Nat} (enough : rest.length + 1 ≤ fuel) :
    ∃ b, Blanks.skip atLine fuel { here := ⟨m, rest⟩ } = some b ∧ b.lineEnd = true ∧ b.indent = n ∧
      b.moved = true ∧ b.comment = none := by
  cases next with
  | row tab solid =>
    refine ⟨_, skip_gap solid atLine ?_, rfl, rfl, ?_, rfl⟩
    · rw [List.length_append] at enough
      omega
    · cases tab <;> rfl
  | last =>
    obtain ⟨k, rfl⟩ : ∃ k, fuel = k + 2 := ⟨fuel - 2, by simp at enough; omega⟩
    exact ⟨_, rfl, rfl, rfl, rfl, rfl⟩

end Gaps

/-! ### The layout -/

section Layouts

variable {layout : Layout} {w : Wanted} {fuel : Nat} {c : Cursor} {b : Blanks}

theorem scan_eq_afterBlanks (outside : layout.strings = [])
    (skips : Blanks.skip w.atLine fuel { here := c } = some b) :
    layout.scan fuel w c = layout.afterBlanks w c c b := by
  rw [Layout.scan]
  simp only [outside, skips, Option.bind_some]

/-- The layout has nothing to say inside a row, nor at the start of one that is indented like the one
before, unless a string starts. -/
theorem afterBlanks_eq_none {start : Cursor}
    (kept : b.lineEnd = true → b.indent = layout.indents.headD 0 ∧ w.newline = false)
    (noString : ∀ start, layout.stringStart start b.here = none) :
    layout.afterBlanks w start c b = none := by
  unfold Layout.afterBlanks
  cases lines : b.lineEnd with
  | false => simp [noString]
  | true =>
    obtain ⟨same, plain⟩ := kept lines
    simp [same, plain, noString]

/-- The characters that open strings, and those that may stand in front of them. -/
def isStringMark (x : Char) : Bool := x == '\'' || x == '"' || x == '\x60'
def isStringLetter (x : Char) : Bool := "fFrRbBuU".toList.contains x

theorem ofLetters_cons (d : Delimiter) (x : Char) (rest : List Char) :
    (isStringLetter x = false ∧ Delimiter.ofLetters d (x :: rest) = (d, 0)) ∨
      ∃ d', Delimiter.ofLetters d (x :: rest) =
        ((Delimiter.ofLetters d' rest).1, (Delimiter.ofLetters d' rest).2 + 1) := by
  rw [Delimiter.ofLetters]
  repeat' split
  all_goals first
    | exact .inr ⟨_, rfl⟩
    | exact .inl ⟨by simp_all [isStringLetter], rfl⟩

/-- No string starts where a word or a sign stands. -/
theorem stringStart_eq_none {start : Cursor} {m : Mark} {s more : List Char} {x : Char}
    (plain : s.all fun y => !isStringMark y) (ends : isStringMark x = false)
    (noLetter : isStringLetter x = false) :
    layout.stringStart start ⟨m, s ++ x :: more⟩ = none := by
  have reaches : ∀ d : Delimiter, ∃ d' n y rest, Delimiter.ofLetters d (s ++ x :: more) = (d', n) ∧
      (s ++ x :: more).drop n = y :: rest ∧ isStringMark y = false := by
    induction s with
    | nil =>
      intro d
      have stops : Delimiter.ofLetters d (x :: more) = (d, 0) := by
        have apart : x ∉ "fFrRbBuU".toList := by simpa [isStringLetter] using noLetter
        rw [Delimiter.ofLetters]
        simp_all
      exact ⟨d, 0, x, more, stops, rfl, ends⟩
    | cons y s ih =>
      intro d
      rw [List.all_cons, Bool.and_eq_true] at plain
      rcases ofLetters_cons d y (s ++ x :: more) with ⟨_, stops⟩ | ⟨next, goes⟩
      · exact ⟨d, 0, y, s ++ x :: more, stops, rfl, by simpa using plain.1⟩
      · obtain ⟨d', n, z, rest, letters, behind, noMark⟩ := ih plain.2 next
        refine ⟨d', n + 1, z, rest, ?_, behind, noMark⟩
        rw [List.cons_append, goes, letters]
  obtain ⟨d, n, y, rest, letters, behind, noMark⟩ := reaches { mark := '"' }
  simp only [Layout.stringStart, letters, behind]
  simp only [isStringMark, Bool.or_eq_false_iff, beq_eq_false_iff_ne] at noMark
  simp [noMark]

end Layouts

end ModelAtlas.Source
