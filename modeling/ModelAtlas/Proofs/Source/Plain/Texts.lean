import ModelAtlas.Proofs.Source.Plain.Passages

/-!
# Texts of tokens

Tokens of a plain source are written down one behind the other, each with the white space in front of
it and wherever they stand (`Lexeme.Stand`). Where they are the terminals of a phrase, the text is a
passage (`Lexeme.Stand.covers`).
-/

namespace ModelAtlas.Source

open Grammar (Terminal Automaton)
open Parse Plain

/-! ### Lexemes -/

/-- A token of a plain source: the white space in front of it, and its characters. -/
structure Lexeme where
  gap : Gap := .none
  terminal : Terminal
  text : List Char

namespace Lexeme

/-- The text of some tokens in front of another text. -/
def spell : List Lexeme → List Char → List Char
  | [], rest => rest
  | l :: ls, rest => l.gap.chars ++ (l.text ++ spell ls rest)

/-- The mark behind some tokens. -/
def behind (m : Mark) : List Lexeme → Mark
  | [] => m
  | l :: ls => behind (past (past m l.gap.chars) l.text) ls

def tokens (m : Mark) : List Lexeme → List Char → List Token
  | [], _ => []
  | l :: ls, rest =>
    let start := past m l.gap.chars
    .spelling l.terminal start l.text (spell ls rest) :: tokens (past start l.text) ls rest

/-- Some tokens stand in front of a text, wherever that is. -/
def Stand (before : Layout) (ls : List Lexeme) (rest : List Char) (after : Layout) : Prop :=
  ∀ m, Chain before ⟨m, spell ls rest⟩ (tokens m ls rest) after ⟨behind m ls, rest⟩

theorem behind_eq (m : Mark) (ls : List Lexeme) : behind m ls = past m (spell ls []) := by
  induction ls generalizing m with
  | nil => rfl
  | cons l ls ih => rw [behind, ih, spell, past_append, past_append]

theorem spell_eq (ls : List Lexeme) (rest : List Char) : spell ls rest = spell ls [] ++ rest := by
  induction ls with
  | nil => rfl
  | cons l ls ih => simp only [spell, ih, List.append_assoc]

theorem length_tokens (m : Mark) (ls : List Lexeme) (rest : List Char) :
    (tokens m ls rest).length = ls.length := by
  induction ls generalizing m with
  | nil => rfl
  | cons l ls ih => exact congrArg Nat.succ (ih _)

theorem map_terminal_tokens (m : Mark) (ls : List Lexeme) (rest : List Char) :
    (tokens m ls rest).map (·.terminal) = ls.map (·.terminal) := by
  induction ls generalizing m with
  | nil => rfl
  | cons l ls ih => exact congrArg (_ :: ·) (ih _)

section Stand

variable {before between after : Layout} {ls : List Lexeme} {rest : List Char} {gap : Gap}

theorem Stand.cons {l : Lexeme} (stands : Stand between ls rest after)
    (first : ∀ m, Spelled before ⟨m, l.gap.chars ++ (l.text ++ spell ls rest)⟩
      (.spelling l.terminal (past m l.gap.chars) l.text (spell ls rest)) between) :
    Stand before (l :: ls) rest after :=
  fun m => .cons (first m) (stands _)

theorem Stand.name {s more : List Char} {x : Char} (outside : before.strings = [])
    (kept : gap.Keeps before) (isName : Plain.isName s) (next : spell ls rest = x :: more)
    (ends : x ∈ wordEnds) (stands : Stand before ls rest after) :
    Stand before (⟨gap, .identifier, s⟩ :: ls) rest after := by
  refine stands.cons fun m => ?_
  rw [next]
  exact .word outside kept (.inl ⟨rfl, isName⟩) ends

theorem Stand.sign (sign : Terminal × Char) (outside : before.strings = [])
    (inRow : gap.isLine = false) (isSign : sign ∈ plainSigns) (ends : endsSign (spell ls rest))
    (stands : Stand before ls rest after) :
    Stand before (⟨gap, sign.1, [sign.2]⟩ :: ls) rest after :=
  stands.cons fun _ => .sign outside inRow isSign ends

/-- The tokens of a string. -/
def ofString (gap : Gap) (s : List Char) : List Lexeme :=
  ⟨gap, .stringStart, ['\'']⟩ :: (if s.isEmpty then [] else [⟨.none, .stringText, s⟩]) ++
    [⟨.none, .stringEnd, ['\'']⟩]

theorem spell_append (first second : List Lexeme) (rest : List Char) :
    spell (first ++ second) rest = spell first (spell second rest) := by
  induction first with
  | nil => rfl
  | cons l first ih => simp only [List.cons_append, spell, ih]

theorem spell_ofString (gap : Gap) (s : List Char) (ls : List Lexeme) (rest : List Char) :
    spell (ofString gap s ++ ls) rest = gap.chars ++ (quoted s ++ spell ls rest) := by
  rw [spell_append]
  cases s <;> simp [ofString, spell, quoted, Gap.chars]

theorem Stand.string {s : List Char} (outside : before.strings = []) (noFormat : before.inFormat = false)
    (inRow : gap.isLine = false) (text : s.all isTextChar)
    (apart : (spell ls rest).head?.all (· != '\'')) (stands : Stand before ls rest after) :
    Stand before (ofString gap s ++ ls) rest after := by
  -- between its quotes a string has a layout of its own, which the closing quote ends
  let inside : Layout := { before with strings := [plainQuote], inFormat := false }
  have outer : { inside with strings := [], inFormat := false } = before := by
    obtain ⟨indents, strings, inFormat⟩ := before
    obtain rfl : strings = [] := outside
    obtain rfl : inFormat = false := noFormat
    rfl
  have closing : Stand inside (⟨.none, .stringEnd, ['\'']⟩ :: ls) rest after := by
    refine stands.cons fun m => ?_
    have ends := @Spelled.stringEnd inside m (spell ls rest) rfl
    rw [outer] at ends
    exact ends
  cases s with
  | nil =>
    refine closing.cons fun m => .stringStart outside inRow ?_
    show ('\'' :: spell ls rest).take 2 ≠ _
    cases text : spell ls rest with
    | nil => simp
    | cons x more =>
      rw [text] at apart
      simpa using apart
  | cons c s =>
    refine (closing.cons fun m => .stringText rfl text (List.cons_ne_nil c s)).cons fun m =>
      .stringStart outside inRow ?_
    have noQuote : c ≠ '\'' := by
      rintro rfl
      simp [isTextChar, isWordChar] at text
    show (c :: (s ++ '\'' :: spell ls rest)).take 2 ≠ _
    simp [noQuote]

end Stand

/-- Where the tokens of a phrase stand, a session reads the phrase. -/
theorem Stand.covers {before after : Layout} {ls : List Lexeme} {rest : List Char}
    (stands : Stand before ls rest after) (start : Cursor) {a : Automaton} {p : Grammar.Phrase}
    (holds : p.outcome a.tables = some p.result) (terminals : ls.map (·.terminal) = p.terminals)
    {under : List Part}
    (isBase : reachedState a under = Grammar.stateAfter a.tables a.startState p.base)
    (stacked : List Part) (isStack : stacked.map (·.symbol) = p.stack) (m : Mark)
    (here : hereBehind start (stacked.reverse ++ under) = ⟨m, spell ls rest⟩) {top : List Part}
    (becomes : (p.result.map (.ofPiece a.grammar
      (slotsOf a.grammar stacked (tokens m ls rest)))).reverse = top)
    {n : Nat} (few : ls.length ≤ n) :
    Covers a start n (stacked.reverse ++ under) before (top ++ under) after := by
  have chain := stands m
  rw [← here] at chain
  have covers := covers_phrase holds isBase isStack ((map_terminal_tokens m ls rest).trans terminals)
    chain
  rw [becomes, length_tokens] at covers
  exact covers.mono few

end Lexeme

end ModelAtlas.Source
