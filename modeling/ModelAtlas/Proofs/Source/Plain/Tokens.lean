import ModelAtlas.Proofs.Source.Grammar.Phrases
import ModelAtlas.Proofs.Source.Parse.Parts
import ModelAtlas.Proofs.Source.Plain.Gaps
import ModelAtlas.Proofs.Source.Plain.Lexemes

/-!
# Tokens of plain sources

`Spelled` says which token stands at a place of a plain source. Whatever else the grammar looks for
there, this token is what a session sees (`sees_of_spelled`).
-/

namespace ModelAtlas.Source

open Grammar (Pattern Terminal Automaton)
open Parse
open Plain (past)

/-! ### Tokens -/

/-- The delimiter of plain strings. -/
def plainQuote : Delimiter := { mark := '\'' }

/-- Whether a row is indented as the layout has it. -/
def Gap.Keeps (gap : Gap) (layout : Layout) : Prop :=
  gap.isLine = true → gap.indent = layout.indents.headD 0

/-- Whether a sign ends in front of a text: no longer sign goes on with it, and no number. -/
def endsSign (rest : List Char) : Bool :=
  rest.head?.any fun y => y != '=' && y != '.' && !y.isDigit

/-- A token that spells some characters in front of others. -/
def Token.spelling (terminal : Terminal) (m : Mark) (s rest : List Char) : Token :=
  ⟨terminal, ⟨m, s ++ rest⟩, ⟨past m s, rest⟩⟩

/-- The token that stands at a cursor in a plain source, and the layout behind it. -/
inductive Spelled : Layout → Cursor → Token → Layout → Prop
  | word {layout : Layout} {gap : Gap} {m : Mark} {s more : List Char} {x : Char}
      {terminal : Terminal} :
    layout.strings = [] → gap.Keeps layout →
    (terminal = .identifier ∧ Plain.isName s ∨ terminal = .classWord ∧ s = "class".toList) →
    x ∈ wordEnds →
    Spelled layout ⟨m, gap.chars ++ (s ++ x :: more)⟩
      (.spelling terminal (past m gap.chars) s (x :: more)) layout
  | sign {layout : Layout} {gap : Gap} {m : Mark} {sign : Terminal × Char} {rest : List Char} :
    layout.strings = [] → gap.isLine = false → sign ∈ plainSigns → endsSign rest →
    Spelled layout ⟨m, gap.chars ++ sign.2 :: rest⟩
      (.spelling sign.1 (past m gap.chars) [sign.2] rest) layout
  | stringStart {layout : Layout} {gap : Gap} {m : Mark} {rest : List Char} :
    layout.strings = [] → gap.isLine = false → rest.take 2 ≠ ['\'', '\''] →
    Spelled layout ⟨m, gap.chars ++ '\'' :: rest⟩
      (.spelling .stringStart (past m gap.chars) ['\''] rest)
      { layout with strings := [plainQuote], inFormat := false }
  | stringText {layout : Layout} {m : Mark} {s rest : List Char} :
    layout.strings = [plainQuote] → s.all Plain.isTextChar → s ≠ [] →
    Spelled layout ⟨m, s ++ '\'' :: rest⟩ (.spelling .stringText m s ('\'' :: rest)) layout
  | stringEnd {layout : Layout} {m : Mark} {rest : List Char} : layout.strings = [plainQuote] →
    Spelled layout ⟨m, '\'' :: rest⟩ (.spelling .stringEnd m ['\''] rest)
      { layout with strings := [], inFormat := false }
  | newline {layout : Layout} {m : Mark} {rest : List Char} {n : Nat} :
    layout.strings = [] → NextRow rest n → n ≤ layout.indents.headD 0 →
    Spelled layout ⟨m, rest⟩ (.spelling .newline m [] rest) layout
  | indent {layout : Layout} {m : Mark} {rest : List Char} {n : Nat} :
    layout.strings = [] → NextRow rest n → layout.indents.headD 0 < n →
    Spelled layout ⟨m, rest⟩ (.spelling .indent m [] rest)
      { layout with indents := n :: layout.indents }
  | dedent {layout : Layout} {m : Mark} {rest : List Char} {n : Nat} :
    layout.strings = [] → layout.inFormat = false → NextRow rest n → n < layout.indents.headD 0 →
    Spelled layout ⟨m, rest⟩ (.spelling .dedent m [] rest)
      { layout with indents := layout.indents.tail }
  | endOfSource {layout : Layout} {m : Mark} {rest : List Char} :
    layout.strings = [] → layout.indents.headD 0 = 0 → (rest = [] ∨ rest = ['\n']) →
    Spelled layout ⟨m, rest⟩ (.spelling .endOfSource (past m rest) [] []) layout

theorem exists_cons_of_endsSign {rest : List Char} (ends : endsSign rest) :
    ∃ y more, rest = y :: more ∧ (y ≠ '=' ∧ y ≠ '.') ∧ y.isDigit = false := by
  cases rest with
  | nil => cases ends
  | cons y more =>
    refine ⟨y, more, rfl, ?_⟩
    simpa [endsSign] using ends

theorem length_pos_of_isName {s : List Char} (name : Plain.isName s) : 0 < s.length := by
  cases s with
  | nil => simp [Plain.isName, Plain.isWord] at name
  | cons c s => exact Nat.succ_pos _

theorem endsSign_name {s : List Char} (name : Plain.isName s) (more : List Char) :
    endsSign (s ++ more) := by
  have word : Plain.isWord s := (Bool.and_eq_true _ _ ▸ name).1
  obtain ⟨c, rest, rfl, letter, _⟩ := exists_cons_of_isWord word
  have others : c.isDigit = false ∧ c ≠ '=' ∧ c ≠ '.' := ⟨isDigit_letter letter, by
    constructor <;> rintro rfl <;> cases letter⟩
  simp [endsSign, others]

theorem NextRow.endsSign {rest : List Char} {n : Nat} (next : NextRow rest n) : endsSign rest := by
  cases next with
  | row tab _ => cases tab <;> rfl
  | last => rfl

theorem Spelled.length_le {before after : Layout} {c : Cursor} {token : Token}
    (spelled : Spelled before c token after) : token.stop.rest.length ≤ c.rest.length := by
  cases spelled <;> simp [Token.spelling] <;> omega

section Seen

variable {a : Automaton} {size : Nat} {state : Grammar.State} {before after : Layout} {c : Cursor}
variable {token : Token}

open Lookahead

/-- A lexeme is seen where the layout has nothing to say. -/
theorem look_lexeme (proper : state ≠ Automaton.errorState)
    (silent : before.scan size (wanted (a.expected state)) c = none)
    {found : Nat × Cursor × Cursor} (finds : lexeme? (a.expected state) c = some found) :
    look a size state true before c = lexed a state c found := by
  have here : terminal? a size state (a.expected state) true before c c =
      some (lexed a state c found) := by
    rw [terminal?, silent, finds]
    rfl
  have noError : (state == Automaton.errorState) = false := by simpa using proper
  simp only [look, noError, Bool.false_eq_true, if_false, Bool.not_false, Bool.and_self, here]

/-- A terminal of the layout is seen if reading it changes something. -/
theorem sees_scanned (proper : state ≠ Automaton.errorState)
    (scans : before.scan size (wanted (a.expected state)) c =
      some ⟨token.terminal, token.start, token.stop, after⟩)
    (progress : c.offset < token.stop.offset ∨ after ≠ before ∨
      a.afterTerminal state token.terminal.number ≠ state) :
    Sees (look a size state true before c) token before after := by
  have moves : (decide (token.stop.offset ≤ c.offset) && !(after != before) &&
      (!true || a.afterTerminal state token.terminal.number == state)) = false := by
    rcases progress with ahead | changed | leaves
    · simp [Nat.not_le.mpr ahead]
    · simp [changed]
    · simp [leaves]
  have here : terminal? a size state (a.expected state) true before c c =
      some { label := .symbol token.terminal.number, lead := c, start := token.start,
             stop := token.stop, layout := some after, changed := after != before } := by
    rw [terminal?, scans, Option.bind_some]
    simp only [moves]
    rfl
  have noError : (state == Automaton.errorState) = false := by simpa using proper
  simp only [look, noError, Bool.false_eq_true, if_false, Bool.not_false, Bool.and_self, here]
  exact ⟨rfl, rfl, rfl, rfl⟩

theorem and_words_ne_zero {expected : Nat} {t : Terminal} (has : expected.testBit t.number = true)
    (isWord : words.testBit t.number = true) : (expected &&& words != 0) = true := by
  rw [bne_iff_ne]
  intro none
  have both : (expected &&& words).testBit t.number = true := by
    rw [Nat.testBit_and, has, isWord]
    rfl
  rw [none, Nat.zero_testBit] at both
  cases both

theorem reserved_keywords : ∀ t ∈ Terminal.all,
    (match t.form.pattern with
      | .keyword w => Plain.reserved.contains w
      | _ => true) = true := by
  decide

/-- No plain name is a keyword. -/
theorem keyword?_eq_none {s : List Char} (name : Plain.isName s) :
    keyword? (String.ofList s) = none := by
  refine List.find?_eq_none.mpr fun t member same => ?_
  have known := reserved_keywords t member
  rw [eq_of_beq same] at known
  rw [Plain.isName, show Plain.reserved.contains (String.ofList s) = true from known] at name
  simp at name

/-- No character of a word is blank or opens a string. -/
theorem plain_of_isWordChar {c : Char} (word : Plain.isWordChar c) :
    isBlank c = false ∧ isStringMark c = false := by
  have blanks : ∀ y ∈ [' ', '\t', '\n', '\r', '\x0b', '\x0c', '\u200b', '\u2060', '\ufeff', '#',
      '\\'], Plain.isWordChar y = false := by
    simp only [List.forall_mem_cons, List.not_mem_nil, false_implies, implies_true]
    decide
  have marks : ∀ y ∈ ['\'', '"', '\x60'], Plain.isWordChar y = false := by
    simp only [List.forall_mem_cons, List.not_mem_nil, false_implies, implies_true]
    decide
  refine ⟨Bool.eq_false_iff.mpr fun blank => ?_, Bool.eq_false_iff.mpr fun mark => ?_⟩
  · rw [blanks c (by simpa [isBlank, isSpace, or_assoc] using blank)] at word
    cases word
  · rw [marks c (by simpa [isStringMark, or_assoc] using mark)] at word
    cases word

theorem isStringMark_word {s : List Char} (word : Plain.isWord s) : s.all fun y => !isStringMark y := by
  obtain ⟨c, rest, rfl, _, chars⟩ := exists_cons_of_isWord word
  refine List.all_eq_true.mpr fun y member => ?_
  rw [(plain_of_isWordChar (List.all_eq_true.mp chars y member)).2]
  rfl

theorem isSolid_word {s more : List Char} (word : Plain.isWord s) : isSolid (s ++ more) := by
  obtain ⟨c, rest, rfl, _, chars⟩ := exists_cons_of_isWord word
  rw [List.all_cons, Bool.and_eq_true] at chars
  simp [isSolid, (plain_of_isWordChar chars.1).1]

/-- A word is seen as a lexeme of names. -/
theorem look_word {gap : Gap} {m : Mark} {s more : List Char} {x : Char}
    (outside : before.strings = []) (kept : gap.Keeps before) (word : Plain.isWord s)
    (ends : x ∈ wordEnds) (proper : state ≠ Automaton.errorState)
    (noFormat : (a.expected state).testBit Terminal.formatText.number = false)
    (noNewline : (a.expected state).testBit Terminal.newline.number = false)
    (allowed : (a.expected state &&& words != 0) = true)
    (room : (gap.chars ++ (s ++ x :: more)).length + 2 ≤ size) :
    look a size state true before ⟨m, gap.chars ++ (s ++ x :: more)⟩ =
      lexed a state ⟨m, gap.chars ++ (s ++ x :: more)⟩
        (Terminal.identifier.number, ⟨past m gap.chars, s ++ x :: more⟩,
          ⟨past (past m gap.chars) s, x :: more⟩) := by
  have solid : isSolid (s ++ x :: more) := isSolid_word word
  have short : gap.chars.length < size := by
    rw [List.length_append] at room
    omega
  have endings : ∀ y ∈ wordEnds, isStringMark y = false ∧ isStringLetter y = false := by
    simp only [wordEnds, List.forall_mem_cons, List.not_mem_nil, false_implies, implies_true]
    decide
  refine look_lexeme proper ?_ ?_
  · rw [scan_eq_afterBlanks outside (skip_gap solid _ short)]
    exact afterBlanks_eq_none (fun isLine => ⟨kept isLine, noNewline⟩)
      fun start => stringStart_eq_none (isStringMark_word word) (endings x ends).1 (endings x ends).2
  · have proper : 0 < s.length := by
      obtain ⟨c, rest, rfl, _⟩ := exists_cons_of_isWord word
      exact Nat.succ_pos _
    rw [lexeme?_eq_some noFormat (head?_gap solid) (dropWhile_gap solid)
      (show (Terminal.identifier.number, Pattern.identifier) ∈ ownPatterns by decide) rfl allowed
      (wordLength_append word ends) proper
      fun q listed format found => eq_identifier_of_lexemeLength word ends listed format found,
      Cursor.skip_append]

/-- A sign is seen as a lexeme of its own. -/
theorem look_sign {gap : Gap} {m : Mark} {sign : Terminal × Char} {y : Char} {more : List Char}
    (outside : before.strings = []) (inRow : gap.isLine = false) (isSign : sign ∈ plainSigns)
    (solid : y ≠ '=' ∧ y ≠ '.') (plain : y.isDigit = false) (proper : state ≠ Automaton.errorState)
    (noFormat : (a.expected state).testBit Terminal.formatText.number = false)
    (allowed : (a.expected state).testBit sign.1.number = true)
    (room : (gap.chars ++ sign.2 :: y :: more).length + 2 ≤ size) :
    look a size state true before ⟨m, gap.chars ++ sign.2 :: y :: more⟩ =
      lexed a state ⟨m, gap.chars ++ sign.2 :: y :: more⟩
        (sign.1.number, ⟨past m gap.chars, sign.2 :: y :: more⟩,
          ⟨past (past m gap.chars) [sign.2], y :: more⟩) := by
  have facts : ∀ sign ∈ plainSigns, isBlank sign.2 = false ∧ isStringMark sign.2 = false ∧
      isStringLetter sign.2 = false ∧
      (sign.1.number, .sign (String.ofList [sign.2])) ∈ ownPatterns := by decide
  obtain ⟨noBlank, noMark, noLetter, listed⟩ := facts sign isSign
  have isSolid : isSolid (sign.2 :: y :: more) := by simp [isSolid, noBlank]
  have short : gap.chars.length < size := by
    rw [List.length_append] at room
    omega
  refine look_lexeme proper ?_ ?_
  · rw [scan_eq_afterBlanks outside (skip_gap isSolid _ short)]
    exact afterBlanks_eq_none (fun isLine => absurd (inRow.symm.trans isLine) (by decide))
      fun start => stringStart_eq_none (s := []) rfl noMark noLetter
  · have found : lexemeLength (.sign (String.ofList [sign.2])) (sign.2 :: y :: more) = 1 := by
      simp [lexemeLength, List.isPrefixOf]
    rw [lexeme?_eq_some noFormat (head?_gap isSolid) (dropWhile_gap isSolid) listed rfl allowed found
      Nat.one_pos fun q listed format found =>
        eq_sign_of_lexemeLength isSign solid plain listed format found]
    rfl

/-- A string starts where its quote stands. -/
theorem scan_stringStart {gap : Gap} {m : Mark} {rest : List Char} (outside : before.strings = [])
    (inRow : gap.isLine = false) (short : rest.take 2 ≠ ['\'', '\'']) {w : Wanted}
    (has : w.stringStart = true) (room : (gap.chars ++ '\'' :: rest).length + 2 ≤ size) :
    before.scan size w ⟨m, gap.chars ++ '\'' :: rest⟩ =
      some ⟨.stringStart, ⟨past m gap.chars, '\'' :: rest⟩, ⟨past (past m gap.chars) ['\''], rest⟩,
        { before with strings := [plainQuote], inFormat := false }⟩ := by
  have isSolid : isSolid ('\'' :: rest) := rfl
  have enough : gap.chars.length < size := by
    rw [List.length_append] at room
    omega
  rw [scan_eq_afterBlanks outside (skip_gap isSolid _ enough)]
  have opens : before.stringStart ⟨past m gap.chars, '\'' :: rest⟩ ⟨past m gap.chars, '\'' :: rest⟩ =
      some ⟨.stringStart, ⟨past m gap.chars, '\'' :: rest⟩, ⟨past (past m gap.chars) ['\''], rest⟩,
        { before with strings := [plainQuote], inFormat := false }⟩ := by
    have single : (decide ((rest.take 2).length = 2) && (rest.take 2).all (· == '\'')) = false := by
      rw [Bool.eq_false_iff]
      intro triple
      simp only [Bool.and_eq_true, decide_eq_true_eq] at triple
      refine short (List.eq_replicate_iff.mpr ⟨triple.1, fun y member => ?_⟩)
      exact eq_of_beq (List.all_eq_true.mp triple.2 y member)
    have letters : Delimiter.ofLetters { mark := '"' } ('\'' :: rest) = ({ mark := '"' }, 0) := by
      simp [Delimiter.ofLetters]
    simp only [Layout.stringStart, letters, List.drop_zero]
    show (if (decide ((rest.take 2).length = 2) && (rest.take 2).all (· == '\'')) = true then _
      else _) = _
    rw [single, outside]
    rfl
  cases gap with
  | line tab => cases inRow
  | none =>
    simp only [Layout.afterBlanks, Gap.isLine, has, Gap.chars]
    exact opens
  | space =>
    simp only [Layout.afterBlanks, Gap.isLine, has, Gap.chars]
    exact opens

/-- What the text of a plain string ends with. -/
theorem readText_plain {m : Mark} {s rest : List Char} (text : s.all Plain.isTextChar) (has : Bool)
    {fuel : Nat} (room : s.length < fuel) :
    plainQuote.readText fuel has ⟨m, s ++ '\'' :: rest⟩ =
      if has || !s.isEmpty then .text ⟨past m s, '\'' :: rest⟩ else .closed ⟨past m ['\''], rest⟩ := by
  induction s generalizing m has fuel with
  | nil =>
    obtain ⟨k, rfl⟩ : ∃ k, fuel = k + 1 := ⟨fuel - 1, by omega⟩
    cases has <;> rfl
  | cons c s ih =>
    obtain ⟨k, rfl⟩ : ∃ k, fuel = k + 1 := ⟨fuel - 1, by omega⟩
    rw [List.all_cons, Bool.and_eq_true] at text
    have others : ∀ y ∈ ['\x00', '\\', '\'', '\n'], Plain.isTextChar y = false := by
      simp only [List.forall_mem_cons, List.not_mem_nil, false_implies, implies_true]
      decide
    have apart : c ≠ '\x00' ∧ c ≠ '\\' ∧ c ≠ '\'' ∧ c ≠ '\n' := by
      refine ⟨?_, ?_, ?_, ?_⟩ <;> rintro rfl <;> simp [others] at text
    rw [List.cons_append, Delimiter.readText]
    have noLine : (c == '\n') = false := by simp [apart]
    simp only [beq_iff_eq, apart, plainQuote, if_false, Bool.false_and, noLine, Bool.false_eq_true]
    have later := ih text.2 true (m := m.next c) (Nat.lt_of_succ_lt_succ room)
    rw [Bool.true_or, if_pos rfl] at later
    rw [List.isEmpty_cons, Bool.not_false, Bool.or_true, if_pos rfl]
    exact later

section Rows

variable {w : Wanted} {m : Mark} {rest : List Char} {n : Nat}

theorem scan_newline (outside : before.strings = []) (next : NextRow rest n)
    (within : n ≤ before.indents.headD 0) (has : w.newline = true) (noDedent : w.dedent = false)
    (noError : w.afterError = false) (room : rest.length + 2 ≤ size) :
    before.scan size w ⟨m, rest⟩ = some ⟨.newline, ⟨m, rest⟩, ⟨m, rest⟩, before⟩ := by
  obtain ⟨b, skips, lineEnd, indent, moved, comment⟩ :=
    skip_nextRow next m w.atLine (Nat.le_of_succ_le room)
  rw [scan_eq_afterBlanks outside skips]
  simp [Layout.afterBlanks, lineEnd, indent, moved, has, noDedent, noError, Nat.not_lt.mpr within,
    -List.headD_eq_head?_getD]

theorem scan_indent (outside : before.strings = []) (next : NextRow rest n)
    (deeper : before.indents.headD 0 < n) (has : w.indent = true) (room : rest.length + 2 ≤ size) :
    before.scan size w ⟨m, rest⟩ = some ⟨.indent, ⟨m, rest⟩, ⟨m, rest⟩,
      { before with indents := n :: before.indents }⟩ := by
  obtain ⟨b, skips, lineEnd, indent, moved, comment⟩ :=
    skip_nextRow next m w.atLine (Nat.le_of_succ_le room)
  rw [scan_eq_afterBlanks outside skips, Layout.afterBlanks, lineEnd, indent, has]
  simp only [deeper, decide_true, Bool.and_self, if_true, moved]

theorem scan_dedent (outside : before.strings = []) (noFormat : before.inFormat = false)
    (next : NextRow rest n) (above : n < before.indents.headD 0) (has : w.dedent = true)
    (room : rest.length + 2 ≤ size) :
    before.scan size w ⟨m, rest⟩ = some ⟨.dedent, ⟨m, rest⟩, ⟨m, rest⟩,
      { before with indents := before.indents.tail }⟩ := by
  obtain ⟨b, skips, lineEnd, indent, moved, comment⟩ :=
    skip_nextRow next m w.atLine (Nat.le_of_succ_le room)
  rw [scan_eq_afterBlanks outside skips]
  simp [Layout.afterBlanks, lineEnd, indent, moved, comment, has, noFormat, above,
    Nat.not_lt.mpr (Nat.le_of_lt above), -List.headD_eq_head?_getD]

/-- At the end of a source nothing is left for the layout. -/
theorem look_end (outside : before.strings = []) (top : before.indents.headD 0 = 0)
    (ends : rest = [] ∨ rest = ['\n']) (proper : state ≠ Automaton.errorState)
    (noFormat : (a.expected state).testBit Terminal.formatText.number = false)
    (noNewline : (a.expected state).testBit Terminal.newline.number = false)
    (has : (a.expected state).testBit Terminal.endOfSource.number = true)
    (room : rest.length + 2 ≤ size) :
    look a size state true before ⟨m, rest⟩ = lexed a state ⟨m, rest⟩
      (Terminal.endOfSource.number, ⟨past m rest, []⟩, ⟨past m rest, []⟩) := by
  obtain ⟨k, rfl⟩ : ∃ k, size = k + 2 := ⟨size - 2, by omega⟩
  refine look_lexeme proper ?_ ?_
  · have skips : ∃ moved, Blanks.skip (wanted (a.expected state)).atLine (k + 2) { here := ⟨m, rest⟩ } =
        some { here := ⟨past m rest, []⟩, moved := moved, lineEnd := true } := by
      rcases ends with rfl | rfl
      · exact ⟨false, rfl⟩
      · exact ⟨true, rfl⟩
    obtain ⟨moved, skips⟩ := skips
    rw [scan_eq_afterBlanks outside skips]
    exact afterBlanks_eq_none (fun _ => ⟨top.symm, noNewline⟩) fun start => rfl
  · have solid : rest.head?.all (· != '\\') := by
      rcases ends with rfl | rfl <;> rfl
    have blank : (Cursor.mk m rest).dropWhile isSpace = ⟨past m rest, []⟩ := by
      rcases ends with rfl | rfl <;> rfl
    rw [lexeme?_eq noFormat solid blank, has]
    rfl

end Rows

/-- A lexeme that is no name is seen as its terminal. -/
theorem sees_lexed (isLexed : look a size state true before c =
      lexed a state c (token.terminal.number, token.start, token.stop))
    (other : (token.terminal.number != Terminal.identifier.number) = true) :
    Sees (look a size state true before c) token before before := by
  rw [isLexed, lexed]
  simp only [other, if_true]
  exact ⟨rfl, rfl, rfl, rfl⟩

/-- A string goes on with text, or it ends. -/
theorem scan_readText {m : Mark} {s rest : List Char} {w : Wanted}
    (inside : before.strings = [plainQuote]) (text : s.all Plain.isTextChar)
    (has : (w.stringText && !w.indent) = true) (room : (s ++ '\'' :: rest).length + 2 ≤ size) :
    before.scan size w ⟨m, s ++ '\'' :: rest⟩ = some (
      if s.isEmpty then
        ⟨.stringEnd, ⟨m, s ++ '\'' :: rest⟩, ⟨past m ['\''], rest⟩,
          { before with strings := [], inFormat := false }⟩
      else ⟨.stringText, ⟨m, s ++ '\'' :: rest⟩, ⟨past m s, '\'' :: rest⟩, before⟩) := by
  simp only [Bool.and_eq_true, Bool.not_eq_true'] at has
  have noError : w.afterError = false := by simp [Wanted.afterError, has]
  have enough : s.length < size := by
    rw [List.length_append] at room
    omega
  have reads := @readText_plain m s rest text false size enough
  have noFields : plainQuote.format = false := rfl
  simp only [Layout.scan, inside, reads, has.1, noError, noFields, Bool.and_false, Bool.false_and]
  cases s <;> rfl

/-- Where a line end leads on, it changes the state. -/
theorem afterTerminal_ne (proper : state ≠ Automaton.errorState) {terminal : Terminal}
    (leaves : Grammar.stays a.tables state terminal.number = false) :
    a.afterTerminal state terminal.number ≠ state := by
  rw [Grammar.stays,
    ← a.actions_eq proper (Grammar.Productions.number_lt_symbolCount terminal)] at leaves
  rw [Automaton.afterTerminal]
  split <;> simp_all [Ne.symm proper]

/-- A sign is looked for if its terminal is, outside the text of formatted strings. -/
theorem fits_sign {sign : Terminal × Char} (isSign : sign ∈ plainSigns) (expected : Nat) :
    Grammar.fits sign.1 expected =
        (expected.testBit sign.1.number && !expected.testBit Terminal.formatText.number) ∧
      (sign.1.number != Terminal.identifier.number) = true := by
  simp only [plainSigns, List.mem_cons, List.not_mem_nil, or_false] at isSign
  rcases isSign with rfl | rfl | rfl | rfl | rfl | rfl | rfl | rfl <;> exact ⟨rfl, rfl⟩

/-- What is spelled is seen from every state that it fits. -/
theorem sees_of_spelled (spelled : Spelled before c token after)
    (proper : state ≠ Automaton.errorState) (isSeen : Grammar.seen a.tables state token.terminal)
    (canRead : a.actions state token.terminal.number ≠ []) (room : c.rest.length + 2 ≤ size) :
    Sees (look a size state true before c) token before after := by
  simp only [Grammar.seen, Bool.and_eq_true, Bool.not_eq_true'] at isSeen
  obtain ⟨fits, leaves⟩ := isSeen
  rw [← a.expected_eq] at fits
  -- `fits` keeps out what the grammar might take in place of the token, terminal by terminal
  cases spelled with
  | word outside kept isWord ends =>
    rcases isWord with ⟨rfl, name⟩ | ⟨rfl, rfl⟩
    · simp only [Token.spelling, Grammar.fits, Bool.and_eq_true, Bool.not_eq_true'] at fits
      have word : Plain.isWord _ := (Bool.and_eq_true _ _ ▸ name).1
      rw [look_word outside kept word ends proper fits.1.2 fits.2
        (and_words_ne_zero fits.1.1 (by decide)) room]
      simp only [lexed, Cursor.textUpTo_past, keyword?_eq_none name]
      exact ⟨rfl, rfl, rfl, rfl⟩
    · simp only [Token.spelling, Grammar.fits, Bool.and_eq_true, Bool.not_eq_true'] at fits
      rw [look_word outside kept (by decide) ends proper fits.1.2 fits.2
        (and_words_ne_zero fits.1.1 (by decide)) room]
      have usable : (a.actions state Terminal.classWord.number).isEmpty = false :=
        List.isEmpty_eq_false_iff.mpr canRead
      have isKeyword : keyword? (String.ofList "class".toList) = some .classWord := by decide
      simp only [lexed, Cursor.textUpTo_past, isKeyword, usable]
      exact ⟨rfl, rfl, rfl, rfl⟩
  | @sign _ _ sign rest outside inRow isSign ends =>
    obtain ⟨isFits, other⟩ := fits_sign isSign (a.expected state)
    obtain ⟨y, more, rfl, solid, plain⟩ := exists_cons_of_endsSign ends
    rw [Token.spelling, isFits, Bool.and_eq_true, Bool.not_eq_true'] at fits
    exact sees_lexed (look_sign outside inRow isSign solid plain proper fits.2 fits.1 room) other
  | stringStart outside inRow short =>
    refine sees_scanned proper (scan_stringStart outside inRow short fits room) (.inl ?_)
    exact Nat.lt_of_le_of_lt (Plain.offset_le_past _ _) (Plain.offset_lt_past _ (by nofun))
  | @stringText m _ _ inside text some =>
    have scanned := scan_readText (m := m) (w := wanted (a.expected state)) inside text fits room
    refine sees_scanned proper (scanned.trans ?_) (.inl (Plain.offset_lt_past _ some))
    rw [if_neg (by simpa using some)]
    rfl
  | stringEnd inside =>
    exact sees_scanned proper (scan_readText (s := []) inside rfl fits room)
      (.inl (Plain.offset_lt_past _ (by nofun)))
  | newline outside next within =>
    simp only [Token.spelling, Grammar.fits, Bool.and_eq_true, Bool.not_eq_true'] at fits
    exact sees_scanned proper (scan_newline outside next within fits.1.1 fits.1.2 fits.2 room)
      (.inr (.inr (afterTerminal_ne proper leaves)))
  | indent outside next deeper =>
    refine sees_scanned proper (scan_indent outside next deeper fits room) (.inr (.inl ?_))
    exact fun same => List.cons_ne_self _ _ (congrArg Layout.indents same)
  | dedent outside noFormat next above =>
    refine sees_scanned proper (scan_dedent outside noFormat next above fits room) (.inr (.inl ?_))
    intro same
    cases indents : before.indents with
    | nil => simp [indents] at above
    | cons n rest =>
      have shorter := congrArg Layout.indents same
      rw [indents] at shorter
      exact List.cons_ne_self n rest shorter.symm
  | endOfSource outside top ends =>
    simp only [Token.spelling, Grammar.fits, Bool.and_eq_true, Bool.not_eq_true'] at fits
    exact sees_lexed (look_end outside top ends proper fits.1.2 fits.2 fits.1.1 room) rfl

end Seen

end ModelAtlas.Source
