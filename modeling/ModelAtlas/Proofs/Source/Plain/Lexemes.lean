import ModelAtlas.Proofs.Source.Plain.Spelling
import ModelAtlas.Source.Parse.Lookahead

/-!
# Lexemes of plain sources

Most patterns can be told from the character that a text starts with (`mayStart`). So where a plain
name or a sign stands, one pattern takes something and all others nothing, whatever the grammar
looks for there (`Lookahead.lexeme?_eq_some`).
-/

namespace ModelAtlas.Source

open Grammar (Pattern Terminal Automaton)
open Parse
open Plain (past)

/-! ### Places -/

namespace Plain

theorem past_append (m : Mark) (s t : List Char) : past m (s ++ t) = past (past m s) t :=
  List.foldl_append

theorem offset_lt_next (m : Mark) (c : Char) : m.offset < (m.next c).offset := by
  unfold Mark.next
  split
  · exact Nat.lt_succ_self _
  · exact Nat.lt_add_of_pos_right c.utf8Size_pos

theorem offset_le_past (m : Mark) (s : List Char) : m.offset ≤ (past m s).offset := by
  induction s generalizing m with
  | nil => exact Nat.le_refl _
  | cons c s ih => exact Nat.le_trans (Nat.le_of_lt (offset_lt_next m c)) (ih (m.next c))

theorem offset_lt_past (m : Mark) {s : List Char} (proper : s ≠ []) :
    m.offset < (past m s).offset := by
  cases s with
  | nil => exact absurd rfl proper
  | cons c s => exact Nat.lt_of_lt_of_le (offset_lt_next m c) (offset_le_past (m.next c) s)

end Plain

namespace Cursor

/-- Going past the characters that a text starts with. -/
theorem skip_append (m : Mark) (s rest : List Char) :
    (Cursor.mk m (s ++ rest)).skip s.length = ⟨past m s, rest⟩ := by
  rw [skip]
  induction s generalizing m with
  | nil => rfl
  | cons c s ih => exact ih (m.next c)

theorem offset_next (m : Mark) (c : Char) : (m.next c).offset = m.offset + c.utf8Size := by
  unfold Mark.next
  split
  case isTrue h => rw [h]; rfl
  case isFalse => rfl

theorem takeBytes_append (taken s rest : List Char) (m : Mark) :
    takeBytes taken ((past m s).offset - m.offset) (s ++ rest) = taken.reverse ++ s := by
  induction s generalizing taken m with
  | nil =>
    rw [show past m [] = m from rfl, Nat.sub_self, List.append_nil]
    cases rest <;> simp [takeBytes]
  | cons c s ih =>
    have size := offset_next m c
    have positive := c.utf8Size_pos
    have grows := Plain.offset_le_past (m.next c) s
    have some : (past m (c :: s)).offset - m.offset ≠ 0 := by
      show (past (m.next c) s).offset - m.offset ≠ 0
      omega
    have left : (past m (c :: s)).offset - m.offset - c.utf8Size =
        (past (m.next c) s).offset - (m.next c).offset := by
      show (past (m.next c) s).offset - m.offset - c.utf8Size = _
      omega
    rw [List.cons_append, takeBytes, if_neg some, left, ih, List.reverse_cons, List.append_assoc,
      List.singleton_append]

/-- The text between two places. -/
theorem textUpTo_past (m : Mark) (s rest : List Char) :
    (Cursor.mk m (s ++ rest)).textUpTo (past m s) = String.ofList s :=
  congrArg String.ofList (takeBytes_append [] s rest m)

end Cursor

namespace Parse

/-! ### Patterns -/

/-- Whether a lexeme of a pattern may start with a character. -/
def mayStart (c : Char) : Pattern → Bool
  | .sign spelling => spelling.toList.head? == some c
  | .identifier => Text.isNameStart c
  | .integer => c.isDigit
  | .float => c.isDigit || c == '.'
  | .comment => c == '#'
  | .joint | .escape | .backslash => c == '\\'
  | .formatText => true
  | .conversion => c == '!'
  | _ => false

theorem digitsLength_eq_zero {c : Char} (s : List Char) (other : c.isDigit = false) :
    digitsLength false (c :: s) = 0 := by
  simp [digitsLength, other]

theorem integerLength_eq_zero {c : Char} (s : List Char) (other : c.isDigit = false) :
    integerLength (c :: s) = 0 := by
  have nonzero : c ≠ '0' := fun same => by simp [same] at other
  have based : ∀ s' : List Char, c :: s ≠ '0' :: s' := fun s' same => nonzero (List.cons.inj same).1
  simp only [integerLength, decimalLength, digitsLength_eq_zero s other]
  split <;> simp_all

theorem floatLength_eq_zero {c : Char} (s : List Char) (other : c.isDigit = false)
    (noPoint : c ≠ '.' ∨ s.head?.all (!·.isDigit)) : floatLength (c :: s) = 0 := by
  have fraction : (if oneOfLength "." (c :: s) = 0 then 0 else digitsLength false s) = 0 := by
    rcases noPoint with other | plain
    · simp [oneOfLength, other]
    · cases s with
      | nil => simp [digitsLength]
      | cons d s => simp [digitsLength, show d.isDigit = false by simpa using plain]
  simp [floatLength, digitsLength_eq_zero s other, fraction]

theorem lexemeLength_eq_zero {p : Pattern} {c : Char} (other : mayStart c p = false) (s : List Char) :
    lexemeLength p (c :: s) = 0 := by
  cases p with
  | sign spelling =>
    simp only [mayStart, beq_eq_false_iff_ne] at other
    cases chars : spelling.toList with
    | nil => simp [lexemeLength, ← String.length_toList, chars]
    | cons d rest =>
      have apart : d ≠ c := by simpa [chars] using other
      simp [lexemeLength, chars, List.isPrefixOf, apart]
  | integer => exact integerLength_eq_zero s other
  | float =>
    simp only [mayStart, Bool.or_eq_false_iff, beq_eq_false_iff_ne] at other
    exact floatLength_eq_zero s other.1 (.inl other.2)
  | identifier => simp_all [mayStart, lexemeLength, wordLength]
  | formatText => cases other
  | _ => simp_all [mayStart, lexemeLength, behindBackslash]

theorem mayStart_of_lexemeLength {p : Pattern} {c : Char} {s : List Char}
    (found : lexemeLength p (c :: s) ≠ 0) : mayStart c p = true :=
  Bool.of_not_eq_false fun other => found (lexemeLength_eq_zero other s)

theorem lexemeLength_nil (p : Pattern) : lexemeLength p [] = 0 := by
  cases p with
  | sign spelling =>
    cases chars : spelling.toList with
    | nil => simp [lexemeLength, ← String.length_toList, chars]
    | cons d rest => simp [lexemeLength, chars]
  | integer => decide
  | float => decide
  | _ => rfl

/-! ### The longest lexeme -/

namespace Lookahead

variable {patterns : List (Nat × Pattern)} {s : List Char}

theorem longer_of_no {q : Nat × Pattern} (no : lexemeLength q.2 s = 0) {best : Option (Nat × Nat)}
    (proper : ∀ b ∈ best, 0 < b.2) : longer s best q = best := by
  cases best with
  | none => simp [longer, no]
  | some b =>
    have positive : b.2 ≠ 0 := Nat.ne_of_gt (proper b rfl)
    simp [longer, no, positive.symm]

theorem longest_eq_none (no : ∀ q ∈ patterns, lexemeLength q.2 s = 0) : longest patterns s = none := by
  unfold longest
  induction patterns with
  | nil => rfl
  | cons q patterns ih =>
    rw [List.forall_mem_cons] at no
    rw [List.foldl_cons, longer_of_no no.1 (by simp)]
    exact ih no.2

/-- What alone is found is the longest. -/
theorem longest_eq_some {i n : Nat} {p : Pattern} (listed : (i, p) ∈ patterns)
    (found : lexemeLength p s = n) (proper : 0 < n)
    (alone : ∀ q ∈ patterns, lexemeLength q.2 s ≠ 0 → q = (i, p)) :
    longest patterns s = some (i, n) := by
  unfold longest
  -- what has been found on the way is this lexeme or none
  suffices from_best : ∀ best, best = none ∨ best = some (i, n) →
      (i, p) ∈ patterns ∨ best = some (i, n) → patterns.foldl (longer s) best = some (i, n) from
    from_best none (.inl rfl) (.inl listed)
  clear listed
  induction patterns with
  | nil => exact fun best _ done => by simpa using done
  | cons q patterns ih =>
    rw [List.forall_mem_cons] at alone
    intro best so_far listed
    rw [List.foldl_cons]
    by_cases no : lexemeLength q.2 s = 0
    · have positive : ∀ b ∈ best, 0 < b.2 := by
        rcases so_far with rfl | rfl <;> simp [proper]
      have other : (i, p) ≠ q := by
        rintro rfl
        exact Nat.ne_of_gt proper (found.symm.trans no)
      rw [longer_of_no no positive]
      exact ih alone.2 best so_far (by simpa [other] using listed)
    · obtain rfl := alone.1 no
      have found : longer s best (i, p) = some (i, n) := by
        rcases so_far with rfl | rfl <;> simp [longer, found, Nat.ne_of_gt proper]
      exact ih alone.2 _ (.inr found) (.inr found)

end Lookahead

/-! ### Words -/

/-- The characters that may stand behind a plain name. -/
def wordEnds : List Char := [' ', '.', '(', ')']

section Words

variable {s more : List Char} {x : Char}

theorem isNameStart_of_letter {c : Char} (letter : c.isAlpha || c == '_') : Text.isNameStart c := by
  simp only [Text.isNameStart, letter, Bool.true_or]

theorem isNamePart_of_isWordChar {c : Char} (word : Plain.isWordChar c) : Text.isNamePart c := by
  simp only [Plain.isWordChar, Char.isAlphanum, Bool.or_eq_true] at word
  simp only [Text.isNamePart, Text.isNameStart, Bool.or_eq_true]
  grind

/-- A word starts with a letter. -/
theorem exists_cons_of_isWord (word : Plain.isWord s) :
    ∃ c rest, s = c :: rest ∧ (c.isAlpha || c == '_') = true ∧ s.all Plain.isWordChar := by
  cases s with
  | nil => simp [Plain.isWord] at word
  | cons c rest =>
    simp only [Plain.isWord, Bool.and_eq_true] at word
    exact ⟨c, rest, rfl, by simpa using word.1, word.2⟩

theorem takeWhile_word (word : s.all Plain.isWordChar) (ends : x ∈ wordEnds) :
    (s ++ x :: more).takeWhile Text.isNamePart = s := by
  have stop : ∀ y ∈ wordEnds, ¬ Text.isNamePart y = true := by
    simp only [wordEnds, List.forall_mem_cons, List.not_mem_nil, false_implies, implies_true]
    decide
  rw [List.takeWhile_append_of_pos fun c member =>
      isNamePart_of_isWordChar (List.all_eq_true.mp word c member),
    List.takeWhile_cons_of_neg (stop x ends), List.append_nil]

theorem wordLength_append (word : Plain.isWord s) (ends : x ∈ wordEnds) :
    wordLength (s ++ x :: more) = s.length := by
  obtain ⟨c, rest, rfl, letter, chars⟩ := exists_cons_of_isWord word
  rw [List.all_cons, Bool.and_eq_true] at chars
  rw [List.cons_append, wordLength, if_pos (isNameStart_of_letter letter), takeWhile_word chars.2 ends,
    List.length_cons]

/-- Nothing is cut out of a word together with a sign that does not end it. -/
theorem not_isPrefixOf_word {t : List Char} {y : Char} (other : Plain.isWordChar y = false)
    (apart : y ∉ wordEnds) (word : s.all Plain.isWordChar) (prefixed : t.all Plain.isWordChar)
    (ends : x ∈ wordEnds) : (t ++ [y]).isPrefixOf (s ++ x :: more) = false := by
  have stop : ∀ z ∈ wordEnds, Plain.isWordChar z = false := by
    simp only [wordEnds, List.forall_mem_cons, List.not_mem_nil, false_implies, implies_true]
    decide
  induction t generalizing s with
  | nil =>
    cases s with
    | nil =>
      have : y ≠ x := fun same => apart (same ▸ ends)
      simp [List.isPrefixOf, this]
    | cons c s =>
      rw [List.all_cons, Bool.and_eq_true] at word
      have : y ≠ c := fun same => by simp [same, word.1] at other
      simp [List.isPrefixOf, this]
  | cons d t ih =>
    rw [List.all_cons, Bool.and_eq_true] at prefixed
    cases s with
    | nil =>
      have : d ≠ x := fun same => by simp [same, stop x ends] at prefixed
      simp [List.isPrefixOf, this]
    | cons c s =>
      rw [List.all_cons, Bool.and_eq_true] at word
      simp only [List.cons_append, List.isPrefixOf_cons_cons, ih word.2 prefixed.2, Bool.and_false]

/-- Patterns of fixed spellings that start with no letter, and of lexemes that do not. -/
def avoidsLetters : Pattern → Bool
  | .sign spelling => spelling.toList.head?.all fun c => !(c.isAlpha || c == '_')
  | .identifier | .formatText => false
  | _ => true

/-- No letter is a digit. -/
theorem isDigit_letter {c : Char} (letter : (c.isAlpha || c == '_') = true) : c.isDigit = false := by
  rw [Bool.eq_false_iff]
  intro digit
  unfold Char.isAlpha Char.isUpper Char.isLower at letter
  simp only [Char.isDigit, Bool.or_eq_true, Bool.and_eq_true, decide_eq_true_eq, beq_iff_eq,
    UInt32.le_iff_toNat_le] at letter digit
  -- letters, digits and the underscore have their codes in ranges apart
  have codes : '0'.val.toNat = 48 ∧ '9'.val.toNat = 57 ∧ 'A'.val.toNat = 65 ∧
      'Z'.val.toNat = 90 ∧ 'a'.val.toNat = 97 ∧ 'z'.val.toNat = 122 ∧ '_'.val.toNat = 95 := by
    decide
  rcases letter with (upper | lower) | rfl <;> omega

theorem mayStart_of_avoidsLetters {p : Pattern} (avoids : avoidsLetters p) {c : Char}
    (letter : (c.isAlpha || c == '_') = true) : mayStart c p = false := by
  have others : c.isDigit = false ∧ c ≠ '.' ∧ c ≠ '#' ∧ c ≠ '\\' ∧ c ≠ '!' := by
    refine ⟨isDigit_letter letter, ?_⟩
    refine ⟨?_, ?_, ?_, ?_⟩ <;> rintro rfl <;> cases letter
  cases p with
  | sign spelling =>
    simp only [avoidsLetters, Option.all_eq_true] at avoids
    simp only [mayStart, beq_eq_false_iff_ne]
    intro first
    simpa [letter] using avoids c first
  | identifier => cases avoids
  | formatText => cases avoids
  | _ => simp [mayStart, others]

/-- Where a letter stands, no pattern but that of names finds anything, but for the one sign that
looks like a word. -/
theorem avoidsLetters_ownPatterns : ∀ q ∈ Lookahead.ownPatterns, q.2 = .formatText ∨
    q = (Terminal.identifier.number, .identifier) ∨ q.2 = .sign "except*" ∨ avoidsLetters q.2 := by
  decide

/-- Only the pattern of names finds a word. -/
theorem eq_identifier_of_lexemeLength (word : Plain.isWord s) (ends : x ∈ wordEnds)
    {q : Nat × Pattern} (listed : q ∈ Lookahead.ownPatterns) (format : q.2 ≠ .formatText)
    (found : lexemeLength q.2 (s ++ x :: more) ≠ 0) :
    q = (Terminal.identifier.number, .identifier) := by
  obtain ⟨c, rest, rfl, letter, chars⟩ := exists_cons_of_isWord word
  rcases avoidsLetters_ownPatterns q listed with isFormat | isIdentifier | isExcept | avoids
  · exact absurd isFormat format
  · exact isIdentifier
  · rw [isExcept, lexemeLength, if_neg] at found
    · exact absurd rfl found
    · rw [Bool.not_eq_true]
      exact not_isPrefixOf_word (t := "except".toList) (y := '*') (by decide) (by decide) chars
        (by decide) ends
  · exact absurd (lexemeLength_eq_zero (mayStart_of_avoidsLetters avoids letter) _) found

end Words

/-! ### Signs -/

/-- The signs of plain sources. -/
def plainSigns : List (Terminal × Char) :=
  [(.openParen, '('), (.closeParen, ')'), (.dot, '.'), (.colon, ':'), (.equal, '='),
    (.openBracket, '['), (.closeBracket, ']'), (.comma, ',')]

/-- What else might start with one of them. -/
def longerSigns : List Pattern := [.formatText, .float, .sign "...", .sign ":=", .sign "=="]

theorem mayStart_plainSigns : ∀ sign ∈ plainSigns, ∀ q ∈ Lookahead.ownPatterns,
    mayStart sign.2 q.2 = true →
      q = (sign.1.number, .sign (String.ofList [sign.2])) ∨ q.2 ∈ longerSigns := by
  decide

theorem lexemeLength_longerSigns {x y : Char} (other : x.isDigit = false) (solid : y ≠ '=' ∧ y ≠ '.')
    (plain : y.isDigit = false) (more : List Char) :
    ∀ p ∈ longerSigns, p ≠ .formatText → lexemeLength p (x :: y :: more) = 0 := by
  intro p listed format
  simp only [longerSigns, List.mem_cons, List.not_mem_nil, or_false] at listed
  rcases listed with rfl | rfl | rfl | rfl | rfl
  · exact absurd rfl format
  · exact floatLength_eq_zero _ other (.inr (by simp [plain]))
  all_goals
    simp [lexemeLength, List.isPrefixOf, solid.1.symm, solid.2.symm]

/-- Only the pattern of a sign finds it. -/
theorem eq_sign_of_lexemeLength {sign : Terminal × Char} (isSign : sign ∈ plainSigns) {y : Char}
    (solid : y ≠ '=' ∧ y ≠ '.') (plain : y.isDigit = false) {more : List Char} {q : Nat × Pattern}
    (listed : q ∈ Lookahead.ownPatterns) (format : q.2 ≠ .formatText)
    (found : lexemeLength q.2 (sign.2 :: y :: more) ≠ 0) :
    q = (sign.1.number, .sign (String.ofList [sign.2])) := by
  have other : ∀ sign ∈ plainSigns, sign.2.isDigit = false := by decide
  rcases mayStart_plainSigns sign isSign q listed (mayStart_of_lexemeLength found) with same | longer
  · exact same
  · exact absurd (lexemeLength_longerSigns (other sign isSign) solid plain more q.2 longer format) found

/-! ### Lexemes -/

namespace Lookahead

theorem isImmediate_or_format : ∀ q ∈ ownPatterns,
    (q.2.isImmediate = true → q.2 = .escape ∨ q.2 = .backslash) ∧
      (q.2 = .formatText → q.1 = Terminal.formatText.number) := by
  decide

/-- Nothing is found where a backslash would stand first. -/
theorem lexemeLength_immediate {q : Nat × Pattern} (listed : q ∈ ownPatterns)
    (immediate : q.2.isImmediate = true) {s : List Char} (solid : s.head?.all (· != '\\')) :
    lexemeLength q.2 s = 0 := by
  cases s with
  | nil => exact lexemeLength_nil q.2
  | cons c s =>
    have other : c ≠ '\\' := by simpa using solid
    rcases (isImmediate_or_format q listed).1 immediate with isIt | isIt <;> rw [isIt] <;>
      exact lexemeLength_eq_zero (by simpa [mayStart] using other) s

section Lexemes

variable {expected : Nat} {c start : Cursor}

/-- What is looked for in front of white space is not found. -/
theorem lexeme?_eq (noFormat : expected.testBit Terminal.formatText.number = false)
    (solid : c.rest.head?.all (· != '\\')) (blank : c.dropWhile isSpace = start) :
    lexeme? expected c =
      if start.rest.isEmpty then
        if expected.testBit Terminal.endOfSource.number then
          some (Terminal.endOfSource.number, start, start)
        else none
      else (longest ((ownPatterns.filter fun q =>
          if q.2 == .identifier then expected &&& words != 0 else expected.testBit q.1).filter
          fun q => !q.2.isImmediate) start.rest).map fun (i, n) => (i, start, start.skip n) := by
  unfold lexeme?
  dsimp only
  rw [longest_eq_none, longest_eq_none, blank]
  · rfl
  · -- the text of formats is not looked for
    intro q member
    simp only [List.mem_filter, beq_iff_eq] at member
    obtain ⟨⟨listed, allowed⟩, isFormat⟩ := member
    rw [isFormat, (isImmediate_or_format q listed).2 isFormat, noFormat] at allowed
    cases allowed
  · intro q member
    simp only [List.mem_filter] at member
    exact lexemeLength_immediate member.1.1 member.2 solid

/-- A lexeme that only one pattern finds is read. -/
theorem lexeme?_eq_some (noFormat : expected.testBit Terminal.formatText.number = false)
    (solid : c.rest.head?.all (· != '\\')) (blank : c.dropWhile isSpace = start) {i n : Nat}
    {p : Pattern} (listed : (i, p) ∈ ownPatterns) (later : p.isImmediate = false)
    (allowed : (if p == .identifier then expected &&& words != 0 else expected.testBit i) = true)
    (found : lexemeLength p start.rest = n) (proper : 0 < n)
    (alone : ∀ q ∈ ownPatterns, q.2 ≠ .formatText → lexemeLength q.2 start.rest ≠ 0 → q = (i, p)) :
    lexeme? expected c = some (i, start, start.skip n) := by
  have some_text : start.rest.isEmpty = false := by
    cases text : start.rest with
    | nil =>
      rw [text, lexemeLength_nil] at found
      omega
    | cons _ _ => rfl
  rw [lexeme?_eq noFormat solid blank, some_text, longest_eq_some (i := i) (p := p) _ found proper _]
  · rfl
  · simp only [List.mem_filter]
    exact ⟨⟨listed, allowed⟩, by rw [later]; rfl⟩
  · intro q member finds
    simp only [List.mem_filter] at member
    obtain ⟨⟨listed, allowed⟩, _⟩ := member
    refine alone q listed (fun isFormat => ?_) finds
    rw [isFormat, (isImmediate_or_format q listed).2 isFormat, noFormat] at allowed
    cases allowed

end Lexemes

end Lookahead

end Parse

end ModelAtlas.Source
