import ModelAtlas.Files.Ignore
import ModelAtlas.Files.Path

/-!
# Globs for endings and names

A glob such as `**/*.py` matches just what ends that way, however deep it lies, and one such as
`**/index.txt` just what has that name.
-/

namespace ModelAtlas.Files

/-! ### Bytes of texts -/

theorem listing_loop (bytes : ByteArray) (i : Nat) (done : List UInt8) :
    ByteArray.toList.loop bytes i done = done.reverse ++ bytes.data.toList.drop i := by
  fun_induction ByteArray.toList.loop bytes i done with
  | case1 i done inside ih =>
    have short : i < bytes.data.toList.length := inside
    have first : bytes.get! i = bytes.data.toList[i] := by
      show bytes.data[i]! = _
      rw [getElem!_pos bytes.data i inside, Array.getElem_toList]
    rw [ih, List.drop_eq_getElem_cons short, ← first, List.reverse_cons, List.append_assoc]
    rfl
  | case2 i done outside =>
    have long : bytes.data.toList.length ≤ i := Nat.not_lt.mp outside
    rw [List.drop_of_length_le long, List.append_nil]

theorem listing_eq (bytes : ByteArray) : bytes.toList = bytes.data.toList := by
  unfold ByteArray.toList
  rw [listing_loop]
  rfl

theorem utf8_append (s t : String) : (s ++ t).toUTF8.toList = s.toUTF8.toList ++ t.toUTF8.toList := by
  rw [listing_eq, listing_eq, listing_eq, String.toUTF8_eq_toByteArray, String.toByteArray_append]
  exact ByteArray.toList_data_append

theorem utf8_empty : "".toUTF8.toList = [] := by
  rw [listing_eq]
  rfl

/-- A text that ends in the bytes of another ends in the other. -/
theorem utf8_suffix {s e : String} {before : List UInt8}
    (ends : s.toUTF8.toList = before ++ e.toUTF8.toList) : ∃ start : String, s = start ++ e := by
  have bytes : s.toByteArray = before.toByteArray ++ e.toByteArray := by
    rw [listing_eq, listing_eq] at ends
    apply ByteArray.ext
    apply Array.toList_inj.mp
    rw [ByteArray.toList_data_append, ← String.toUTF8_eq_toByteArray, ends]
    simp
  have size : s.utf8ByteSize = before.toByteArray.size + e.toByteArray.size := by
    rw [← String.size_toByteArray, bytes, ByteArray.size_append]
  -- no character reaches across the start of a text, so the bytes before it are those of a text too
  have valid : String.Pos.Raw.IsValid s ⟨before.toByteArray.size⟩ := by
    rw [String.Pos.Raw.isValid_iff_isValidUTF8_extract_utf8ByteSize]
    constructor
    · rw [String.Pos.Raw.le_iff, String.byteIdx_rawEndPos]
      dsimp only
      omega
    · rw [bytes, ByteArray.extract_append_eq_right rfl size]
      exact e.isValidUTF8
  have start := valid.isValidUTF8_extract_zero
  rw [bytes, ByteArray.extract_append_eq_left rfl] at start
  refine ⟨⟨_, start⟩, ?_⟩
  rw [← String.toByteArray_inj, String.toByteArray_append, bytes]

theorem utf8_inj {s t : String} (same : s.toUTF8.toList = t.toUTF8.toList) : s = t := by
  rw [listing_eq, listing_eq, String.toUTF8_eq_toByteArray, String.toUTF8_eq_toByteArray] at same
  exact String.toByteArray_inj.mp (ByteArray.ext (Array.toList_inj.mp same))

/-! ### Matching -/

theorem acceptsAll_bytes {bytes bs : List UInt8} :
    acceptsAll (·.isEmpty) (bytes.map .byte) bs = true ↔ bs = bytes := by
  induction bytes generalizing bs with
  | nil =>
    rw [List.map_nil, acceptsAll]
    exact List.isEmpty_iff
  | cons b rest ih =>
    rw [List.map_cons, acceptsAll, GlobToken.accepts]
    cases bs with
    | nil => simp [onFirst]
    | cons first others => rw [onFirst, Bool.and_eq_true, ih, beq_iff_eq, List.cons.injEq]

theorem afterRun_append {rest : List UInt8 → Bool} {run bs : List UInt8} (noSlash : slash ∉ run)
    (accepted : rest bs = true) : afterRun rest (run ++ bs) = true := by
  induction run with
  | nil =>
    cases bs with
    | nil => exact accepted
    | cons b more => simp [afterRun, accepted]
  | cons b more ih =>
    rw [List.mem_cons, not_or] at noSlash
    have other : (b != slash) = true := bne_iff_ne.mpr fun same => noSlash.1 same.symm
    rw [List.cons_append, afterRun, other, ih noSlash.2]
    simp

theorem afterSlash_append {rest : List UInt8 → Bool} (before : List UInt8) {bs : List UInt8}
    (accepted : rest bs = true) : afterSlash rest (before ++ slash :: bs) = true := by
  induction before with
  | nil => simp [afterSlash, accepted]
  | cons b more ih => simp [afterSlash, ih]

theorem exists_of_afterRun {rest : List UInt8 → Bool} {bs : List UInt8}
    (accepted : afterRun rest bs = true) : ∃ run tail, bs = run ++ tail ∧ rest tail = true := by
  induction bs with
  | nil => exact ⟨[], [], rfl, accepted⟩
  | cons b more ih =>
    rw [afterRun, Bool.or_eq_true, Bool.and_eq_true] at accepted
    rcases accepted with here | ⟨_, later⟩
    · exact ⟨[], b :: more, rfl, here⟩
    · obtain ⟨run, tail, rfl, behind⟩ := ih later
      exact ⟨b :: run, tail, rfl, behind⟩

theorem exists_of_afterSlash {rest : List UInt8 → Bool} {bs : List UInt8}
    (accepted : afterSlash rest bs = true) :
    ∃ before tail, bs = before ++ slash :: tail ∧ rest tail = true := by
  induction bs with
  | nil => cases accepted
  | cons b more ih =>
    rw [afterSlash, Bool.or_eq_true, Bool.and_eq_true, beq_iff_eq] at accepted
    rcases accepted with ⟨rfl, here⟩ | later
    · exact ⟨[], more, rfl, here⟩
    · obtain ⟨before, tail, rfl, behind⟩ := ih later
      exact ⟨b :: before, tail, rfl, behind⟩

/-- What follows the last slash. -/
theorem split_at_last_slash (bs : List UInt8) :
    slash ∉ bs ∨ ∃ before run, bs = before ++ slash :: run ∧ slash ∉ run := by
  induction bs with
  | nil => exact Or.inl (by simp)
  | cons b rest ih =>
    rcases ih with none | ⟨before, run, rfl, clean⟩
    · by_cases isSlash : slash = b
      · exact Or.inr ⟨[], rest, by simp [isSlash], none⟩
      · exact Or.inl (by simp [isSlash, none])
    · exact Or.inr ⟨b :: before, run, rfl, clean⟩

theorem accepts_ending (ending before : List UInt8) :
    acceptsAll (·.isEmpty) (.dirsFirst :: .star :: ending.map .byte) (before ++ ending) = true := by
  have run : ∀ bs : List UInt8, slash ∉ bs →
      acceptsAll (·.isEmpty) (.star :: ending.map .byte) (bs ++ ending) = true := by
    intro bs noSlash
    rw [acceptsAll, GlobToken.accepts]
    exact afterRun_append noSlash (acceptsAll_bytes.mpr rfl)
  rw [acceptsAll, GlobToken.accepts, Bool.or_eq_true]
  rcases split_at_last_slash before with none | ⟨dirs, name, rfl, noSlash⟩
  · exact Or.inl (run before none)
  · refine Or.inr ?_
    rw [List.append_assoc, List.cons_append]
    exact afterSlash_append dirs (run name noSlash)

theorem exists_of_accepts_ending {ending bs : List UInt8}
    (accepted : acceptsAll (·.isEmpty) (.dirsFirst :: .star :: ending.map .byte) bs = true) :
    ∃ before, bs = before ++ ending := by
  have run : ∀ bs : List UInt8, acceptsAll (·.isEmpty) (.star :: ending.map .byte) bs = true →
      ∃ before, bs = before ++ ending := by
    intro bs accepted
    rw [acceptsAll, GlobToken.accepts] at accepted
    obtain ⟨run, tail, rfl, behind⟩ := exists_of_afterRun accepted
    exact ⟨run, congrArg (run ++ ·) (acceptsAll_bytes.mp behind)⟩
  rw [acceptsAll, GlobToken.accepts, Bool.or_eq_true] at accepted
  rcases accepted with here | deeper
  · exact run bs here
  · obtain ⟨dirs, tail, rfl, behind⟩ := exists_of_afterSlash deeper
    obtain ⟨before, rfl⟩ := run tail behind
    exact ⟨dirs ++ slash :: before, by simp⟩

/-- The glob `**/*` with an ending behind it. -/
def endingGlob (ending : List UInt8) : Glob := .dirsFirst :: .star :: ending.map .byte

theorem endingGlob_matches_iff {ending text : String} :
    (endingGlob ending.toUTF8.toList).matches text = true ↔ ∃ before, text = before ++ ending := by
  unfold Glob.matches
  constructor
  · intro accepted
    obtain ⟨before, bytes⟩ := exists_of_accepts_ending accepted
    exact utf8_suffix bytes
  · rintro ⟨before, rfl⟩
    rw [utf8_append]
    exact accepts_ending _ _

/-- The glob `**/` with a name behind it. -/
def nameGlob (name : List UInt8) : Glob := .dirsFirst :: name.map .byte

theorem nameGlob_matches_iff {name text : String} :
    (nameGlob name.toUTF8.toList).matches text = true ↔
      text = name ∨ ∃ before, text = before ++ ("/" ++ name) := by
  have below : ∀ before, before ++ slash :: name.toUTF8.toList =
      before ++ ("/" ++ name).toUTF8.toList := by
    intro before
    rw [utf8_append, listing_eq "/".toUTF8]
    rfl
  unfold Glob.matches nameGlob
  rw [acceptsAll, GlobToken.accepts, Bool.or_eq_true, acceptsAll_bytes]
  constructor
  · rintro (here | deeper)
    · exact Or.inl (utf8_inj here)
    · obtain ⟨before, tail, split, behind⟩ := exists_of_afterSlash deeper
      rw [acceptsAll_bytes.mp behind, below] at split
      exact Or.inr (utf8_suffix split)
  · rintro (rfl | ⟨before, rfl⟩)
    · exact Or.inl rfl
    · rw [utf8_append, ← below]
      exact Or.inr (afterSlash_append _ (acceptsAll_bytes.mpr rfl))

/-! ### Rules -/

/-- A line is a glob as it stands if nothing in it means anything else. -/
theorem Rule.parse_of_plain {line : String} (nonempty : line ≠ "")
    (noComment : Text.startsWith line "#" = false) (trimmed : trimLine line = line)
    (bare : opening line.toList = (false, false, line.toList))
    (whole : splitDirs line.toList = (false, line.toList))
    (anchored : globText false line = line) :
    Rule.parse line = (Glob.parse line).map fun glob => some ⟨false, false, glob⟩ := by
  unfold Rule.parse
  rw [noComment, trimmed, if_neg (by simp)]
  dsimp only
  rw [if_neg (by simpa using nonempty), bare]
  dsimp only
  rw [whole]
  dsimp only
  rw [String.ofList_toList, anchored]
  cases Glob.parse line with
  | error e => rfl
  | ok glob => rfl

theorem Rule.exists_of_any {line : String} {test : Rule → Bool}
    (holds : (Rule.parse line).toOption.join.any test) :
    ∃ rule, Rule.parse line = .ok (some rule) ∧ test rule := by
  cases read : Rule.parse line with
  | error e => simp [read, Except.toOption] at holds
  | ok rule? =>
    cases rule? with
    | none => simp [read, Except.toOption] at holds
    | some rule => exact ⟨rule, rfl, by simpa [read, Except.toOption] using holds⟩

/-! ### File extensions -/

theorem Path.extension?_append {rest : List String} (proper : rest ≠ []) {place : List String} :
    (Path.ofParts (place ++ rest)).extension? = (Path.ofParts rest).extension? := by
  have last : (Path.ofParts (place ++ rest)).fileName? = (Path.ofParts rest).fileName? := by
    unfold fileName? ofParts
    dsimp only
    rw [List.getLast?_append, List.getLast?_eq_some_getLast proper]
    rfl
  unfold extension?
  rw [last]

theorem eq_of_takeWhile {cs : List Char} {extension : String}
    (named : ¬ (cs.reverse.drop ((cs.reverse.takeWhile (· != '.')).length + 1)).isEmpty)
    (after : String.ofList (cs.reverse.takeWhile (· != '.')).reverse = extension) :
    ∃ stem, cs = stem ++ '.' :: extension.toList := by
  have cut := List.takeWhile_append_dropWhile (p := (· != '.')) (l := cs.reverse)
  cases rest : cs.reverse.dropWhile (· != '.') with
  | nil =>
    rw [rest, List.append_nil] at cut
    simp [cut] at named
  | cons dot stem =>
    have isDot := List.head?_dropWhile_not (· != '.') cs.reverse
    rw [rest] at isDot cut
    have same : dot = '.' := by simpa using isDot
    refine ⟨stem.reverse, ?_⟩
    generalize cs.reverse.takeWhile (· != '.') = ending at cut after
    rw [← List.reverse_reverse cs, ← cut, ← after, same]
    simp

theorem Path.eq_append_of_extension {parts : List String} {extension : String}
    (has : (Path.ofParts parts).extension? = some extension) :
    ∃ above stem, parts = above ++ [stem ++ "." ++ extension] := by
  unfold extension? fileName? at has
  cases last : (Path.ofParts parts).parts.getLast? with
  | none => simp [last] at has
  | some name =>
    obtain ⟨above, whole⟩ := List.getLast?_eq_some_iff.mp last
    rw [last] at has
    dsimp only at has
    split at has
    · cases has
    · rename_i fileName named
      split at named
      · cases named
      · rw [← Option.some.inj named] at has
        split at has
        · cases has
        · rename_i proper
          obtain ⟨stem, chars⟩ := eq_of_takeWhile proper (Option.some.inj has)
          have spelled : name = String.ofList stem ++ "." ++ extension := by
            apply String.toList_inj.mp
            simp [chars]
          exact ⟨above, String.ofList stem, spelled ▸ whole⟩

end ModelAtlas.Files
