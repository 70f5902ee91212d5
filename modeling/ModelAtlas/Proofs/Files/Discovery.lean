import ModelAtlas.Files.Discovery
import ModelAtlas.Proofs.Files.Walking

/-!
# What discovery finds

Below a root that is clear of links, discovery finds exactly the files that match the glob and are not
excluded.
-/

namespace ModelAtlas.Files

open Std

namespace Tree

/-- Every directory on the way to an entry is one more entry. -/
theorem WellFormed.length_le_size {t : Tree} (formed : t.WellFormed) {parts : List String}
    (present : t.entry? parts ≠ none) : parts.length ≤ t.size := by
  let heads := (List.range parts.length).map fun k => parts.take (k + 1)
  have stored : heads ⊆ t.keys := by
    intro head member
    obtain ⟨k, inRange, rfl⟩ := List.mem_map.mp member
    have short := List.mem_range.mp inRange
    have proper : parts.take (k + 1) ≠ [] := by
      intro empty
      have := congrArg List.length empty
      rw [List.length_take, List.length_nil] at this
      omega
    rw [mem_keys_iff proper]
    by_cases below : parts.drop (k + 1) = []
    · rw [List.drop_eq_nil_iff] at below
      rwa [List.take_of_length_le below]
    · rw [formed.above below (by rwa [List.take_append_drop])]
      simp
  have distinct : heads.Nodup := by
    rw [List.Nodup, List.pairwise_iff_getElem]
    intro i j inI inJ less same
    have lengths := congrArg List.length same
    simp only [heads, List.length_map, List.length_range] at inI inJ
    simp only [heads, List.getElem_map, List.getElem_range, List.length_take] at lengths
    omega
  have bound := distinct.length_le_of_subset stored
  rw [ExtTreeMap.length_keys] at bound
  simpa [heads] using bound

theorem mem_namesIn {t : Tree} {parts : List String} {name : String} :
    name ∈ t.namesIn parts ↔ t.entry? (parts ++ [name]) ≠ none := by
  rw [← mem_keys_iff (by simp)]
  unfold namesIn
  rw [List.mem_filterMap]
  constructor
  · rintro ⟨key, stored, named⟩
    split at named
    · rename_i inside
      simp only [Bool.and_eq_true, beq_iff_eq, Bool.not_eq_true', List.isEmpty_eq_false_iff] at inside
      obtain ⟨rfl, proper⟩ := inside
      rw [List.getLast?_eq_some_getLast proper, Option.some.injEq] at named
      rw [← named, List.dropLast_concat_getLast proper]
      exact stored
    · cases named
  · intro stored
    exact ⟨parts ++ [name], stored, by simp⟩

/-! ### Files below a place -/

/-- No link stands on the way to a place or below it. -/
def Clear (t : Tree) (place : List String) : Prop :=
  ∀ parts target, t.entry? parts = some (.link target) → ¬ parts <+: place ∧ ¬ place <+: parts

theorem clear_iff {t : Tree} {place : List String} :
    (∀ key ∈ t.keys, (t.entry? key).any Entry.isLink → ¬ key <+: place ∧ ¬ place <+: key) ↔
      t.Clear place := by
  constructor
  · intro clear parts target found
    by_cases top : parts = []
    · subst top
      cases found
    · exact clear parts ((mem_keys_iff top).mpr (by simp [found])) (by simp [found, Entry.isLink])
  · intro clear key _ isLink
    cases found : t.entry? key with
    | none => simp [found] at isLink
    | some e =>
      cases e with
      | link target => exact clear key target found
      | file content => simp [found, Entry.isLink] at isLink
      | dir => simp [found, Entry.isLink] at isLink

instance (t : Tree) (place : List String) : Decidable (t.Clear place) := decidable_of_iff _ clear_iff

theorem Clear.unlinked {t : Tree} {place : List String} (clear : t.Clear place)
    (rest : List String) : t.Unlinked (place ++ rest) := by
  intro above target start found
  rcases List.prefix_or_prefix_of_prefix start (List.prefix_append place rest) with higher | lower
  · exact (clear above target found).1 higher
  · exact (clear above target found).2 lower

theorem Clear.unlinked_self {t : Tree} {place : List String} (clear : t.Clear place) :
    t.Unlinked place := by
  simpa using clear.unlinked []

theorem mem_filesBelow {t : Tree} (formed : t.WellFormed) {place : List String}
    (unlinked : ∀ rest target, t.entry? (place ++ rest) ≠ some (.link target)) (depth : Nat)
    (inside : List (List String)) (shown parts : List String) :
    parts ∈ t.filesBelow depth inside shown place ↔
      ∃ rest, rest ≠ [] ∧ rest.length ≤ depth ∧ parts = shown ++ rest ∧
        (t.contentAt (place ++ rest)).isSome := by
  induction depth generalizing inside shown place with
  | zero =>
    rw [filesBelow]
    constructor
    · intro member
      cases member
    · rintro ⟨rest, proper, short, _⟩
      exact absurd (List.eq_nil_of_length_eq_zero (by omega)) proper
  | succ depth ih =>
    have deeper : ∀ name rest target,
        t.entry? (place ++ [name] ++ rest) ≠ some (.link target) := by
      intro name rest target
      rw [List.append_assoc]
      exact unlinked _ target
    rw [filesBelow, List.mem_flatMap]
    constructor
    · rintro ⟨name, _, member⟩
      split at member
      · cases member
      · rename_i content found
        rw [List.mem_singleton] at member
        exact ⟨[name], by simp, by simp, member, contentAt_isSome.mpr ⟨content, found⟩⟩
      · obtain ⟨rest, _, short, rfl, isFile⟩ := (ih (deeper name) _ _).mp member
        rw [List.append_assoc] at isFile
        exact ⟨name :: rest, by simp, by simpa using short, by simp, isFile⟩
      · rename_i target found
        exact absurd found (unlinked [name] target)
    · rintro ⟨rest, proper, short, rfl, isFile⟩
      obtain ⟨content, found⟩ := contentAt_isSome.mp isFile
      cases rest with
      | nil => exact absurd rfl proper
      | cons name others =>
        rw [List.append_cons] at found isFile
        cases others with
        | nil =>
          rw [List.append_nil] at found
          refine ⟨name, mem_namesIn.mpr (by simp [found]), ?_⟩
          rw [found]
          exact List.mem_singleton.mpr rfl
        | cons second more =>
          have dir : t.entry? (place ++ [name]) = some .dir :=
            formed.above (List.cons_ne_nil second more) (found ▸ Option.some_ne_none _)
          refine ⟨name, mem_namesIn.mpr (by simp [dir]), ?_⟩
          rw [dir]
          exact (ih (deeper name) _ _).mpr
            ⟨second :: more, by simp, by simpa using short, by simp, isFile⟩

theorem filesUnder_ofParts (t : Tree) (parts : List String) : t.filesUnder (.ofParts parts) =
    match t.resolve parts with
    | .error _ => []
    | .ok place =>
      match t.entry? place with
      | some .dir => t.filesBelow t.walkDepth [place] parts place
      | _ => [] :=
  if_pos rfl

theorem mem_filesUnder {t : Tree} (formed : t.WellFormed) {place : List String}
    (clear : t.Clear place) (valid : ∀ n ∈ place, IsName n) (parts : List String) :
    parts ∈ t.filesUnder (.ofParts place) ↔
      ∃ rest, rest ≠ [] ∧ parts = place ++ rest ∧ (t.contentAt (place ++ rest)).isSome := by
  have unlinked : ∀ rest target, t.entry? (place ++ rest) ≠ some (.link target) :=
    fun rest target => clear.unlinked rest _ target (List.prefix_refl _)
  have noDir : t.entry? place ≠ some .dir →
      ¬ ∃ rest, rest ≠ [] ∧ parts = place ++ rest ∧ (t.contentAt (place ++ rest)).isSome := by
    rintro other ⟨rest, proper, _, isFile⟩
    obtain ⟨content, found⟩ := contentAt_isSome.mp isFile
    exact other (formed.above proper (by simp [found]))
  rw [filesUnder_ofParts]
  by_cases dir : t.entry? place = some .dir
  · rw [formed.resolve (by simp [dir]) (by simp [dir])]
    dsimp only
    rw [dir]
    dsimp only
    rw [mem_filesBelow formed unlinked]
    constructor
    · rintro ⟨rest, proper, _, same, isFile⟩
      exact ⟨rest, proper, same, isFile⟩
    · rintro ⟨rest, proper, same, isFile⟩
      obtain ⟨content, found⟩ := contentAt_isSome.mp isFile
      have bound : (place ++ rest).length ≤ t.size := formed.length_le_size (by simp [found])
      rw [List.length_append] at bound
      refine ⟨rest, proper, ?_, same, isFile⟩
      unfold walkDepth
      have square : t.size + 2 ≤ (t.size + 2) * (t.size + 2) := Nat.le_mul_self _
      omega
  · refine iff_of_false ?_ (noDir dir)
    split
    · simp
    · rename_i there walked
      rw [walk_straight valid (by simpa using clear.unlinked_self) walked, List.nil_append]
      split
      · rename_i found
        exact absurd found dir
      · simp

theorem filesUnder_of_error {t : Tree} {place : List String} {e : AccessError}
    (failed : t.resolve place = .error e) : t.filesUnder (.ofParts place) = [] := by
  rw [filesUnder_ofParts, failed]

/-! ### Searches -/

theorem text_anywhere (place : List String) (last : String) :
    (Path.ofParts (place ++ ["**/" ++ last])).text = (Path.ofParts (place ++ ["**", last])).text := by
  have proper : place ++ ["**"] ≠ [] := by simp
  rw [List.append_cons place "**" [last], Path.text_append_singleton proper]
  by_cases top : place = []
  · subst top
    simp [Path.text, Path.ofParts, ← String.append_assoc]
  · rw [Path.text_append_singleton top, Path.text_append_singleton top]
    rw [show "**/" = "**" ++ "/" from rfl]
    simp only [String.append_assoc]

theorem parse_joinText {place : List String} (valid : ∀ n ∈ place, IsName n) {last : String}
    (isName : IsName last) :
    Path.parse (joinText (Path.ofParts place).text ("**/" ++ last)) =
      .ofParts (place ++ ["**", last]) := by
  have names : ∀ n ∈ place ++ ["**", last], IsName n := by
    intro n member
    rw [List.mem_append, List.mem_cons, List.mem_singleton] at member
    rcases member with above | rfl | rfl
    · exact valid n above
    · decide
    · exact isName
  rw [Path.joinText_text valid (by simp), text_anywhere, Path.parse_text_of_names names]

theorem search_eq {place : List String} (valid : ∀ n ∈ place, IsName n)
    (plain : ∀ n ∈ place, isGlobPart n = false) {last : String} (isName : IsName last) :
    Search.ofText (joinText (Path.ofParts place).text ("**/" ++ last)) =
      ⟨.ofParts place, "**/" ++ last⟩ := by
  have base : ∀ n ∈ place, (!isGlobPart n) = true := by simpa using plain
  have isGlob : (!isGlobPart "**") = false := by decide
  have pattern : String.intercalate "/" ["**", last] = "**/" ++ last := by simp
  unfold Search.ofText
  rw [parse_joinText valid isName]
  dsimp only [Path.ofParts]
  rw [List.takeWhile_append_of_pos base, List.dropWhile_append_of_pos base,
    List.takeWhile_cons_of_neg (by simp [isGlob]), List.dropWhile_cons_of_neg (by simp [isGlob]),
    pattern, List.append_nil, if_neg]
  intro single
  have chars := congrArg String.toList (beq_iff_eq.mp single)
  simp at chars

/-- A search starts from the names of its root before the first that is a glob. -/
theorem base_eq {place : List String} (valid : ∀ n ∈ place, IsName n) {last : String}
    (isName : IsName last) :
    (Search.ofText (joinText (Path.ofParts place).text ("**/" ++ last))).base =
      .ofParts (place.takeWhile (!isGlobPart ·)) := by
  have isGlob : (!isGlobPart "**") = false := by decide
  unfold Search.ofText
  rw [parse_joinText valid isName]
  dsimp only [Path.ofParts]
  rw [List.takeWhile_append]
  split
  · rename_i whole
    rw [List.takeWhile_cons_of_neg (by simp [isGlob]), List.append_nil]
    exact congrArg Path.ofParts ((List.takeWhile_prefix _).eq_of_length whole).symm
  · rfl

/-! ### Roots -/

theorem LeadsTo.valid {t : Tree} (formed : t.WellFormed) {parts place : List String}
    (leads : t.LeadsTo parts place) : ∀ n ∈ place, IsName n := by
  obtain ⟨found, rest, here, _, valid, _, dir, rfl⟩ := leads
  intro n member
  rcases List.mem_append.mp member with above | below
  · exact formed.names here (by simp [dir]) n above
  · exact valid n below

/-- A root leads to a place that is clear of links and no glob. -/
structure RootAt (t : Tree) (root : Path) (place : List String) : Prop where
  absolute : root.absolute = true
  leads : t.LeadsTo root.clean.parts place
  plain : ∀ n ∈ place, isGlobPart n = false
  clear : t.Clear place

theorem RootAt.normalize {t : Tree} {root : Path} {place : List String} (at_ : t.RootAt root place) :
    t.normalize root = .ofParts place :=
  at_.leads.normalize at_.absolute at_.clear.unlinked_self

theorem RootAt.unique {t : Tree} {root : Path} {place other : List String}
    (at_ : t.RootAt root place) (also : t.RootAt root other) : place = other := by
  have same : Path.ofParts place = .ofParts other := at_.normalize.symm.trans also.normalize
  exact congrArg Path.parts same

theorem RootAt.extend {t u : Tree} (frame : u.Extends t) {root : Path} {place : List String}
    (at_ : t.RootAt root place) : u.RootAt root place where
  absolute := at_.absolute
  leads := at_.leads.extend frame
  plain := at_.plain
  clear parts target found := at_.clear parts target ((frame.links parts target).mpr found)

/-- The ignore rules that count below a place. -/
def rulesAt (t : Tree) (place : List String) : Rules :=
  match t.contentAt (place ++ [ignoreFile]) with
  | some content => Rules.parse content
  | none => []

theorem rulesOf_eq {t : Tree} (formed : t.WellFormed) {place : List String}
    (valid : ∀ n ∈ place, IsName n) (clear : t.Clear place) :
    t.rulesOf (.ofParts place) = t.rulesAt place := by
  have isName : IsName ignoreFile := by decide
  have names : ∀ n ∈ place ++ [ignoreFile], IsName n := by
    intro n member
    rcases List.mem_append.mp member with above | last
    · exact valid n above
    · rw [List.mem_singleton.mp last]
      exact isName
  unfold rulesOf rulesAt
  rw [Path.joinText_text valid (by decide),
    ← readBytes_text formed (by simp) names (clear.unlinked [ignoreFile])]
  cases t.readBytes (Path.ofParts (place ++ [ignoreFile])).text with
  | ok content => rfl
  | error e => rfl

theorem rulesOf_eq_nil {t : Tree} (formed : t.WellFormed) {place : List String}
    (valid : ∀ n ∈ place, IsName n) (clear : t.Clear place)
    (missing : t.contentAt (place ++ [ignoreFile]) = none) : t.rulesOf (.ofParts place) = [] := by
  rw [rulesOf_eq formed valid clear]
  unfold rulesAt
  rw [missing]

/-- Whether a search by a rule reports a file, by its names below a place. -/
def Reports (t : Tree) (rule : Rule) (place rest : List String) : Prop :=
  rule.keeps = false ∧ rule.applies (String.intercalate "/" rest) false = true ∧
    isExcluded (t.rulesAt place) (.ofParts place) (place ++ rest) = false

theorem mem_discover {t : Tree} (formed : t.WellFormed) {root : Path} {place : List String}
    (at_ : t.RootAt root place) {last : String} (isName : IsName last) {rule : Rule}
    (parsed : Rule.parse ("**/" ++ last) = .ok (some rule)) :
    ∃ found, t.discover root ("**/" ++ last) = .ok found ∧ ∀ p, p ∈ found ↔
      ∃ rest, rest ≠ [] ∧ p = Path.ofParts (place ++ rest) ∧
        (t.contentAt (place ++ rest)).isSome ∧ t.Reports rule place rest := by
  have valid := at_.leads.valid formed
  unfold discover
  dsimp only
  rw [at_.normalize, search_eq valid at_.plain isName]
  dsimp only
  rw [parsed, rulesOf_eq formed valid at_.clear]
  refine ⟨_, rfl, ?_⟩
  intro p
  simp only [List.mem_map, List.mem_mergeSort, List.mem_filter, mem_filesUnder formed at_.clear valid,
    Bool.and_eq_true, Bool.not_eq_true', show (Path.ofParts place).parts = place from rfl]
  constructor
  · rintro ⟨_, ⟨⟨rest, proper, rfl, isFile⟩, ⟨keeps, applies⟩, included⟩, rfl⟩
    rw [List.drop_left] at applies
    exact ⟨rest, proper, rfl, isFile, keeps, applies, included⟩
  · rintro ⟨rest, proper, rfl, isFile, keeps, applies, included⟩
    refine ⟨_, ⟨⟨rest, proper, rfl, isFile⟩, ⟨keeps, ?_⟩, included⟩, rfl⟩
    rw [List.drop_left]
    exact applies

theorem discover_eq_nil {t : Tree} {root : Path} {place : List String}
    (normal : t.normalize root = .ofParts place) (valid : ∀ n ∈ place, IsName n)
    (plain : ∀ n ∈ place, isGlobPart n = false) (empty : t.filesUnder (.ofParts place) = []) {last : String}
    (isName : IsName last) {rule : Rule} (parsed : Rule.parse ("**/" ++ last) = .ok (some rule)) :
    t.discover root ("**/" ++ last) = .ok [] := by
  unfold discover
  dsimp only
  rw [normal, search_eq valid plain isName]
  dsimp only
  rw [parsed, empty]
  simp

end Tree

end ModelAtlas.Files
