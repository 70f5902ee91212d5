import ModelAtlas.Inheritance.Graph

/-!
# Sets under keys

The maps of a graph hold a set under each key. `Under` says what a map holds, and a map is `Tidy` if
no key stands over an empty set. A tidy map is determined by what it holds (`Tidy.ext`).
-/

namespace ModelAtlas.Inheritance

open Std

/-- `member` is in the set under `key`. -/
def Under (m : ExtTreeMap String Names) (key member : String) : Prop := member ∈ m[key]?.getD ∅

instance (m : ExtTreeMap String Names) (key member : String) : Decidable (Under m key member) :=
  inferInstanceAs (Decidable (member ∈ m[key]?.getD ∅))

/-- No key stands over an empty set. -/
def Tidy (m : ExtTreeMap String Names) : Prop := ∀ key : String, m[key]? ≠ some ∅

theorem mem_foldl_insert (members start : Names) (x : String) :
    x ∈ members.foldl (fun t y => t.insert y) start ↔ x ∈ members ∨ x ∈ start := by
  rw [ExtTreeSet.foldl_eq_foldl_toList, ← ExtTreeSet.mem_toList (t := members)]
  induction members.toList generalizing start with
  | nil => simp
  | cons y rest ih =>
    rw [List.foldl_cons, ih, ExtTreeSet.mem_insert, Std.compare_eq_iff_eq, List.mem_cons]
    grind

theorem ne_empty_of_mem {s : Names} {x : String} (member : x ∈ s) : s ≠ ∅ := by
  rintro rfl
  exact ExtTreeSet.not_mem_empty member

theorem exists_mem_of_ne_empty {s : Names} (nonempty : s ≠ ∅) : ∃ x, x ∈ s := by
  apply Classical.byContradiction
  intro none
  apply nonempty
  apply ExtTreeSet.ext_mem
  intro x
  exact iff_of_false (fun member => none ⟨x, member⟩) ExtTreeSet.not_mem_empty

theorem nodup_toList (s : Names) : s.toList.Nodup := by
  apply List.Pairwise.imp _ ExtTreeSet.distinct_toList
  intro a b different same
  exact different (Std.compare_eq_iff_eq.mpr same)

/-! ### What the operations hold -/

theorem under_insertAt (m : ExtTreeMap String Names) (key x k y : String) :
    Under (insertAt m key x) k y ↔ (k = key ∧ y = x) ∨ Under m k y := by
  simp only [Under, insertAt, ExtTreeMap.getElem?_alter, Std.compare_eq_iff_eq]
  by_cases same : key = k
  · subst same
    simp only [if_true, Option.getD_some, ExtTreeSet.mem_insert, Std.compare_eq_iff_eq, true_and]
    exact or_congr_left eq_comm
  · simp [same, Ne.symm same]

theorem under_eraseAt (m : ExtTreeMap String Names) (key x k y : String) :
    Under (eraseAt m key x) k y ↔ Under m k y ∧ ¬ (k = key ∧ y = x) := by
  simp only [Under, eraseAt, ExtTreeMap.getElem?_alter, Std.compare_eq_iff_eq]
  by_cases same : key = k
  · subst same
    cases found : m[key]? with
    | none => simp
    | some s =>
      have erased : y ∈ s.erase x ↔ y ∈ s ∧ y ≠ x := by
        rw [ExtTreeSet.mem_erase, ne_eq, Std.compare_eq_iff_eq, and_comm, ← ne_eq, ne_comm]
      by_cases empty : (s.erase x).isEmpty
      · have gone : y ∉ s.erase x := by
          rw [ExtTreeSet.isEmpty_iff.mp empty]
          exact ExtTreeSet.not_mem_empty
        simp only [if_true, empty, Option.getD_none, Option.getD_some, true_and]
        exact iff_of_false ExtTreeSet.not_mem_empty (fun h => gone (erased.mpr h))
      · simpa [empty] using erased
  · simp [same, Ne.symm same]

theorem under_mergeAt (m : ExtTreeMap String Names) (key : String) (s : Names) (k y : String) :
    Under (mergeAt m key s) k y ↔ (k = key ∧ y ∈ s) ∨ Under m k y := by
  simp only [Under, mergeAt, ExtTreeMap.getElem?_alter, Std.compare_eq_iff_eq]
  by_cases same : key = k
  · subst same
    simp [mem_foldl_insert]
  · simp [same, Ne.symm same]

theorem under_erase (m : ExtTreeMap String Names) (key k y : String) :
    Under (m.erase key) k y ↔ k ≠ key ∧ Under m k y := by
  simp only [Under, ExtTreeMap.getElem?_erase, Std.compare_eq_iff_eq]
  by_cases same : key = k
  · simp [same]
  · simp [same, Ne.symm same]

/-! ### Tidy maps -/

theorem tidy_empty : Tidy ∅ := by
  intro key
  simp

theorem tidy_insertAt {m : ExtTreeMap String Names} (tidy : Tidy m) (key x : String) :
    Tidy (insertAt m key x) := by
  intro k
  rw [insertAt, ExtTreeMap.getElem?_alter]
  split
  · intro h
    exact ne_empty_of_mem (ExtTreeSet.mem_insert_self) (Option.some.inj h)
  · exact tidy k

theorem tidy_eraseAt {m : ExtTreeMap String Names} (tidy : Tidy m) (key x : String) :
    Tidy (eraseAt m key x) := by
  intro k
  rw [eraseAt, ExtTreeMap.getElem?_alter]
  split
  · split
    · simp
    · split
      · simp
      · rename_i s _ nonempty
        intro h
        exact nonempty (ExtTreeSet.isEmpty_iff.mpr (Option.some.inj h))
  · exact tidy k

theorem tidy_mergeAt {m : ExtTreeMap String Names} (tidy : Tidy m) (key : String) {s : Names}
    (nonempty : s ≠ ∅) : Tidy (mergeAt m key s) := by
  obtain ⟨x, member⟩ := exists_mem_of_ne_empty nonempty
  intro k
  rw [mergeAt, ExtTreeMap.getElem?_alter]
  split
  · intro h
    have merged := (mem_foldl_insert s (m[key]?.getD ∅) x).mpr (Or.inl member)
    exact ne_empty_of_mem merged (Option.some.inj h)
  · exact tidy k

theorem tidy_erase {m : ExtTreeMap String Names} (tidy : Tidy m) (key : String) :
    Tidy (m.erase key) := by
  intro k
  rw [ExtTreeMap.getElem?_erase]
  split
  · simp
  · exact tidy k

theorem Under.mem {m : ExtTreeMap String Names} {key x : String} (under : Under m key x) :
    key ∈ m := by
  rw [ExtTreeMap.mem_iff_isSome_getElem?]
  unfold Under at under
  cases found : m[key]? with
  | none => simp [found] at under
  | some s => rfl

theorem Tidy.mem_iff {m : ExtTreeMap String Names} (tidy : Tidy m) (key : String) :
    key ∈ m ↔ ∃ x, Under m key x := by
  constructor
  · intro present
    obtain ⟨s, found⟩ := Option.isSome_iff_exists.mp (ExtTreeMap.mem_iff_isSome_getElem?.mp present)
    have nonempty : s ≠ ∅ := fun empty => tidy key (empty ▸ found)
    obtain ⟨x, member⟩ := exists_mem_of_ne_empty nonempty
    exact ⟨x, by simpa [Under, found] using member⟩
  · rintro ⟨x, under⟩
    exact under.mem

/-- Tidy maps that hold the same are the same. -/
theorem Tidy.ext {m n : ExtTreeMap String Names} (tidyM : Tidy m) (tidyN : Tidy n)
    (same : ∀ key x, Under m key x ↔ Under n key x) : m = n := by
  apply ExtTreeMap.ext_getElem?
  intro key
  have keys : key ∈ m ↔ key ∈ n := by
    rw [tidyM.mem_iff, tidyN.mem_iff]
    exact exists_congr (same key)
  rw [ExtTreeMap.mem_iff_isSome_getElem?, ExtTreeMap.mem_iff_isSome_getElem?] at keys
  have sets : m[key]?.getD ∅ = n[key]?.getD ∅ := ExtTreeSet.ext_mem fun x => same key x
  cases inM : m[key]? <;> cases inN : n[key]? <;> simp_all

/-! ### Several keys at once -/

/-- Adds a member under each of some keys. -/
def insertAll (m : ExtTreeMap String Names) (keys : List String) (x : String) :
    ExtTreeMap String Names :=
  keys.foldl (fun m key => insertAt m key x) m

/-- Takes a member out under each of some keys. -/
def eraseAll (m : ExtTreeMap String Names) (keys : List String) (x : String) :
    ExtTreeMap String Names :=
  keys.foldl (fun m key => eraseAt m key x) m

/-- Adds what `source` holds under a key to `target`. -/
def moved (source target : ExtTreeMap String Names) (key : String) : ExtTreeMap String Names :=
  match source[key]? with
  | none => target
  | some members => mergeAt target key members

theorem under_insertAll (m : ExtTreeMap String Names) (keys : List String) (x k y : String) :
    Under (insertAll m keys x) k y ↔ (k ∈ keys ∧ y = x) ∨ Under m k y := by
  induction keys generalizing m with
  | nil => simp [insertAll]
  | cons key rest ih =>
    have step : insertAll m (key :: rest) x = insertAll (insertAt m key x) rest x := rfl
    rw [step, ih, under_insertAt, List.mem_cons]
    grind

theorem under_eraseAll (m : ExtTreeMap String Names) (keys : List String) (x k y : String) :
    Under (eraseAll m keys x) k y ↔ Under m k y ∧ ¬ (k ∈ keys ∧ y = x) := by
  induction keys generalizing m with
  | nil => simp [eraseAll]
  | cons key rest ih =>
    have step : eraseAll m (key :: rest) x = eraseAll (eraseAt m key x) rest x := rfl
    rw [step, ih, under_eraseAt, List.mem_cons]
    grind

theorem under_moved (source target : ExtTreeMap String Names) (key k y : String) :
    Under (moved source target key) k y ↔ (k = key ∧ Under source key y) ∨ Under target k y := by
  unfold moved
  split
  · rename_i absent
    simp [Under, absent]
  · rename_i members found
    rw [under_mergeAt]
    simp [Under, found]

theorem tidy_insertAll {m : ExtTreeMap String Names} (tidy : Tidy m) (keys : List String)
    (x : String) : Tidy (insertAll m keys x) := by
  induction keys generalizing m with
  | nil => exact tidy
  | cons key rest ih => exact ih (tidy_insertAt tidy key x)

theorem tidy_eraseAll {m : ExtTreeMap String Names} (tidy : Tidy m) (keys : List String)
    (x : String) : Tidy (eraseAll m keys x) := by
  induction keys generalizing m with
  | nil => exact tidy
  | cons key rest ih => exact ih (tidy_eraseAt tidy key x)

theorem tidy_moved {source target : ExtTreeMap String Names} (tidySource : Tidy source)
    (tidyTarget : Tidy target) (key : String) : Tidy (moved source target key) := by
  unfold moved
  split
  · exact tidyTarget
  · rename_i members found
    exact tidy_mergeAt tidyTarget key fun empty => tidySource key (empty ▸ found)

end ModelAtlas.Inheritance
