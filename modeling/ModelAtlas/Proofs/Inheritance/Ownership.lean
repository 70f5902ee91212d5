import ModelAtlas.Proofs.Inheritance.Consistency

/-!
# Files and their records

A file owns the records that lie in it. `removeFile` removes exactly these, one after the other
(`removeFile_eq`). Of records added with one identifier the last one stays.
-/

namespace ModelAtlas.Inheritance

open Model Std

/-- The last of some records with an identifier. -/
def lastNamed (records : List ModelRecord) (id : String) : Option ModelRecord :=
  records.reverse.find? (·.identifier == id)

theorem lastNamed_cons (r : ModelRecord) (rest : List ModelRecord) (id : String) :
    lastNamed (r :: rest) id =
      (lastNamed rest id).or (if r.identifier = id then some r else none) := by
  simp only [lastNamed, List.reverse_cons, List.find?_append, List.find?_singleton, beq_iff_eq]

theorem mem_of_lastNamed {records : List ModelRecord} {id : String} {r : ModelRecord}
    (last : lastNamed records id = some r) : r ∈ records ∧ r.identifier = id := by
  have member := List.mem_of_find?_eq_some last
  have named := List.find?_some last
  exact ⟨List.mem_reverse.mp member, beq_iff_eq.mp named⟩

theorem lastNamed_eq_none_iff {records : List ModelRecord} {id : String} :
    lastNamed records id = none ↔ ∀ r ∈ records, r.identifier ≠ id := by
  simp [lastNamed]

namespace Graph

/-- The identifiers that a file owns. -/
def owned (g : Graph) (path : String) : List String := (g.byFile[path]?.getD ∅).toList

theorem Consistent.mem_owned {g : Graph} (consistent : g.Consistent) (path id : String) :
    id ∈ g.owned path ↔ ∃ r, g.models[id]? = some r ∧ r.path = path := by
  rw [owned, ExtTreeSet.mem_toList]
  exact consistent.byFile path id

/-! ### Removing one after the other -/

theorem Consistent.foldl_remove {g : Graph} (consistent : g.Consistent) (ids : List String) :
    (ids.foldl Graph.remove g).Consistent := by
  induction ids generalizing g with
  | nil => exact consistent
  | cons id rest ih => exact ih (consistent.remove id)

theorem getElem?_models_remove (g : Graph) (id k : String) :
    (g.remove id).models[k]? = if id = k then none else g.models[k]? := by
  simp only [models_remove, ExtTreeMap.getElem?_erase, Std.compare_eq_iff_eq]

theorem getElem?_models_foldl_remove (g : Graph) (ids : List String) (k : String) :
    (ids.foldl Graph.remove g).models[k]? = if k ∈ ids then none else g.models[k]? := by
  induction ids generalizing g with
  | nil => simp
  | cons id rest ih =>
    rw [List.foldl_cons, ih, getElem?_models_remove]
    grind

/-- An identifier is detached after some removals if it was before or is one of those removed, and
a record that is left lists it. -/
theorem Consistent.mem_detached_foldl_remove {g : Graph} (consistent : g.Consistent)
    (ids : List String) (p : String) :
    p ∈ (ids.foldl Graph.remove g).detached ↔
      (p ∈ g.detached ∨ (p ∈ ids ∧ p ∈ g.models)) ∧ ∃ c, c ∉ ids ∧ Lists g.models c p := by
  induction ids generalizing g with
  | nil =>
    have listed := consistent.lists_of_mem_detached (p := p)
    simpa using listed
  | cons id rest ih =>
    rw [List.foldl_cons, ih (consistent.remove id)]
    cases stored : g.models[id]? with
    | none =>
      have unlisted : ∀ c, Lists g.models c p → c ≠ id := by
        rintro c ⟨r, found, _⟩ rfl
        rw [stored] at found
        cases found
      have absent : id ∉ g.models := by simp [mem_iff_getElem?_isSome, stored]
      rw [remove_of_absent stored]
      grind
    | some r =>
      have present : id ∈ g.models := (mem_iff_getElem?_isSome _ _).mpr ⟨r, stored⟩
      rw [consistent.mem_detached_remove stored, models_remove]
      simp only [lists_erase, ExtTreeMap.mem_erase, ne_eq, Std.compare_eq_iff_eq]
      grind

/-! ### Removing a file -/

theorem eraseAt_erase (m : ExtTreeMap String Names) (key x : String) :
    eraseAt (m.erase key) key x = (eraseAt m key x).erase key := by
  apply ExtTreeMap.ext_getElem?
  intro k
  simp only [eraseAt, ExtTreeMap.getElem?_alter, ExtTreeMap.getElem?_erase, compare_self, if_true]
  split <;> rfl

/-- A graph that has forgotten what a file owns. -/
def withoutFile (g : Graph) (path : String) : Graph := { g with byFile := g.byFile.erase path }

theorem Consistent.remove_withoutFile {g : Graph} (consistent : g.Consistent) {path id : String}
    {r : ModelRecord} (stored : g.models[id]? = some r) (located : r.path = path) :
    (g.withoutFile path).remove id = (g.remove id).withoutFile path := by
  have listed := consistent.parents_of_stored stored
  have forgotten := remove_eq (g := g.withoutFile path) stored listed
  rw [forgotten, remove_eq stored listed, located]
  simp only [withoutFile, eraseAt_erase]

theorem Consistent.removeOwned_eq {g : Graph} (consistent : g.Consistent) {path : String}
    {ids : List String} (distinct : ids.Nodup)
    (located : ∀ id ∈ ids, ∃ r, g.models[id]? = some r ∧ r.path = path) :
    removeOwned path (g.withoutFile path) ids =
      (ids, (ids.foldl Graph.remove g).withoutFile path) := by
  induction ids generalizing g with
  | nil => rfl
  | cons id rest ih =>
    obtain ⟨r, stored, here⟩ := located id List.mem_cons_self
    have left : ∀ k ∈ rest, ∃ x, (g.remove id).models[k]? = some x ∧ x.path = path := by
      intro k member
      obtain ⟨x, found, there⟩ := located k (List.mem_cons_of_mem _ member)
      have different : id ≠ k := fun same => (List.nodup_cons.mp distinct).1 (same ▸ member)
      exact ⟨x, by rw [getElem?_models_remove, if_neg different, found], there⟩
    have known : (g.withoutFile path).models[id]? = some r := stored
    rw [removeOwned, known]
    simp only [here, if_true]
    rw [consistent.remove_withoutFile stored here,
      ih (consistent.remove id) (List.nodup_cons.mp distinct).2 left]
    rfl

/-- Removing a file is removing what it owns, one after the other. -/
theorem Consistent.removeFile_eq {g : Graph} (consistent : g.Consistent) (path : String) :
    g.removeFile path = (g.owned path, (g.owned path).foldl Graph.remove g) := by
  unfold removeFile
  cases found : g.byFile[path]? with
  | none =>
    have nothing : g.owned path = [] := by simp [owned, found, ExtTreeSet.toList_eq_nil_iff]
    rw [nothing]
    rfl
  | some ids =>
    have same : ids.toList = g.owned path := by simp [owned, found]
    have located : ∀ id ∈ g.owned path, ∃ r, g.models[id]? = some r ∧ r.path = path :=
      fun id member => (consistent.mem_owned path id).mp member
    have after := consistent.foldl_remove (g.owned path)
    -- nothing is left in the file, so its key is gone already
    have gone : path ∉ ((g.owned path).foldl Graph.remove g).byFile := by
      rw [after.tidyFiles.mem_iff]
      rintro ⟨id, under⟩
      obtain ⟨r, stored, here⟩ := (after.byFile path id).mp under
      rw [getElem?_models_foldl_remove] at stored
      split at stored
      · cases stored
      · rename_i kept
        exact kept ((consistent.mem_owned path id).mpr ⟨r, stored, here⟩)
    calc removeOwned path (g.withoutFile path) ids.toList
        = (g.owned path, ((g.owned path).foldl Graph.remove g).withoutFile path) := by
          rw [same]
          exact consistent.removeOwned_eq (nodup_toList _) located
      _ = (g.owned path, (g.owned path).foldl Graph.remove g) := by
          rw [withoutFile, erase_eq_self (ExtTreeMap.getElem?_eq_none gone)]

theorem Consistent.removeFile {g : Graph} (consistent : g.Consistent) (path : String) :
    (g.removeFile path).2.Consistent := by
  rw [consistent.removeFile_eq]
  exact consistent.foldl_remove _

theorem Consistent.getElem?_models_removeFile {g : Graph} (consistent : g.Consistent)
    (path id : String) :
    (g.removeFile path).2.models[id]? = (g.models[id]?).filter (fun r => r.path ≠ path) := by
  rw [consistent.removeFile_eq, getElem?_models_foldl_remove]
  have owns := consistent.mem_owned path id
  cases stored : g.models[id]? with
  | none => simp
  | some r =>
    by_cases here : r.path = path
    · have member : id ∈ g.owned path := owns.mpr ⟨r, stored, here⟩
      simp [member, here, Option.filter]
    · have foreign : id ∉ g.owned path := by
        intro member
        obtain ⟨x, found, there⟩ := owns.mp member
        rw [stored] at found
        exact here (Option.some.inj found ▸ there)
      simp [foreign, here, Option.filter]

/-! ### Adding several records -/

theorem Consistent.addAll {g : Graph} (consistent : g.Consistent) (records : List ModelRecord) :
    (g.addAll records).Consistent := by
  induction records generalizing g with
  | nil => exact consistent
  | cons r rest ih => exact ih (consistent.add r)

theorem getElem?_models_add (g : Graph) (r : ModelRecord) (k : String) :
    (g.add r).models[k]? = if r.identifier = k then some r else g.models[k]? := by
  simp only [models_add, ExtTreeMap.getElem?_insert, Std.compare_eq_iff_eq]

theorem getElem?_models_addAll (g : Graph) (records : List ModelRecord) (id : String) :
    (g.addAll records).models[id]? = (lastNamed records id).or g.models[id]? := by
  induction records generalizing g with
  | nil => rfl
  | cons r rest ih =>
    have step : g.addAll (r :: rest) = (g.add r).addAll rest := rfl
    rw [step, ih, getElem?_models_add, lastNamed_cons]
    cases lastNamed rest id with
    | some x => rfl
    | none =>
      rw [Option.none_or, Option.none_or]
      split <;> rfl

end Graph

end ModelAtlas.Inheritance
