import Mathlib.Data.List.Induction
import ModelAtlas.Proofs.Inheritance.History

/-!
# The order of removals

The records of a file are removed one after the other, while edges between them move from children to
detached children and disappear. A set of identifiers has no order of its own; whatever order they are
removed in, the same graph is left (`Consistent.removeFileAlong_eq`). So histories that go through
files in any order lead to no other graphs (`reached_iff_run`).
-/

namespace ModelAtlas.Inheritance

open Model Std

namespace Graph

/-- Removes a file whose identifiers are gone through in the order of a list. -/
def removeFileAlong (g : Graph) (path : String) (ids : List String) : List String × Graph :=
  removeOwned path (g.withoutFile path) ids

/-- The graphs that changes make of the empty one, whatever order a file is removed in. -/
inductive Reached : Graph → Prop
  | empty : Reached {}
  | add {g : Graph} (record : ModelRecord) : Reached g → Reached (g.add record)
  | remove {g : Graph} (id : String) : Reached g → Reached (g.remove id)
  | removeFile {g : Graph} {path : String} {ids : List String} :
      Reached g → ids.Perm (g.owned path) → Reached (g.removeFileAlong path ids).2

section

variable {g : Graph} {path : String} {ids others : List String}

theorem Consistent.foldl_remove_perm (consistent : g.Consistent) (perm : ids.Perm others) :
    ids.foldl Graph.remove g = others.foldl Graph.remove g := by
  apply (consistent.foldl_remove ids).ext (consistent.foldl_remove others)
  · apply ExtTreeMap.ext_getElem?
    intro id
    simp only [getElem?_models_foldl_remove, perm.mem_iff]
  · intro p
    simp only [consistent.mem_detached_foldl_remove, perm.mem_iff]

theorem Consistent.not_mem_byFile_removeFile (consistent : g.Consistent) (path : String) :
    path ∉ (g.removeFile path).2.byFile := by
  have after := consistent.removeFile path
  rw [after.tidyFiles.mem_iff]
  rintro ⟨id, under⟩
  obtain ⟨r, stored, here⟩ := (after.byFile path id).mp under
  rw [consistent.getElem?_models_removeFile, Option.filter_eq_some_iff, decide_eq_true_iff] at stored
  exact stored.2 here

/-- In whatever order a file is removed, what is removed is what it owns, and what is left is left. -/
theorem Consistent.removeFileAlong_eq (consistent : g.Consistent)
    (order : ids.Perm (g.owned path)) :
    g.removeFileAlong path ids = (ids, (g.removeFile path).2) := by
  have distinct : ids.Nodup := order.nodup_iff.mpr (nodup_toList _)
  have located : ∀ id ∈ ids, ∃ r, g.models[id]? = some r ∧ r.path = path :=
    fun id member => (consistent.mem_owned path id).mp (order.mem_iff.mp member)
  have left : ids.foldl Graph.remove g = (g.removeFile path).2 := by
    rw [consistent.foldl_remove_perm order, consistent.removeFile_eq]
  have forgotten : (g.removeFile path).2.withoutFile path = (g.removeFile path).2 := by
    rw [withoutFile,
      erase_eq_self (ExtTreeMap.getElem?_eq_none (consistent.not_mem_byFile_removeFile path))]
  calc g.removeFileAlong path ids
      = (ids, (ids.foldl Graph.remove g).withoutFile path) :=
        consistent.removeOwned_eq distinct located
    _ = (ids, (g.removeFile path).2) := by rw [left, forgotten]

end

/-! ### Histories -/

theorem Reached.consistent {g : Graph} (reached : Reached g) : g.Consistent := by
  induction reached with
  | empty => exact consistent_empty
  | add record _ before => exact before.add record
  | remove id _ before => exact before.remove id
  | removeFile _ order before =>
    rw [before.removeFileAlong_eq order]
    exact before.removeFile _

theorem Reached.apply {g : Graph} (reached : Reached g) (change : Change) :
    Reached (g.apply change) := by
  cases change with
  | add record => exact reached.add record
  | remove id => exact reached.remove id
  | removeFile path =>
    have ordered := reached.removeFile (List.Perm.refl (g.owned path))
    rwa [reached.consistent.removeFileAlong_eq (List.Perm.refl _)] at ordered

theorem reached_run (changes : List Change) : Reached (Graph.run {} changes) := by
  induction changes using List.reverseRecOn with
  | nil => exact .empty
  | append_singleton changes change before =>
    rw [run, List.foldl_append]
    exact before.apply change

/-- Orders of removal lead to no graph that is not reached without them. -/
theorem reached_iff_run (g : Graph) : Reached g ↔ ∃ changes, g = Graph.run {} changes := by
  constructor
  · intro reached
    have onward {changes : List Change} (change : Change) :
        ∃ longer, (Graph.run {} changes).apply change = Graph.run {} longer :=
      ⟨changes ++ [change], by rw [run, run, List.foldl_append]; rfl⟩
    induction reached with
    | empty => exact ⟨[], rfl⟩
    | add record _ before =>
      obtain ⟨changes, rfl⟩ := before
      exact onward (.add record)
    | remove id _ before =>
      obtain ⟨changes, rfl⟩ := before
      exact onward (.remove id)
    | removeFile reached order before =>
      rw [reached.consistent.removeFileAlong_eq order]
      obtain ⟨changes, rfl⟩ := before
      exact onward (.removeFile _)
  · rintro ⟨changes, rfl⟩
    exact reached_run changes

/-- A file of a graph with any history may be removed in any two orders: all six maps come out the
same, and as `removeFile` leaves them; just the identifiers whose record lay in the file are removed,
and all other records stay. -/
theorem removal_order_unseen {g : Graph} (reached : Reached g) (path : String)
    {ids others : List String} (order : ids.Perm (g.owned path))
    (other : others.Perm (g.owned path)) :
    let (removed, left) := g.removeFileAlong path ids
    let (removedToo, leftToo) := g.removeFileAlong path others
    left = leftToo ∧ left = (g.removeFile path).2 ∧ removed.Perm removedToo ∧ removed.Nodup ∧
    (∀ id, id ∈ removed ↔ ∃ r, g.models[id]? = some r ∧ r.path = path) ∧
    ∀ (id : String) (r : ModelRecord),
      left.models[id]? = some r ↔ g.models[id]? = some r ∧ r.path ≠ path := by
  have consistent := reached.consistent
  rw [consistent.removeFileAlong_eq order, consistent.removeFileAlong_eq other]
  refine ⟨rfl, rfl, order.trans other.symm, order.nodup_iff.mpr (nodup_toList _), ?_, ?_⟩
  · intro id
    rw [order.mem_iff, consistent.mem_owned]
  · intro id r
    rw [consistent.getElem?_models_removeFile, Option.filter_eq_some_iff, decide_eq_true_iff]

/-- Two records that inherit from each other, and a third elsewhere that inherits from both. -/
theorem circle_removed_in_two_orders :
    let g := Graph.run {} [.add (.bare "a" ["b"] "ab.py" "A" .regular),
      .add (.bare "b" ["a"] "ab.py" "B" .regular), .add (.bare "c" ["a", "b"] "c.py" "C" .regular)]
    Reached g ∧ ["a", "b"].Perm (g.owned "ab.py") ∧ ["b", "a"].Perm (g.owned "ab.py") ∧
      (g.removeFileAlong "ab.py" ["a", "b"]).2 = (g.removeFileAlong "ab.py" ["b", "a"]).2 ∧
      Under (g.removeFileAlong "ab.py" ["b", "a"]).2.detached "a" "c" :=
  ⟨reached_run _, by decide, by decide,
    (removal_order_unseen (reached_run _) "ab.py" (by decide) (by decide)).1, by decide⟩

end Graph

end ModelAtlas.Inheritance
