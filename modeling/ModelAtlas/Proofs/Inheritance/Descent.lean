import Mathlib.Order.Bounds.Defs
import ModelAtlas.Proofs.Inheritance.Preorder

/-!
# Descendants

Whatever has been added and removed before, `descendants` finds the least set that holds where it
starts from and every record that lists a parent in it. So something descends from a record exactly
if the record is in its lineage.
-/

namespace ModelAtlas.Inheritance

open Model Std

namespace Graph

theorem mem_descendants_iff (g : Graph) (ids : List String) (x : String) :
    x ∈ g.descendants ids ↔
      ∃ s ∈ ids, Relation.ReflTransGen (fun a b => b ∈ g.inheritors a) s x := by
  constructor
  · apply g.reach_induction
      (fun x => ∃ s ∈ ids, Relation.ReflTransGen (fun a b => b ∈ g.inheritors a) s x) ∅ ids
    · simp
    · intro s member
      exact ⟨s, member, .refl⟩
    · rintro p ⟨s, member, way⟩ c inherits
      exact ⟨s, member, way.tail inherits⟩
  · rintro ⟨s, member, way⟩
    induction way with
    | refl => exact g.mem_descendants_of_mem member
    | tail _ inherits ih => exact g.reach_closed ∅ ids (by simp) _ ih _ inherits

/-- The stack runs empty, and then the descendants have been visited. -/
theorem descendants_worked_off (g : Graph) (ids : List String) :
    ∃ n, let w := (Worklist.turn g.inheritors)^[n] { stack := ids }
      w.stack = [] ∧ w.visited = g.descendants ids ∧
        n = ids.length + ((g.descendants ids).toList.map fun id => (g.inheritors id).length).sum := by
  have silent : ∀ id, id ∉ g.bases → g.inheritors id = [] := fun _ => inheritors_eq_nil
  obtain ⟨n, done, spent⟩ := Worklist.exists_turns silent { stack := ids }
  have covers := Worklist.covers_iterate g.inheritors ids n
  have visited : ((Worklist.turn g.inheritors)^[n] { stack := ids }).visited = g.descendants ids := by
    apply ExtTreeSet.ext_mem
    intro x
    rw [covers.mem_visited_iff done, mem_descendants_iff]
  have listing : ((Worklist.turn g.inheritors)^[n] { stack := ids }).order.Perm
      (g.descendants ids).toList := by
    rw [List.perm_ext_iff_of_nodup covers.distinct (nodup_toList _)]
    intro x
    rw [covers.ordered, visited, ExtTreeSet.mem_toList]
  refine ⟨n, done, visited, ?_⟩
  have total := (listing.map fun id => (g.inheritors id).length).sum_nat
  simpa [Worklist.pushed, total] using spent

theorem Consistent.isLeast_descendants {g : Graph} (consistent : g.Consistent) (ids : List String) :
    IsLeast
      {s : Set String | (∀ id ∈ ids, id ∈ s) ∧
        ∀ c r, g.get? c = some r → (∃ p ∈ r.parents, p ∈ s) → c ∈ s}
      {x | x ∈ g.descendants ids} := by
  refine ⟨⟨fun id member => g.mem_descendants_of_mem member, ?_⟩, ?_⟩
  · rintro c r stored ⟨p, listed, reached⟩
    exact consistent.mem_descendants_of_lists reached ⟨r, stored, listed⟩
  · rintro s ⟨start, closed⟩
    apply g.reach_induction (· ∈ s) ∅ ids (by simp) start
    intro p inside c inherits
    obtain ⟨r, stored, listed⟩ := (consistent.mem_inheritors p c).mp inherits
    exact closed c r stored ⟨p, listed, inside⟩

theorem Consistent.mem_descendants_iff_mem_lineage {g : Graph} (consistent : g.Consistent)
    (x : String) {y : String} {r : ModelRecord} (stored : g.get? y = some r) :
    x ∈ g.descendants [y] ↔ r ∈ g.lineage x := by
  have inherits : (fun a b => b ∈ g.inheritors a) = Function.swap (Lists g.models) := by
    funext a b
    exact propext (consistent.mem_inheritors a b)
  rw [mem_descendants_iff, mem_lineage_iff, inherits]
  simp only [List.mem_singleton, exists_eq_left, Relation.reflTransGen_swap]
  constructor
  · intro way
    exact ⟨y, way, stored⟩
  · rintro ⟨z, way, also⟩
    have named := consistent.identified z r also
    rwa [← named, consistent.identified y r stored] at way

/-- Whatever a graph went through: the walk works off its stack in as many turns as there are entries
and edges, and finds the least set that is closed under inheritors, detached ones included. -/
theorem descendants_exact (changes : List Change) (ids : List String) :
    let g := Graph.run {} changes
    (∃ n, let w := (Worklist.turn g.inheritors)^[n] { stack := ids }
      w.stack = [] ∧ w.visited = g.descendants ids ∧
        n = ids.length + ((g.descendants ids).toList.map fun id => (g.inheritors id).length).sum) ∧
    IsLeast
      {s : Set String | (∀ id ∈ ids, id ∈ s) ∧
        ∀ c r, g.get? c = some r → (∃ p ∈ r.parents, p ∈ s) → c ∈ s}
      {x | x ∈ g.descendants ids} ∧
    ∀ x y rx ry, g.get? x = some rx → g.get? y = some ry →
      (x ∈ g.descendants [y] ↔ ry ∈ g.lineage x) := by
  intro g
  have consistent : g.Consistent := consistent_empty.run changes
  refine ⟨g.descendants_worked_off ids, consistent.isLeast_descendants ids, ?_⟩
  intro x y _ ry _ stored
  exact consistent.mem_descendants_iff_mem_lineage x stored

end Graph

end ModelAtlas.Inheritance
