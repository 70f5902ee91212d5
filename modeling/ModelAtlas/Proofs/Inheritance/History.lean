import ModelAtlas.Proofs.Inheritance.Ownership

/-!
# Histories

A graph is what a list of changes has made of the empty one. Whatever the changes, its six maps agree.
-/

namespace ModelAtlas.Inheritance

open Model Std

/-- One change of a graph. -/
inductive Change where
  | add (record : ModelRecord)
  | remove (id : String)
  | removeFile (path : String)

namespace Graph

def apply (g : Graph) : Change → Graph
  | .add record => g.add record
  | .remove id => g.remove id
  | .removeFile path => (g.removeFile path).2

/-- The graph after some changes, the first one first. -/
def run (g : Graph) (changes : List Change) : Graph := changes.foldl apply g

theorem Consistent.apply {g : Graph} (consistent : g.Consistent) (change : Change) :
    (g.apply change).Consistent := by
  cases change with
  | add record => exact consistent.add record
  | remove id => exact consistent.remove id
  | removeFile path => exact consistent.removeFile path

theorem Consistent.run {g : Graph} (consistent : g.Consistent) (changes : List Change) :
    (g.run changes).Consistent := by
  induction changes generalizing g with
  | nil => exact consistent
  | cons change rest ih => exact ih (consistent.apply change)

theorem Consistent.mem_startingWith {g : Graph} (consistent : g.Consistent) (head id : String) :
    id ∈ g.startingWith head ↔ id ∈ g.models ∧ head.toList <+: id.toList := by
  rw [startingWith, List.mem_filter, ExtTreeSet.mem_toList, consistent.names, Text.startsWith,
    List.isPrefixOf_iff_prefix]

theorem nodup_startingWith (g : Graph) (head : String) : (g.startingWith head).Nodup :=
  (nodup_toList g.names).filter _

/-- After any history: records stand under their own identifier; `parents` holds exactly their parent
lists; each parent that is listed has the child in exactly one of `children` and `detached`, which
hold nothing else; no identifier is a key of both, none that is stored is detached, and no set is
empty; files own exactly the records in them; and identifiers are found by how they start. -/
theorem maps_agree_after_run (changes : List Change) :
    let g := Graph.run {} changes
    (∀ (id : String) (r : ModelRecord), g.models[id]? = some r → r.identifier = id) ∧
    (∀ id : String, g.parents[id]? = g.models[id]?.map ModelRecord.parents) ∧
    (∀ (c : String) (r : ModelRecord), g.models[c]? = some r → ∀ p ∈ r.parents,
      (Under g.children p c ↔ ¬ Under g.detached p c)) ∧
    (∀ p c, Under g.children p c ∨ Under g.detached p c →
      ∃ r, g.models[c]? = some r ∧ p ∈ r.parents) ∧
    (∀ p, ¬ (p ∈ g.children ∧ p ∈ g.detached)) ∧
    (∀ p ∈ g.detached, p ∉ g.models) ∧
    (∀ key : String, g.children[key]? ≠ some ∅ ∧ g.detached[key]? ≠ some ∅ ∧ g.byFile[key]? ≠ some ∅) ∧
    (∀ path id, Under g.byFile path id ↔ ∃ r, g.models[id]? = some r ∧ r.path = path) ∧
    (∀ id, id ∈ g.names ↔ id ∈ g.models) ∧
    (∀ head, (g.startingWith head).Nodup ∧
      ∀ id, id ∈ g.startingWith head ↔ id ∈ g.models ∧ head.toList <+: id.toList) := by
  intro g
  have consistent : g.Consistent := consistent_empty.run changes
  refine ⟨consistent.identified, consistent.parents, ?_, ?_, ?_, consistent.absent, ?_,
    consistent.byFile, consistent.names, fun head =>
      ⟨g.nodup_startingWith head, consistent.mem_startingWith head⟩⟩
  · intro c r stored p listed
    have lists : Lists g.models c p := ⟨r, stored, listed⟩
    rw [consistent.children, consistent.detached]
    simp [lists]
  · rintro p c (under | under)
    · exact ((consistent.children p c).mp under).1
    · exact ((consistent.detached p c).mp under).1
  · rintro p ⟨attached, detached⟩
    obtain ⟨c, under⟩ := (consistent.tidyChildren.mem_iff p).mp attached
    exact ((consistent.children p c).mp under).2 detached
  · exact fun key =>
      ⟨consistent.tidyChildren key, consistent.tidyDetached key, consistent.tidyFiles key⟩

end Graph

end ModelAtlas.Inheritance
