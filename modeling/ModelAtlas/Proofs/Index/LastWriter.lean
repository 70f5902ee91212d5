import Mathlib.Data.List.Induction
import ModelAtlas.Proofs.Index.Commit

/-!
# The last writer

A file is updated by committing all that it declares. Whatever files are updated in whatever order, an
identifier belongs to the file that declared it last, until that file is updated without it.
-/

namespace ModelAtlas.Index

open Inheritance Model Std

/-- What an update finds in a file. -/
structure FileUpdate where
  path : String
  records : List ModelRecord
  located : ∀ r ∈ records, r.path = path

namespace FileUpdate

def Declares (u : FileUpdate) (id : String) : Prop := ∃ r ∈ u.records, r.identifier = id

theorem lastNamed_eq_none (u : FileUpdate) (id : String) :
    lastNamed u.records id = none ↔ ¬ u.Declares id := by
  rw [lastNamed_eq_none_iff, Declares]
  constructor
  · rintro unnamed ⟨r, member, named⟩
    exact unnamed r member named
  · intro undeclared r member named
    exact undeclared ⟨r, member, named⟩

theorem path_of_lastNamed {u : FileUpdate} {id : String} {r : ModelRecord}
    (last : lastNamed u.records id = some r) : r.path = u.path :=
  u.located r (mem_of_lastNamed last).1

/-- The graph after some updates, the first one first. -/
def commitAll (g : Graph) (updates : List FileUpdate) : Graph :=
  updates.foldl (fun g u => (commit g u.path u.records).2) g

theorem commitAll_concat (g : Graph) (updates : List FileUpdate) (u : FileUpdate) :
    commitAll g (updates ++ [u]) = (commit (commitAll g updates) u.path u.records).2 := by
  rw [commitAll, List.foldl_append]
  rfl

theorem commitAll_consistent {g : Graph} (consistent : g.Consistent) (updates : List FileUpdate) :
    (commitAll g updates).Consistent := by
  induction updates generalizing g with
  | nil => exact consistent
  | cons u rest ih => exact ih (commit_consistent consistent u.path u.records)

/-- `u` is the last of some updates to declare an identifier, and its file is not updated after it. -/
def Owns (updates : List FileUpdate) (id : String) (u : FileUpdate) : Prop :=
  ∃ before after, updates = before ++ u :: after ∧ u.Declares id ∧
    ∀ v ∈ after, ¬ v.Declares id ∧ v.path ≠ u.path

theorem owns_concat (updates : List FileUpdate) (id : String) (u v : FileUpdate) :
    Owns (updates ++ [v]) id u ↔
      (u = v ∧ v.Declares id) ∨ (Owns updates id u ∧ ¬ v.Declares id ∧ v.path ≠ u.path) := by
  constructor
  · rintro ⟨before, after, split, declares, left⟩
    rcases List.eq_nil_or_concat after with rfl | ⟨front, w, rfl⟩
    · obtain ⟨_, same⟩ := List.append_inj' split rfl
      obtain rfl : v = u := by simpa using same
      exact Or.inl ⟨rfl, declares⟩
    · rw [List.concat_eq_append] at split left
      rw [← List.cons_append, ← List.append_assoc] at split
      obtain ⟨rfl, last⟩ := List.append_inj' split rfl
      obtain rfl : v = w := by simpa using last
      refine Or.inr ⟨⟨before, front, rfl, declares, ?_⟩, left v (by simp)⟩
      intro x member
      exact left x (List.mem_append_left _ member)
  · rintro (⟨rfl, declares⟩ | ⟨⟨before, after, rfl, declares, left⟩, undeclared, elsewhere⟩)
    · exact ⟨updates, [], rfl, declares, by simp⟩
    · refine ⟨before, after ++ [v], by simp, declares, ?_⟩
      intro x member
      rcases List.mem_append.mp member with earlier | last
      · exact left x earlier
      · rw [List.mem_singleton.mp last]
        exact ⟨undeclared, elsewhere⟩

/-- What is stored is what the last writer declared last. -/
theorem models_commitAll (updates : List FileUpdate) (id : String) (r : ModelRecord) :
    (commitAll {} updates).models[id]? = some r ↔
      ∃ u, Owns updates id u ∧ lastNamed u.records id = some r := by
  induction updates using List.reverseRecOn with
  | nil => simp [commitAll, Owns]
  | append_singleton rest v ih =>
    have consistent := commitAll_consistent Graph.consistent_empty rest
    rw [commitAll_concat, models_commit_eq_some consistent, ih]
    simp only [owns_concat]
    constructor
    · rintro (last | ⟨unnamed, ⟨u, owns, last⟩, elsewhere⟩)
      · obtain ⟨member, named⟩ := mem_of_lastNamed last
        exact ⟨v, Or.inl ⟨rfl, r, member, named⟩, last⟩
      · rw [path_of_lastNamed last] at elsewhere
        exact ⟨u, Or.inr ⟨owns, (v.lastNamed_eq_none id).mp unnamed, elsewhere.symm⟩, last⟩
    · rintro ⟨u, ⟨rfl, _⟩ | ⟨owns, undeclared, elsewhere⟩, last⟩
      · exact Or.inl last
      · refine Or.inr ⟨(v.lastNamed_eq_none id).mpr undeclared, ⟨u, owns, last⟩, ?_⟩
        rw [path_of_lastNamed last]
        exact elsewhere.symm

theorem Owns.lastNamed {updates : List FileUpdate} {id : String} {u : FileUpdate}
    (owns : Owns updates id u) : ∃ r, lastNamed u.records id = some r := by
  obtain ⟨_, _, _, declares, _⟩ := owns
  apply Option.ne_none_iff_exists'.mp
  intro unnamed
  exact (u.lastNamed_eq_none id).mp unnamed declares

/-- An update reports what its file owned before and what it declares now. -/
theorem mem_commit_reports {g : Graph} (consistent : g.Consistent) (u : FileUpdate) (id : String) :
    id ∈ (commit g u.path u.records).1 ↔ id ∈ g.owned u.path ∨ u.Declares id := by
  rw [commit_reports consistent, List.mem_append, List.mem_map]
  rfl

/-- After any updates, exactly those identifiers are stored whose last writer has not been updated
since, each with the last record that the writer has for it, and they belong to the writer's file.
One more update reports what its file owned or declares, and with that every record it changes. -/
theorem stored_by_last_writer (updates : List FileUpdate) :
    let g := commitAll {} updates
    (∀ id, (g.get? id).isSome ↔ ∃ u, Owns updates id u) ∧
    (∀ id u, Owns updates id u → g.get? id = lastNamed u.records id) ∧
    (∀ path id, id ∈ g.owned path ↔ ∃ u, Owns updates id u ∧ u.path = path) ∧
    ∀ u : FileUpdate,
      let (changed, h) := commit g u.path u.records
      (∀ id, h.get? id ≠ g.get? id → id ∈ changed) ∧
      ∀ id, id ∈ changed ↔ id ∈ g.owned u.path ∨ u.Declares id := by
  intro g
  have consistent : g.Consistent := commitAll_consistent Graph.consistent_empty updates
  have stored := models_commitAll updates
  refine ⟨?_, ?_, ?_, ?_⟩
  · intro id
    rw [Option.isSome_iff_exists]
    constructor
    · rintro ⟨r, found⟩
      obtain ⟨u, owns, _⟩ := (stored id r).mp found
      exact ⟨u, owns⟩
    · rintro ⟨u, owns⟩
      obtain ⟨r, last⟩ := owns.lastNamed
      exact ⟨r, (stored id r).mpr ⟨u, owns, last⟩⟩
  · intro id u owns
    obtain ⟨r, last⟩ := owns.lastNamed
    rw [last]
    exact (stored id r).mpr ⟨u, owns, last⟩
  · intro path id
    rw [consistent.mem_owned]
    constructor
    · rintro ⟨r, found, here⟩
      obtain ⟨u, owns, last⟩ := (stored id r).mp found
      exact ⟨u, owns, (path_of_lastNamed last).symm.trans here⟩
    · rintro ⟨u, owns, here⟩
      obtain ⟨r, last⟩ := owns.lastNamed
      exact ⟨r, (stored id r).mpr ⟨u, owns, last⟩, (path_of_lastNamed last).trans here⟩
  · intro u
    refine ⟨?_, mem_commit_reports consistent u⟩
    intro id differs
    apply Classical.byContradiction
    intro unreported
    exact differs (getElem?_models_commit_of_not_mem consistent unreported)

end FileUpdate

end ModelAtlas.Index
