import ModelAtlas.Index.ModelIndex
import ModelAtlas.Proofs.Inheritance.History
import ModelAtlas.Proofs.Inheritance.Reachability

/-!
# Commits

A commit puts the records of a file in place of those the file owned. All other records stay, so it
changes no lineage but those of the descendants of what it reports.
-/

namespace ModelAtlas.Index

open Inheritance Model Std

theorem commit_consistent {g : Graph} (consistent : g.Consistent) (path : String)
    (records : List ModelRecord) : (commit g path records).2.Consistent :=
  (consistent.removeFile path).addAll records

theorem getElem?_models_commit {g : Graph} (consistent : g.Consistent) (path : String)
    (records : List ModelRecord) (id : String) :
    (commit g path records).2.models[id]? =
      (lastNamed records id).or ((g.models[id]?).filter (fun r => r.path ≠ path)) := by
  rw [← consistent.getElem?_models_removeFile]
  exact Graph.getElem?_models_addAll _ records id

theorem get?_commit_empty (path : String) (records : List ModelRecord) (id : String) :
    (commit {} path records).2.get? id = lastNamed records id := by
  refine (getElem?_models_commit Graph.consistent_empty path records id).trans ?_
  simp

theorem models_commit_eq_some {g : Graph} (consistent : g.Consistent) {path : String}
    {records : List ModelRecord} {id : String} {r : ModelRecord} :
    (commit g path records).2.models[id]? = some r ↔
      lastNamed records id = some r ∨
        lastNamed records id = none ∧ g.models[id]? = some r ∧ r.path ≠ path := by
  rw [getElem?_models_commit consistent, Option.or_eq_some_iff, Option.filter_eq_some_iff,
    decide_eq_true_iff]

theorem commit_reports {g : Graph} (consistent : g.Consistent) (path : String)
    (records : List ModelRecord) :
    (commit g path records).1 = g.owned path ++ records.map (·.identifier) := by
  unfold commit
  rw [consistent.removeFile_eq]

/-- What a commit does not report it leaves alone. -/
theorem getElem?_models_commit_of_not_mem {g : Graph} (consistent : g.Consistent) {path : String}
    {records : List ModelRecord} {id : String} (unreported : id ∉ (commit g path records).1) :
    (commit g path records).2.models[id]? = g.models[id]? := by
  rw [commit_reports consistent, List.mem_append, not_or, consistent.mem_owned] at unreported
  obtain ⟨foreign, undeclared⟩ := unreported
  have unnamed : lastNamed records id = none := by
    rw [lastNamed_eq_none_iff]
    intro r member same
    exact undeclared (List.mem_map.mpr ⟨r, member, same⟩)
  rw [getElem?_models_commit consistent, unnamed, Option.none_or]
  cases stored : g.models[id]? with
  | none => rfl
  | some r =>
    have elsewhere : r.path ≠ path := fun here => foreign ⟨r, stored, here⟩
    simp [Option.filter, elsewhere]

/-! ### Scanning a file again -/

theorem mem_detached_addAll {g : Graph} (consistent : g.Consistent) {records : List ModelRecord}
    (distinct : (records.map (·.identifier)).Nodup)
    (fresh : ∀ r ∈ records, r.identifier ∉ g.models) (p : String) :
    p ∈ (g.addAll records).detached ↔ p ∈ g.detached ∧ ∀ r ∈ records, p ≠ r.identifier := by
  induction records generalizing g with
  | nil => simp [Graph.addAll]
  | cons r rest ih =>
    rw [List.map_cons, List.nodup_cons] at distinct
    have new := fresh r List.mem_cons_self
    have later : ∀ x ∈ rest, x.identifier ∉ (g.add r).models := by
      intro x member
      rw [Graph.models_add, ExtTreeMap.mem_insert, Std.compare_eq_iff_eq]
      rintro (same | present)
      · exact distinct.1 (same ▸ List.mem_map_of_mem member)
      · exact fresh x (List.mem_cons_of_mem _ member) present
    have step : g.addAll (r :: rest) = (g.add r).addAll rest := rfl
    rw [step, ih (consistent.add r) distinct.2 later, consistent.mem_detached_add_fresh new,
      List.forall_mem_cons, and_assoc]

/-- `p` has been removed, and only records of the file at `path` list it since. -/
def Forgotten (g : Graph) (path p : String) : Prop :=
  p ∈ g.detached ∧ ∀ c ∈ g.inheritors p, c ∈ g.owned path

instance (g : Graph) (path p : String) : Decidable (Forgotten g path p) :=
  inferInstanceAs (Decidable (_ ∧ _))

section Rescan

variable {g : Graph} {path : String} {records : List ModelRecord}

theorem models_rescan (consistent : g.Consistent)
    (listing : ∀ r, r ∈ records ↔ g.models[r.identifier]? = some r ∧ r.path = path) :
    (commit g path records).2.models = g.models := by
  apply ExtTreeMap.ext_getElem?
  intro id
  rw [getElem?_models_commit consistent]
  cases last : lastNamed records id with
  | some r =>
    obtain ⟨member, named⟩ := mem_of_lastNamed last
    rw [Option.some_or, ← named]
    exact (((listing r).mp member).1).symm
  | none =>
    rw [Option.none_or]
    cases stored : g.models[id]? with
    | none => rfl
    | some r =>
      have named := consistent.identified id r stored
      have elsewhere : r.path ≠ path := by
        intro here
        have member := (listing r).mpr ⟨by rw [named, stored], here⟩
        exact lastNamed_eq_none_iff.mp last r member named
      simp [Option.filter, elsewhere]

theorem mem_detached_rescan (consistent : g.Consistent)
    (listing : ∀ r, r ∈ records ↔ g.models[r.identifier]? = some r ∧ r.path = path)
    (distinct : (records.map (·.identifier)).Nodup) (p : String) :
    p ∈ (commit g path records).2.detached ↔ p ∈ g.detached ∧ ¬ Forgotten g path p := by
  have removed := consistent.removeFile path
  have fresh : ∀ r ∈ records, r.identifier ∉ (g.removeFile path).2.models := by
    intro r member present
    obtain ⟨stored, here⟩ := (listing r).mp member
    rw [mem_iff_getElem?_isSome, consistent.getElem?_models_removeFile, stored] at present
    simp [Option.filter, here] at present
  have committed : (commit g path records).2 = (g.removeFile path).2.addAll records := rfl
  rw [committed, mem_detached_addAll removed distinct fresh, consistent.removeFile_eq,
    consistent.mem_detached_foldl_remove, Forgotten]
  simp only [consistent.mem_inheritors]
  constructor
  · rintro ⟨⟨detached | ⟨here, _⟩, c, outside, lists⟩, unnamed⟩
    · exact ⟨detached, fun forgotten => outside (forgotten.2 c lists)⟩
    · obtain ⟨r, stored, located⟩ := (consistent.mem_owned path p).mp here
      have named := consistent.identified p r stored
      have member := (listing r).mpr ⟨by rw [named, stored], located⟩
      exact absurd named.symm (unnamed r member)
  · rintro ⟨detached, remembered⟩
    have outside : ∃ c, c ∉ g.owned path ∧ Lists g.models c p := by
      apply Classical.byContradiction
      intro none
      apply remembered
      refine ⟨detached, fun c lists => Classical.byContradiction fun foreign => ?_⟩
      exact none ⟨c, foreign, lists⟩
    refine ⟨⟨Or.inl detached, outside⟩, fun r member same => ?_⟩
    have stored := ((listing r).mp member).1
    rw [← same] at stored
    exact consistent.absent p detached ((mem_iff_getElem?_isSome _ _).mpr ⟨r, stored⟩)

/-- Scanning an unchanged file again changes nothing but the children of forgotten parents: these
had none, and get back all that list them. -/
theorem childrenOf_rescan (consistent : g.Consistent)
    (listing : ∀ r, r ∈ records ↔ g.models[r.identifier]? = some r ∧ r.path = path)
    (distinct : (records.map (·.identifier)).Nodup) (p : String) :
    (commit g path records).2.childrenOf p =
      if p ∈ g.detached ∧ ¬ Forgotten g path p then [] else g.inheritors p := by
  have after := commit_consistent consistent path records
  rw [after.childrenOf_eq, after.inheritors_congr consistent (models_rescan consistent listing)]
  simp only [mem_detached_rescan consistent listing distinct]

end Rescan

/-- After any history, scanning a file again whose records are still the ones stored changes no
answer but the children of forgotten parents: they had none before and have all their inheritors
after. -/
theorem rescan_changes_only_forgotten (changes : List Change) (path : String)
    (records : List ModelRecord)
    (listing : ∀ r, r ∈ records ↔
      (Graph.run {} changes).models[r.identifier]? = some r ∧ r.path = path)
    (distinct : (records.map (·.identifier)).Nodup) :
    let g := Graph.run {} changes
    let h := (commit g path records).2
    Graph.SameAnswers h g ∧
    (∀ p, h.childrenOf p = g.childrenOf p ↔ ¬ Forgotten g path p) ∧
    (∀ p, Forgotten g path p → g.childrenOf p = [] ∧ h.childrenOf p = g.inheritors p) := by
  intro g h
  have consistent : g.Consistent := Graph.consistent_empty.run changes
  have before := consistent.childrenOf_eq
  have after := childrenOf_rescan consistent listing distinct
  refine ⟨(commit_consistent consistent path records).sameAnswers consistent
    (models_rescan consistent listing), ?_, ?_⟩
  · intro p
    rw [after, before]
    by_cases forgotten : Forgotten g path p
    · obtain ⟨c, lists⟩ := consistent.lists_of_mem_detached forgotten.1
      have some : g.inheritors p ≠ [] :=
        List.ne_nil_of_mem ((consistent.mem_inheritors p c).mpr lists)
      simp [forgotten, forgotten.1, some]
    · simp [forgotten]
  · intro p forgotten
    rw [after, before]
    simp [forgotten, forgotten.1]

/-- Some stored records of a file are all of them if every identifier that the file owns is there. -/
theorem listing_of_owned {g : Graph} (consistent : g.Consistent) {path : String}
    {records : List ModelRecord}
    (stored : ∀ r ∈ records, g.models[r.identifier]? = some r ∧ r.path = path)
    (complete : ∀ id ∈ g.owned path, id ∈ records.map (·.identifier)) (r : ModelRecord) :
    r ∈ records ↔ g.models[r.identifier]? = some r ∧ r.path = path := by
  refine ⟨stored r, fun ⟨found, here⟩ => ?_⟩
  have owns := (consistent.mem_owned path r.identifier).mpr ⟨r, found, here⟩
  obtain ⟨x, member, same⟩ := List.mem_map.mp (complete _ owns)
  have other := (stored x member).1
  rw [same, found] at other
  exact Option.some.inj other ▸ member

/-- With another inheritor elsewhere the parent stays known as removed. -/
theorem rescan_with_inheritor_elsewhere :
    let b := ModelRecord.bare "b" ["a"] "b.py" "B" .regular
    let g := Graph.run {} [.add b, .add (.bare "c" ["a"] "c.py" "C" .regular),
      .add (.bare "a" [] "a.py" "A" .regular), .removeFile "a.py"]
    ¬ Forgotten g "b.py" "a" ∧ (commit g "b.py" [b]).2.childrenOf "a" = g.childrenOf "a" := by
  refine ⟨by decide, ((rescan_changes_only_forgotten _ "b.py" _ ?_ (by decide)).2.1 "a").mpr (by decide)⟩
  exact listing_of_owned (Graph.consistent_empty.run _)
    (List.forall_mem_singleton.mpr ⟨by rfl, rfl⟩) (by decide)

/-- Without one the parent is taken for one that was never known. -/
theorem rescan_revives_children :
    let b := ModelRecord.bare "b" ["a"] "b.py" "B" .regular
    let g := Graph.run {} [.add b, .add (.bare "a" [] "a.py" "A" .regular), .remove "a"]
    (∀ r, r ∈ [b] ↔ g.models[r.identifier]? = some r ∧ r.path = "b.py") ∧
      g.childrenOf "a" = [] ∧ (commit g "b.py" [b]).2.childrenOf "a" = ["b"] := by
  refine ⟨?_, by decide, by decide⟩
  exact listing_of_owned (Graph.consistent_empty.run _)
    (List.forall_mem_singleton.mpr ⟨by rfl, rfl⟩) (by decide)

end ModelAtlas.Index
