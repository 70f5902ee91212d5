import ModelAtlas.Proofs.Index.LastWriter

/-!
# The order of commits

Two updates of different files that touch no identifier in common store the same records in either
order. The order shows only in the children of an identifier that has been removed: it is known as
removed as long as some record lists it, and whether there is always one may depend on which update
comes first (`mem_detached_commitAll_pair`).
-/

namespace ModelAtlas.Index

open Inheritance Model Std

/-! ### Staying listed -/

/-- While some records are added to others of which `listers` list `p`, there is always one that does
and that is not just being replaced. -/
def StaysListed (p : String) : (String → Prop) → List ModelRecord → Prop
  | listers, [] => ∃ c, listers c
  | listers, r :: rest =>
    (∃ c, c ≠ r.identifier ∧ listers c) ∧
      StaysListed p (fun c => if c = r.identifier then p ∈ r.parents else listers c) rest

theorem StaysListed.exists {p : String} {listers : String → Prop} {records : List ModelRecord}
    (stays : StaysListed p listers records) : ∃ c, listers c := by
  cases records with
  | nil => exact stays
  | cons r rest =>
    obtain ⟨⟨c, _, lists⟩, _⟩ := stays
    exact ⟨c, lists⟩

theorem staysListed_congr {p : String} {listers others : String → Prop}
    (same : ∀ c, listers c ↔ others c) (records : List ModelRecord) :
    StaysListed p listers records ↔ StaysListed p others records := by
  have eq : listers = others := funext fun c => propext (same c)
  rw [eq]

/-- A lister that is not replaced is enough; without one, those that are replaced have to do. -/
theorem staysListed_iff {p : String} {records : List ModelRecord} (replaced : String → Prop)
    (within : ∀ r ∈ records, replaced r.identifier) (listers : String → Prop) :
    StaysListed p listers records ↔
      (∃ c, ¬ replaced c ∧ listers c) ∨ StaysListed p (fun c => replaced c ∧ listers c) records := by
  induction records generalizing listers with
  | nil =>
    simp only [StaysListed]
    grind
  | cons r rest ih =>
    obtain ⟨first, others⟩ := List.forall_mem_cons.mp within
    simp only [StaysListed]
    rw [ih others]
    have inner : StaysListed p
        (fun c => replaced c ∧ if c = r.identifier then p ∈ r.parents else listers c) rest ↔
        StaysListed p
          (fun c => if c = r.identifier then p ∈ r.parents else replaced c ∧ listers c) rest := by
      apply staysListed_congr
      intro c
      grind
    rw [inner]
    have outer : (∃ c, ¬ replaced c ∧ if c = r.identifier then p ∈ r.parents else listers c) ↔
        ∃ c, ¬ replaced c ∧ listers c := by
      apply exists_congr
      intro c
      grind
    rw [outer]
    grind

theorem mem_detached_add {g : Graph} (consistent : g.Consistent) (r : ModelRecord) (p : String) :
    p ∈ (g.add r).detached ↔
      p ∈ g.detached ∧ p ≠ r.identifier ∧ ∃ c, c ≠ r.identifier ∧ Lists g.models c p := by
  have gone := Graph.not_mem_models_remove g r.identifier
  rw [Graph.add_eq_add_remove, (consistent.remove _).mem_detached_add_fresh gone]
  cases stored : g.models[r.identifier]? with
  | none =>
    rw [Graph.remove_of_absent stored]
    constructor
    · rintro ⟨detached, different⟩
      obtain ⟨c, lists⟩ := consistent.lists_of_mem_detached detached
      refine ⟨detached, different, c, ?_, lists⟩
      rintro rfl
      obtain ⟨x, found, _⟩ := lists
      rw [stored] at found
      cases found
    · rintro ⟨detached, different, _⟩
      exact ⟨detached, different⟩
  | some old =>
    rw [consistent.mem_detached_remove stored]
    grind

theorem lists_add (g : Graph) (r : ModelRecord) (c p : String) :
    Lists (g.add r).models c p ↔ if c = r.identifier then p ∈ r.parents else Lists g.models c p := by
  rw [Graph.models_add, lists_insert]
  grind

theorem lists_foldl_remove (g : Graph) (ids : List String) (c p : String) :
    Lists (ids.foldl Graph.remove g).models c p ↔ c ∉ ids ∧ Lists g.models c p := by
  unfold Inheritance.Lists
  rw [Graph.getElem?_models_foldl_remove]
  by_cases removed : c ∈ ids
  · simp [removed]
  · simp [removed]

theorem mem_detached_addAll_iff {g : Graph} (consistent : g.Consistent) (records : List ModelRecord)
    (p : String) :
    p ∈ (g.addAll records).detached ↔
      p ∈ g.detached ∧ (∀ r ∈ records, r.identifier ≠ p) ∧
        StaysListed p (fun c => Lists g.models c p) records := by
  induction records generalizing g with
  | nil =>
    have listed := consistent.lists_of_mem_detached (p := p)
    simpa [Graph.addAll, StaysListed] using listed
  | cons r rest ih =>
    have step : g.addAll (r :: rest) = (g.add r).addAll rest := rfl
    have later : StaysListed p (fun c => Lists (g.add r).models c p) rest ↔
        StaysListed p (fun c => if c = r.identifier then p ∈ r.parents else Lists g.models c p) rest :=
      staysListed_congr (fun c => lists_add g r c p) rest
    rw [step, ih (consistent.add r), mem_detached_add consistent, later, List.forall_mem_cons]
    simp only [StaysListed]
    grind

/-- With the same records, the same children belong to an identifier unless it is known as removed in
only one of the graphs. -/
theorem childrenOf_eq_iff {g h : Graph} (consistentG : g.Consistent) (consistentH : h.Consistent)
    (models : g.models = h.models) (p : String) :
    g.childrenOf p = h.childrenOf p ↔ (p ∈ g.detached ↔ p ∈ h.detached) := by
  have inheritors := consistentG.inheritors_congr consistentH models p
  have listed {k : Graph} (consistent : k.Consistent) (detached : p ∈ k.detached) :
      k.inheritors p ≠ [] := by
    obtain ⟨c, lists⟩ := consistent.lists_of_mem_detached detached
    exact List.ne_nil_of_mem ((consistent.mem_inheritors p c).mpr lists)
  rw [consistentG.childrenOf_eq, consistentH.childrenOf_eq, inheritors]
  by_cases inG : p ∈ g.detached
  · have nonempty := inheritors ▸ listed consistentG inG
    by_cases inH : p ∈ h.detached
    · simp [inG, inH]
    · simp [inG, inH, nonempty.symm]
  · by_cases inH : p ∈ h.detached
    · simp [inG, inH, listed consistentH inH]
    · simp [inG, inH]

namespace FileUpdate

/-- The file owned the identifier, or declares it now. -/
def Touches (u : FileUpdate) (g : Graph) (id : String) : Prop := id ∈ g.owned u.path ∨ u.Declares id

/-- The records of a file that is updated list `p` in the end. -/
def Leaves (u : FileUpdate) (p : String) : Prop :=
  ∃ c r, lastNamed u.records c = some r ∧ p ∈ r.parents

/-- Records that the update takes over from other files keep `p` listed all along. -/
def Retains (u : FileUpdate) (g : Graph) (p : String) : Prop :=
  StaysListed p (fun c => u.Declares c ∧ c ∉ g.owned u.path ∧ Lists g.models c p) u.records

theorem mem_detached_commit {g : Graph} (consistent : g.Consistent) (u : FileUpdate) (p : String) :
    p ∈ (commit g u.path u.records).2.detached ↔
      (p ∈ g.detached ∨ p ∈ g.owned u.path) ∧ ¬ u.Declares p ∧
        ((∃ c, ¬ u.Touches g c ∧ Lists g.models c p) ∨ u.Retains g p) := by
  have committed : (commit g u.path u.records).2 = (g.removeFile u.path).2.addAll u.records := rfl
  have stored : p ∈ g.owned u.path → p ∈ g.models := by
    intro owns
    obtain ⟨r, found, _⟩ := (consistent.mem_owned u.path p).mp owns
    exact (mem_iff_getElem?_isSome _ _).mpr ⟨r, found⟩
  have undeclared : (∀ r ∈ u.records, r.identifier ≠ p) ↔ ¬ u.Declares p := by
    rw [← lastNamed_eq_none_iff, lastNamed_eq_none]
  have retained : u.Retains g p → ∃ c, c ∉ g.owned u.path ∧ Lists g.models c p := by
    intro stays
    obtain ⟨c, _, outside, lists⟩ := stays.exists
    exact ⟨c, outside, lists⟩
  rw [committed, mem_detached_addAll_iff (consistent.removeFile u.path), consistent.removeFile_eq,
    staysListed_congr (fun c => lists_foldl_remove g (g.owned u.path) c p),
    staysListed_iff u.Declares (fun r member => ⟨r, member, rfl⟩),
    consistent.mem_detached_foldl_remove, undeclared]
  change _ ∧ _ ∧ (_ ∨ u.Retains g p) ↔ _
  unfold Touches
  grind

theorem lists_commit {g : Graph} (consistent : g.Consistent) (u : FileUpdate) (c p : String) :
    Lists (commit g u.path u.records).2.models c p ↔
      (∃ r, lastNamed u.records c = some r ∧ p ∈ r.parents) ∨
        ¬ u.Touches g c ∧ Lists g.models c p := by
  have owned := consistent.mem_owned u.path c
  have undeclared := u.lastNamed_eq_none c
  unfold Inheritance.Lists Touches
  simp only [models_commit_eq_some consistent]
  constructor
  · rintro ⟨r, last | ⟨unnamed, stored, elsewhere⟩, listed⟩
    · exact Or.inl ⟨r, last, listed⟩
    · refine Or.inr ⟨?_, r, stored, listed⟩
      grind
  · rintro (⟨r, last, listed⟩ | ⟨untouched, r, stored, listed⟩)
    · exact ⟨r, Or.inl last, listed⟩
    · refine ⟨r, Or.inr ⟨?_, stored, ?_⟩, listed⟩ <;> grind

/-! ### Two updates -/

/-- The updates are for different files and touch no identifier in common. -/
structure Apart (g : Graph) (u v : FileUpdate) : Prop where
  different : u.path ≠ v.path
  disjoint : ∀ id, u.Touches g id → ¬ v.Touches g id

theorem Apart.symm {g : Graph} {u v : FileUpdate} (apart : Apart g u v) : Apart g v u where
  different := apart.different.symm
  disjoint id touches also := apart.disjoint id also touches

/-- A record that the update may replace lists `p`. -/
def Relists (u : FileUpdate) (g : Graph) (p : String) : Prop :=
  ∃ c, u.Touches g c ∧ Lists g.models c p

/-- `p` had been removed before or is removed by one of the updates, and neither brings it back. -/
def Removed (g : Graph) (u v : FileUpdate) (p : String) : Prop :=
  (p ∈ g.detached ∨ p ∈ g.owned u.path ∨ p ∈ g.owned v.path) ∧ ¬ u.Declares p ∧ ¬ v.Declares p

/-- Committing `u` and then `v` does not lose sight of the removal of `p`. A record that neither
touches may list it all along. Otherwise `u` has to find it listed by what `v` will replace, unless
`v` is the one to remove it, and `v` has to find it listed by what `u` has left. -/
def Remembers (g : Graph) (u v : FileUpdate) (p : String) : Prop :=
  (∃ c, ¬ u.Touches g c ∧ ¬ v.Touches g c ∧ Lists g.models c p) ∨
    (p ∈ g.owned v.path ∨ v.Relists g p ∨ u.Retains g p) ∧ (u.Leaves p ∨ v.Retains g p)

section Pair

variable {g : Graph} {u v : FileUpdate}

theorem mem_owned_commit (consistent : g.Consistent) (apart : Apart g u v) (id : String) :
    id ∈ (commit g u.path u.records).2.owned v.path ↔ id ∈ g.owned v.path := by
  rw [(commit_consistent consistent u.path u.records).mem_owned, consistent.mem_owned]
  constructor
  · rintro ⟨r, stored, here⟩
    rcases (models_commit_eq_some consistent).mp stored with last | ⟨_, before, _⟩
    · exact absurd ((path_of_lastNamed last).symm.trans here) apart.different
    · exact ⟨r, before, here⟩
  · rintro ⟨r, stored, here⟩
    have owns : id ∈ g.owned v.path := (consistent.mem_owned v.path id).mpr ⟨r, stored, here⟩
    refine ⟨r, (models_commit_eq_some consistent).mpr (Or.inr ⟨?_, stored, ?_⟩), here⟩
    · rw [lastNamed_eq_none]
      intro declares
      exact apart.disjoint id (Or.inr declares) (Or.inl owns)
    · exact fun there => apart.different (there.symm.trans here)

theorem touches_commit (consistent : g.Consistent) (apart : Apart g u v) (id : String) :
    v.Touches (commit g u.path u.records).2 id ↔ v.Touches g id :=
  or_congr_left (mem_owned_commit consistent apart id)

theorem retains_commit (consistent : g.Consistent) (apart : Apart g u v) (p : String) :
    v.Retains (commit g u.path u.records).2 p ↔ v.Retains g p := by
  apply staysListed_congr
  intro c
  rw [mem_owned_commit consistent apart, lists_commit consistent]
  apply and_congr_right
  intro declares
  have untouched : ¬ u.Touches g c := fun touches => apart.disjoint c touches (Or.inr declares)
  have unnamed : lastNamed u.records c = none :=
    (u.lastNamed_eq_none c).mpr fun also => untouched (Or.inr also)
  simp [untouched, unnamed]

/-- What `v` finds outside of its own file: what `u` has left and what neither touches. -/
theorem listed_outside_commit (consistent : g.Consistent) (apart : Apart g u v) (p : String) :
    (∃ c, ¬ v.Touches (commit g u.path u.records).2 c ∧
        Lists (commit g u.path u.records).2.models c p) ↔
      u.Leaves p ∨ ∃ c, ¬ u.Touches g c ∧ ¬ v.Touches g c ∧ Lists g.models c p := by
  simp only [touches_commit consistent apart, lists_commit consistent]
  constructor
  · rintro ⟨c, outside, ⟨r, last, listed⟩ | ⟨untouched, lists⟩⟩
    · exact Or.inl ⟨c, r, last, listed⟩
    · exact Or.inr ⟨c, untouched, outside, lists⟩
  · rintro (⟨c, r, last, listed⟩ | ⟨c, untouched, outside, lists⟩)
    · obtain ⟨member, named⟩ := mem_of_lastNamed last
      exact ⟨c, apart.disjoint c (Or.inr ⟨r, member, named⟩), Or.inl ⟨r, last, listed⟩⟩
    · exact ⟨c, outside, Or.inr ⟨untouched, lists⟩⟩

/-- What `u` finds outside of its own file: what `v` will replace and what neither touches. -/
theorem listed_outside (apart : Apart g u v) (p : String) :
    (∃ c, ¬ u.Touches g c ∧ Lists g.models c p) ↔
      v.Relists g p ∨ ∃ c, ¬ u.Touches g c ∧ ¬ v.Touches g c ∧ Lists g.models c p := by
  constructor
  · rintro ⟨c, untouched, lists⟩
    by_cases touches : v.Touches g c
    · exact Or.inl ⟨c, touches, lists⟩
    · exact Or.inr ⟨c, untouched, touches, lists⟩
  · rintro (⟨c, touches, lists⟩ | ⟨c, untouched, _, lists⟩)
    · exact ⟨c, apart.symm.disjoint c touches, lists⟩
    · exact ⟨c, untouched, lists⟩

theorem mem_detached_commitAll_pair (consistent : g.Consistent) (apart : Apart g u v) (p : String) :
    p ∈ (commitAll g [u, v]).detached ↔ Removed g u v p ∧ Remembers g u v p := by
  have first := mem_detached_commit consistent u p
  have second := mem_detached_commit (commit_consistent consistent u.path u.records) v p
  rw [listed_outside apart] at first
  rw [listed_outside_commit consistent apart, retains_commit consistent apart,
    mem_owned_commit consistent apart, first] at second
  have foreign : p ∈ g.owned v.path → ¬ u.Declares p := by
    intro owns declares
    exact apart.disjoint p (Or.inr declares) (Or.inl owns)
  refine Iff.trans second ?_
  unfold Removed Remembers
  grind

theorem models_commitAll_pair (consistent : g.Consistent) (apart : Apart g u v) :
    (commitAll g [u, v]).models = (commitAll g [v, u]).models := by
  have after (u v : FileUpdate) (id : String) (r : ModelRecord) :
      (commitAll g [u, v]).models[id]? = some r ↔
        lastNamed v.records id = some r ∨ lastNamed v.records id = none ∧
          (lastNamed u.records id = some r ∨ lastNamed u.records id = none ∧
            g.models[id]? = some r ∧ r.path ≠ u.path) ∧ r.path ≠ v.path := by
    refine Iff.trans (models_commit_eq_some (commit_consistent consistent u.path u.records)) ?_
    rw [models_commit_eq_some consistent]
  apply ExtTreeMap.ext_getElem?
  intro id
  apply Option.ext
  intro r
  rw [after, after]
  have one : lastNamed u.records id = none ∨ lastNamed v.records id = none := by
    rw [lastNamed_eq_none, lastNamed_eq_none, ← not_and_or]
    rintro ⟨declares, also⟩
    exact apart.disjoint id (Or.inr declares) (Or.inr also)
  have inU : lastNamed u.records id = some r → r.path = u.path := path_of_lastNamed
  have inV : lastNamed v.records id = some r → r.path = v.path := path_of_lastNamed
  have different := apart.different
  grind

end Pair

/-- What some updates report, one after the other. -/
def reportAll (g : Graph) : List FileUpdate → List String
  | [] => []
  | u :: rest =>
    (commit g u.path u.records).1 ++ reportAll (commit g u.path u.records).2 rest

theorem mem_reportAll_pair {g : Graph} (consistent : g.Consistent) {u v : FileUpdate}
    (apart : Apart g u v) (id : String) :
    id ∈ reportAll g [u, v] ↔ u.Touches g id ∨ v.Touches g id := by
  have after := commit_consistent consistent u.path u.records
  simp only [reportAll, List.mem_append, List.not_mem_nil, or_false]
  rw [mem_commit_reports consistent, mem_commit_reports after, mem_owned_commit consistent apart]
  rfl

/-- After any history, two updates of different files that have no identifier in common report the
same identifiers in either order, and then all answers are the same but for the children of removed
identifiers: those are the same exactly if both orders remember the removal, or neither does. -/
theorem commits_commute_up_to_removals (changes : List Change) (u v : FileUpdate)
    (apart : Apart (Graph.run {} changes) u v) :
    let g := Graph.run {} changes
    (∀ id, id ∈ reportAll g [u, v] ↔ id ∈ reportAll g [v, u]) ∧
    (commitAll g [u, v]).SameAnswers (commitAll g [v, u]) ∧
    ∀ p, (commitAll g [u, v]).childrenOf p = (commitAll g [v, u]).childrenOf p ↔
      (Removed g u v p → (Remembers g u v p ↔ Remembers g v u p)) := by
  intro g
  have consistent : g.Consistent := Graph.consistent_empty.run changes
  have models := models_commitAll_pair consistent apart
  have afterUV := commitAll_consistent consistent [u, v]
  have afterVU := commitAll_consistent consistent [v, u]
  refine ⟨?_, afterUV.sameAnswers afterVU models, ?_⟩
  · intro id
    rw [mem_reportAll_pair consistent apart, mem_reportAll_pair consistent apart.symm]
    exact or_comm
  · intro p
    have removed : Removed g v u p ↔ Removed g u v p := by
      unfold Removed
      grind
    rw [childrenOf_eq_iff afterUV afterVU models, mem_detached_commitAll_pair consistent apart,
      mem_detached_commitAll_pair consistent apart.symm, removed]
    grind

theorem apart_of_reports {g : Graph} (consistent : g.Consistent) {u v : FileUpdate}
    (different : u.path ≠ v.path)
    (disjoint : ∀ id ∈ (commit g u.path u.records).1, id ∉ (commit g v.path v.records).1) :
    Apart g u v := by
  refine ⟨different, ?_⟩
  intro id touches also
  exact disjoint id ((mem_commit_reports consistent u id).mpr touches)
    ((mem_commit_reports consistent v id).mpr also)

/-- A file that declared `a` is gone. -/
def parentGone : FileUpdate := ⟨"a.py", [], by simp⟩

def inheritorOfA (id path : String) : ModelRecord := .bare id ["a"] path "B" .regular

/-- A file that declares an inheritor of `a` is scanned again. -/
def childAgain : FileUpdate :=
  ⟨"b.py", [inheritorOfA "b" "b.py"], by simp [inheritorOfA, ModelRecord.bare, ModelRecord.path]⟩

/-- The history of a parent with one inheritor. -/
def family : List Change :=
  [.add (inheritorOfA "b" "b.py"), .add (.bare "a" [] "a.py" "A" .regular)]

/-- With an inheritor in a third file both orders remember that the parent is gone. -/
theorem commits_commute_with_inheritor_elsewhere :
    let g := Graph.run {} (.add (inheritorOfA "c" "c.py") :: family)
    Apart g parentGone childAgain ∧
      (commitAll g [parentGone, childAgain]).childrenOf "a" =
        (commitAll g [childAgain, parentGone]).childrenOf "a" := by
  intro g
  have consistent : g.Consistent := Graph.consistent_empty.run _
  have apart : Apart g parentGone childAgain :=
    apart_of_reports consistent (by decide) (by decide)
  have elsewhere {u : FileUpdate} (unreported : "c" ∉ (commit g u.path u.records).1) :
      ¬ u.Touches g "c" := fun touches => unreported ((mem_commit_reports consistent u "c").mpr touches)
  have lists : Lists g.models "c" "a" := ⟨inheritorOfA "c" "c.py", by rfl, by decide⟩
  refine ⟨apart, ((commits_commute_up_to_removals _ _ _ apart).2.2 "a").mpr fun _ => ?_⟩
  exact iff_of_true (Or.inl ⟨"c", elsewhere (by decide), elsewhere (by decide), lists⟩)
    (Or.inl ⟨"c", elsewhere (by decide), elsewhere (by decide), lists⟩)

/-- Without one, an update of the inheritor that comes second takes the parent for one that was never
known. -/
theorem commit_order_shows_in_children :
    let g := Graph.run {} family
    Apart g parentGone childAgain ∧
      (commitAll g [parentGone, childAgain]).childrenOf "a" = ["b"] ∧
      (commitAll g [childAgain, parentGone]).childrenOf "a" = [] := by
  intro g
  have consistent : g.Consistent := Graph.consistent_empty.run _
  exact ⟨apart_of_reports consistent (by decide) (by decide), by decide, by decide⟩

end FileUpdate

end ModelAtlas.Index
