import Mathlib.Logic.Function.Basic
import ModelAtlas.Proofs.Index.MemberCaches
import ModelAtlas.Proofs.Index.Scans

/-!
# Field jobs

Jobs, changes of the graph and invalidations that run at the same time, one atomic step after
another. A job that nothing comes in between is `FieldCache.complete` (`Reachable.complete`), and an
invalidation that nothing comes in between is `FieldCache.invalidate` (`Reachable.invalidate`).

A job compares epochs in one step and keeps its list in another. A list that is kept in the epoch
that its job started in is right once every change has been invalidated. One that is kept later need
not be: if a whole invalidation comes between the two steps, nothing drops the list
(`reachable_late_insert`).
-/

namespace ModelAtlas.Index

open Inheritance Model Source Std

namespace FieldCache

def keep (c : FieldCache) (model : String) (fields : List FieldRecord) : FieldCache :=
  { c with lists := c.lists.insert model fields }

/-- Removes the entry of a job among the loading ones, unless another job has taken its place. -/
def release (c : FieldCache) (j : Job) : FieldCache :=
  { c with
    loading := if c.loading[j.model]? = some j.number then c.loading.erase j.model else c.loading }

def nextEpoch (c : FieldCache) : FieldCache := { c with epoch := c.epoch + 1 }

def drop (c : FieldCache) (models : List String) : FieldCache :=
  { c with
    lists := models.foldl ExtTreeMap.erase c.lists
    loading := models.foldl ExtTreeMap.erase c.loading }

theorem complete_eq (g : Graph) (c : FieldCache) (j : Job) :
    complete g c j =
      (if c.epoch = j.epoch then c.keep j.model (g.fieldsOf j.model) else c).release j := by
  unfold complete
  split
  · rfl
  · rfl

theorem invalidate_eq (c : FieldCache) (models : List String) :
    c.invalidate models = c.nextEpoch.drop models := rfl

/-- A job removes its own entry and no other. -/
theorem getElem?_loading_release (c : FieldCache) (j : Job) (model : String) :
    (c.release j).loading[model]? =
      if model = j.model ∧ c.loading[model]? = some j.number then none else c.loading[model]? := by
  unfold release
  dsimp only
  by_cases same : model = j.model
  · subst same
    split
    · simp_all
    · simp_all
  · have different : compare j.model model ≠ .eq := by simpa using Ne.symm same
    split
    · rw [ExtTreeMap.getElem?_erase, if_neg different, if_neg fun own => same own.1]
    · rw [if_neg fun own => same own.1]

end FieldCache

namespace FieldJobs

/-! ### States -/

/-- How far a job has come that has read the graph. -/
inductive Stage where
  | merged (fields : List FieldRecord)
  /-- The epoch was still the one that the job started in. -/
  | passed (fields : List FieldRecord)
  /-- All that is left to do is to remove the job's entry among the loading ones. -/
  | closing

/-- What is left to do after a change of the graph. -/
structure Invalidation where
  changed : List String
  /-- The descendants of what changed, once they have been looked up. -/
  affected : Option Names := none
  /-- Whether the epoch has been raised. -/
  bumped : Bool := false

def Invalidation.survey (i : Invalidation) (g : Graph) : Invalidation :=
  { i with affected := some (g.descendants i.changed) }

/-- The models whose lists are going to be dropped. -/
def Invalidation.reach (i : Invalidation) (g : Graph) : Names :=
  i.affected.getD (g.descendants i.changed)

theorem Invalidation.reach_survey {i : Invalidation} (unknown : i.affected = none) (g : Graph) :
    (i.survey g).reach g = i.reach g := by
  rw [reach, reach, unknown]
  rfl

structure World where
  graph : Graph := {}
  /-- Its jobs are those that have not read the graph. -/
  cache : FieldCache := {}
  running : Job → Option Stage := fun _ => none
  pending : List Invalidation := []
  /-- Models whose list was kept in another epoch than its job started in. No step depends on it. -/
  late : List String := []

namespace World

def UnderWay (w : World) (j : Job) : Prop := j ∈ w.cache.jobs ∨ w.running j ≠ none

/-! ### Steps -/

def loaded (w : World) (model : String) (due : Due) : World :=
  { w with cache := w.cache.register model due }

def merged (w : World) (j : Job) : World :=
  { w with
    cache := { w.cache with jobs := w.cache.jobs.erase j }
    running := Function.update w.running j (some (.merged (w.graph.fieldsOf j.model))) }

def compared (w : World) (j : Job) (fields : List FieldRecord) : World :=
  { w with
    running := Function.update w.running j
      (some (if w.cache.epoch = j.epoch then .passed fields else .closing)) }

def inserted (w : World) (j : Job) (fields : List FieldRecord) : World :=
  { w with
    cache := w.cache.keep j.model fields
    running := Function.update w.running j (some .closing)
    late := if w.cache.epoch = j.epoch then w.late.filter (· ≠ j.model) else j.model :: w.late }

def released (w : World) (j : Job) : World :=
  { w with cache := w.cache.release j, running := Function.update w.running j none }

def changed (w : World) (graph : Graph) (models : List String) : World :=
  { w with graph := graph, pending := { changed := models } :: w.pending }

end World

inductive Step (w : World) : World → Prop where
  | load (model : String) (due : Due) (free : w.cache.loading[model]? = none) :
      Step w (w.loaded model due)
  | merge {j : Job} (registered : j ∈ w.cache.jobs) : Step w (w.merged j)
  | compare {j : Job} {fields : List FieldRecord} (holds : w.running j = some (.merged fields)) :
      Step w (w.compared j fields)
  | insert {j : Job} {fields : List FieldRecord} (holds : w.running j = some (.passed fields)) :
      Step w (w.inserted j fields)
  | release {j : Job} (holds : w.running j = some .closing) : Step w (w.released j)
  /-- The records of some models change, and no others. -/
  | change {graph : Graph} {models : List String} (consistent : graph.Consistent)
      (kept : ∀ id, id ∉ models → w.graph.models[id]? = graph.models[id]?) :
      Step w (w.changed graph models)
  /-- The descendants of what changed are looked up. -/
  | survey {before after : List Invalidation} {i : Invalidation}
      (noted : w.pending = before ++ i :: after) (unknown : i.affected = none) :
      Step w { w with pending := before ++ i.survey w.graph :: after }
  | bump {before after : List Invalidation} {i : Invalidation}
      (noted : w.pending = before ++ i :: after) (due : i.bumped = false) :
      Step w { w with
        cache := w.cache.nextEpoch
        pending := before ++ { i with bumped := true } :: after }
  | drop {before after : List Invalidation} {i : Invalidation} {models : Names}
      (noted : w.pending = before ++ i :: after) (known : i.affected = some models)
      (bumped : i.bumped = true) :
      Step w { w with cache := w.cache.drop models.toList, pending := before ++ after }

/-- States that come up after the cache has been made, over any graph. -/
inductive Reachable : World → Prop where
  | start {graph : Graph} (consistent : graph.Consistent) : Reachable { graph := graph }
  | step {w v : World} : Reachable w → Step w v → Reachable v

/-! ### What lists depend on -/

/-- A list is right, or is going to be dropped by one of some invalidations. -/
def Accounted (g : Graph) (pending : List Invalidation) (model : String)
    (fields : List FieldRecord) : Prop :=
  (∃ i ∈ pending, model ∈ i.reach g) ∨ fields = g.fieldsOf model

section Accounted

variable {g h : Graph} {pending rest : List Invalidation} {model : String}
  {fields : List FieldRecord} {before after : List Invalidation} {i k : Invalidation}

theorem Accounted.imp (accounted : Accounted g pending model fields)
    (covered : ∀ i ∈ pending, model ∈ i.reach g → ∃ k ∈ rest, model ∈ k.reach g) :
    Accounted g rest model fields := by
  refine accounted.imp_left ?_
  rintro ⟨i, member, reached⟩
  exact covered i member reached

theorem Accounted.replace (accounted : Accounted g (before ++ i :: after) model fields)
    (covered : model ∈ i.reach g → model ∈ k.reach g) :
    Accounted g (before ++ k :: after) model fields := by
  apply accounted.imp
  simp only [List.mem_append, List.mem_cons]
  grind

theorem Accounted.remove (accounted : Accounted g (before ++ i :: after) model fields)
    (spared : model ∉ i.reach g) : Accounted g (before ++ after) model fields := by
  apply accounted.imp
  simp only [List.mem_append, List.mem_cons]
  grind

/-- What a change makes wrong is reached by its invalidation. What an earlier one was going to drop is
dropped too, since the path to it is only cut where something changes. -/
theorem Accounted.change (accounted : Accounted g pending model fields) (consistentG : g.Consistent)
    (consistentH : h.Consistent) {models : List String}
    (kept : ∀ id, id ∉ models → g.models[id]? = h.models[id]?) :
    Accounted h ({ changed := models } :: pending) model fields := by
  rcases accounted with ⟨i, member, reached⟩ | rfl
  · left
    unfold Invalidation.reach at reached
    cases known : i.affected with
    | some affected =>
      rw [known] at reached
      refine ⟨i, List.mem_cons_of_mem _ member, ?_⟩
      rw [Invalidation.reach, known]
      exact reached
    | none =>
      rw [known] at reached
      rcases consistentG.mem_descendants_of_changed consistentH kept _ _ reached with still | new
      · refine ⟨i, List.mem_cons_of_mem _ member, ?_⟩
        rw [Invalidation.reach, known]
        exact still
      · exact ⟨_, List.mem_cons_self, new⟩
  · by_cases same : g.lineage model = h.lineage model
    · exact Or.inr (Session.fieldsOf_congr same)
    · have new := consistentH.mem_descendants_of_lineage_ne kept same
      exact Or.inl ⟨_, List.mem_cons_self, new⟩

end Accounted

/-! ### The invariant -/

/-- The list that a job is going to keep, if it may. -/
def Stage.fields? : Stage → Option (List FieldRecord)
  | .merged fields | .passed fields => some fields
  | .closing => none

/-- Invalidations that have not raised the epoch. -/
def unbumped (pending : List Invalidation) : List Invalidation := pending.filter fun i => !i.bumped

theorem mem_unbumped {pending : List Invalidation} {i : Invalidation} :
    i ∈ unbumped pending ↔ i ∈ pending ∧ i.bumped = false := by
  simp [unbumped]

/-- Jobs under way are told apart by their numbers, and none is ahead of the cache. -/
structure Ordered (w : World) : Prop where
  epochs : ∀ j, w.UnderWay j → j.epoch ≤ w.cache.epoch
  numbers : ∀ j, w.UnderWay j → j.number < w.cache.nextJob
  distinct : ∀ j k, w.UnderWay j → w.UnderWay k → j.number = k.number → j = k

structure Invariant (w : World) : Prop where
  consistent : w.graph.Consistent
  ordered : Ordered w
  /-- A job that may still pass carries a list that is right, or the epoch is still to be raised on
  account of it. -/
  carried : ∀ j stage fields, w.running j = some stage → stage.fields? = some fields →
    j.epoch = w.cache.epoch → Accounted w.graph (unbumped w.pending) j.model fields
  kept : ∀ model fields, w.cache.lists[model]? = some fields →
    model ∈ w.late ∨ Accounted w.graph w.pending model fields

section Steps

variable {w v : World} {j : Job}

theorem Ordered.mono (ordered : Ordered w) (within : ∀ k, v.UnderWay k → w.UnderWay k)
    (epoch : w.cache.epoch ≤ v.cache.epoch) (nextJob : v.cache.nextJob = w.cache.nextJob) :
    Ordered v where
  epochs k underWay := Nat.le_trans (ordered.epochs k (within k underWay)) epoch
  numbers k underWay := nextJob ▸ ordered.numbers k (within k underWay)
  distinct k l first second := ordered.distinct k l (within k first) (within l second)

/-- A job under way goes on. -/
theorem Ordered.advance (ordered : Ordered w) (underWay : w.UnderWay j) {stage : Option Stage}
    (running : v.running = Function.update w.running j stage) (jobs : v.cache.jobs ⊆ w.cache.jobs)
    (epoch : v.cache.epoch = w.cache.epoch) (nextJob : v.cache.nextJob = w.cache.nextJob) :
    Ordered v := by
  refine ordered.mono ?_ (Nat.le_of_eq epoch.symm) nextJob
  rintro k (registered | present)
  · exact Or.inl (jobs registered)
  · by_cases same : k = j
    · exact same ▸ underWay
    · rw [running, Function.update_of_ne same] at present
      exact Or.inr present

theorem Ordered.loaded (ordered : Ordered w) (model : String) (due : Due) :
    Ordered (w.loaded model due) := by
  have cases : ∀ k, (w.loaded model due).UnderWay k →
      k = ⟨w.cache.nextJob, model, w.cache.epoch, due⟩ ∨ w.UnderWay k := by
    rintro k (registered | running)
    · rcases (FieldCache.mem_insertJob _ _ _).mp registered with new | old
      · exact Or.inl new
      · exact Or.inr (Or.inl old)
    · exact Or.inr (Or.inr running)
  refine ⟨?_, ?_, ?_⟩
  · intro k underWay
    rcases cases k underWay with rfl | old
    · exact Nat.le_refl _
    · exact ordered.epochs k old
  · intro k underWay
    rcases cases k underWay with rfl | old
    · exact Nat.lt_succ_self _
    · exact Nat.lt_succ_of_lt (ordered.numbers k old)
  · intro k l first second same
    rcases cases k first with rfl | oldK
    · rcases cases l second with rfl | oldL
      · rfl
      · exact absurd (ordered.numbers l oldL) (same ▸ Nat.lt_irrefl _)
    · rcases cases l second with rfl | oldL
      · exact absurd (ordered.numbers k oldK) (same ▸ Nat.lt_irrefl _)
      · exact ordered.distinct k l oldK oldL same

/-- A job that goes on carries the list that it had, or a right one, or none. -/
theorem carried_advance (inv : Invariant w) {stage : Option Stage}
    (carries : ∀ s fields, stage = some s → s.fields? = some fields → j.epoch = w.cache.epoch →
      Accounted w.graph (unbumped w.pending) j.model fields) {k : Job} {s : Stage}
    {fields : List FieldRecord} (present : Function.update w.running j stage k = some s)
    (carried : s.fields? = some fields) (current : k.epoch = w.cache.epoch) :
    Accounted w.graph (unbumped w.pending) k.model fields := by
  by_cases same : k = j
  · subst same
    rw [Function.update_self] at present
    exact carries s fields present carried current
  · rw [Function.update_of_ne same] at present
    exact inv.carried k s fields present carried current

theorem Invariant.loaded (inv : Invariant w) (model : String) (due : Due) :
    Invariant (w.loaded model due) :=
  ⟨inv.consistent, inv.ordered.loaded model due, inv.carried, inv.kept⟩

theorem Invariant.merged (inv : Invariant w) (registered : j ∈ w.cache.jobs) :
    Invariant (w.merged j) := by
  have ordered : Ordered (w.merged j) :=
    inv.ordered.advance (Or.inl registered) rfl List.erase_subset rfl rfl
  refine ⟨inv.consistent, ordered, ?_, inv.kept⟩
  intro k s fields
  apply carried_advance inv
  rintro _ _ ⟨⟩ ⟨⟩ _
  exact Or.inr rfl

theorem underWay_of_running {stage : Stage} (holds : w.running j = some stage) : w.UnderWay j :=
  Or.inr (by simp [holds])

theorem Invariant.compared (inv : Invariant w) {fields : List FieldRecord}
    (holds : w.running j = some (.merged fields)) : Invariant (w.compared j fields) := by
  have ordered : Ordered (w.compared j fields) :=
    inv.ordered.advance (underWay_of_running holds) rfl (List.Subset.refl _) rfl rfl
  refine ⟨inv.consistent, ordered, ?_, inv.kept⟩
  intro k s list
  apply carried_advance inv
  rintro _ _ ⟨⟩ carried current
  rw [if_pos current.symm] at carried
  exact inv.carried j _ _ holds carried current

theorem Invariant.inserted (inv : Invariant w) {fields : List FieldRecord}
    (holds : w.running j = some (.passed fields)) : Invariant (w.inserted j fields) := by
  have ordered : Ordered (w.inserted j fields) :=
    inv.ordered.advance (underWay_of_running holds) rfl (List.Subset.refl _) rfl rfl
  refine ⟨inv.consistent, ordered, ?_, ?_⟩
  · intro k s list
    apply carried_advance inv
    rintro _ _ ⟨⟩ ⟨⟩
  · intro model list found
    dsimp only [World.inserted, FieldCache.keep] at found ⊢
    simp only [ExtTreeMap.getElem?_insert, Std.compare_eq_iff_eq] at found
    by_cases same : j.model = model
    · subst same
      rw [if_pos rfl] at found
      obtain rfl := Option.some.inj found
      by_cases current : w.cache.epoch = j.epoch
      · right
        refine (inv.carried j _ _ holds rfl current.symm).imp fun i unbumped reached => ?_
        exact ⟨i, (mem_unbumped.mp unbumped).1, reached⟩
      · left
        rw [if_neg current]
        exact List.mem_cons_self
    · rw [if_neg same] at found
      refine (inv.kept model list found).imp_left fun late => ?_
      split
      · simpa [late] using Ne.symm same
      · exact List.mem_cons_of_mem _ late

theorem Invariant.released (inv : Invariant w) (holds : w.running j = some .closing) :
    Invariant (w.released j) := by
  have ordered : Ordered (w.released j) :=
    inv.ordered.advance (underWay_of_running holds) rfl (List.Subset.refl _) rfl rfl
  refine ⟨inv.consistent, ordered, ?_, inv.kept⟩
  intro k s list
  apply carried_advance inv
  rintro _ _ ⟨⟩

theorem Invariant.changed (inv : Invariant w) {graph : Graph} {models : List String}
    (consistent : graph.Consistent)
    (kept : ∀ id, id ∉ models → w.graph.models[id]? = graph.models[id]?) :
    Invariant (w.changed graph models) := by
  refine ⟨consistent, inv.ordered.mono (fun _ => id) (Nat.le_refl _) rfl, ?_, ?_⟩
  · intro k s fields present carried current
    exact (inv.carried k s fields present carried current).change inv.consistent consistent kept
  · intro model fields found
    refine (inv.kept model fields found).imp_right fun accounted => ?_
    exact accounted.change inv.consistent consistent kept

section Pending

variable {before after : List Invalidation} {i : Invalidation}

theorem Invariant.surveyed (inv : Invariant w) (noted : w.pending = before ++ i :: after)
    (unknown : i.affected = none) :
    Invariant { w with pending := before ++ i.survey w.graph :: after } := by
  have same : ∀ model ∈ i.reach w.graph, model ∈ (i.survey w.graph).reach w.graph := by
    rw [Invalidation.reach_survey unknown]
    exact fun _ => id
  refine ⟨inv.consistent, inv.ordered.mono (fun _ => id) (Nat.le_refl _) rfl, ?_, ?_⟩
  · intro k s fields present carried current
    have accounted := inv.carried k s fields present carried current
    rw [noted] at accounted
    cases bumped : i.bumped with
    | true => simpa [unbumped, Invalidation.survey, bumped] using accounted
    | false =>
      simp only [unbumped, Invalidation.survey, List.filter_append, List.filter_cons, bumped,
        Bool.not_false, if_true] at accounted ⊢
      exact accounted.replace (same _)
  · intro model fields found
    refine (inv.kept model fields found).imp_right fun accounted => ?_
    rw [noted] at accounted
    exact accounted.replace (same _)

theorem Invariant.bumped (inv : Invariant w) (noted : w.pending = before ++ i :: after) :
    Invariant { w with
      cache := w.cache.nextEpoch
      pending := before ++ { i with bumped := true } :: after } := by
  refine ⟨inv.consistent, inv.ordered.mono (fun _ => id) (Nat.le_succ _) rfl, ?_, ?_⟩
  · intro k s fields present _ current
    have before := inv.ordered.epochs k (underWay_of_running present)
    rw [current] at before
    exact absurd before (Nat.not_succ_le_self _)
  · intro model fields found
    refine (inv.kept model fields found).imp_right fun accounted => ?_
    rw [noted] at accounted
    exact accounted.replace fun reached => reached

theorem Invariant.dropped (inv : Invariant w) (noted : w.pending = before ++ i :: after)
    {models : Names} (known : i.affected = some models) (bumped : i.bumped = true) :
    Invariant { w with cache := w.cache.drop models.toList, pending := before ++ after } := by
  refine ⟨inv.consistent, inv.ordered.mono (fun _ => id) (Nat.le_refl _) rfl, ?_, ?_⟩
  · have same : unbumped (before ++ after) = unbumped w.pending := by
      simp [unbumped, noted, bumped]
    intro k s fields
    dsimp only
    rw [same]
    exact inv.carried k s fields
  · intro model fields found
    dsimp only [FieldCache.drop] at found
    rw [FieldCache.getElem?_foldl_erase] at found
    split at found
    · cases found
    · rename_i outside
      have spared : model ∉ i.reach w.graph := by
        simpa [Invalidation.reach, known] using outside
      refine (inv.kept model fields found).imp_right fun accounted => ?_
      rw [noted] at accounted
      exact accounted.remove spared

end Pending

theorem Invariant.step (inv : Invariant w) (step : Step w v) : Invariant v := by
  cases step with
  | load model due _ => exact inv.loaded model due
  | merge registered => exact inv.merged registered
  | compare holds => exact inv.compared holds
  | insert holds => exact inv.inserted holds
  | release holds => exact inv.released holds
  | change consistent kept => exact inv.changed consistent kept
  | survey noted unknown => exact inv.surveyed noted unknown
  | bump noted _ => exact inv.bumped noted
  | drop noted known bumped => exact inv.dropped noted known bumped

end Steps

theorem start_invariant {graph : Graph} (consistent : graph.Consistent) :
    Invariant { graph := graph } where
  consistent := consistent
  ordered := by
    have idle : ∀ j, ¬ World.UnderWay { graph := graph } j := by
      rintro j (registered | running)
      · cases registered
      · exact running rfl
    exact ⟨fun j underWay => absurd underWay (idle j), fun j underWay => absurd underWay (idle j),
      fun j _ underWay => absurd underWay (idle j)⟩
  carried _ _ _ running := nomatch running
  kept model fields found := by simp at found

theorem Reachable.invariant {w : World} (reachable : Reachable w) : Invariant w := by
  induction reachable with
  | start consistent => exact start_invariant consistent
  | step _ step ih => exact ih.step step

/-! ### Without interference -/

section Runs

variable {w : World}

theorem Reachable.commit (reachable : Reachable w) (path : String) (records : List ModelRecord) :
    Reachable (w.changed (commit w.graph path records).2 (commit w.graph path records).1) := by
  have consistent := reachable.invariant.consistent
  refine reachable.step (.change (commit_consistent consistent path records) fun id unreported => ?_)
  exact (getElem?_models_commit_of_not_mem consistent unreported).symm

theorem compared_of_eq {j : Job} (current : w.cache.epoch = j.epoch) (fields : List FieldRecord) :
    w.compared j fields =
      { w with running := Function.update w.running j (some (.passed fields)) } := by
  rw [World.compared, if_pos current]

theorem compared_of_ne {j : Job} (outdated : w.cache.epoch ≠ j.epoch) (fields : List FieldRecord) :
    w.compared j fields = { w with running := Function.update w.running j (some .closing) } := by
  rw [World.compared, if_neg outdated]

/-- The steps of a job, with nothing in between. -/
theorem Reachable.complete (reachable : Reachable w) {j : Job} (registered : j ∈ w.cache.jobs)
    (idle : w.running j = none) :
    ∃ late, Reachable { w with
      cache := .complete w.graph { w.cache with jobs := w.cache.jobs.erase j } j
      late := late } := by
  have merged := reachable.step (.merge registered)
  have compared := merged.step (.compare (Function.update_self ..))
  have unchanged : Function.update w.running j none = w.running := idle ▸ Function.update_eq_self j _
  rw [FieldCache.complete_eq]
  by_cases current : w.cache.epoch = j.epoch
  · rw [compared_of_eq (w := w.merged j) current] at compared
    have inserted := compared.step (.insert (Function.update_self ..))
    have released := inserted.step (.release (Function.update_self ..))
    dsimp only [World.released, World.inserted, World.merged] at released
    simp only [Function.update_idem, unchanged] at released
    rw [if_pos current]
    exact ⟨_, released⟩
  · rw [compared_of_ne (w := w.merged j) current] at compared
    have released := compared.step (.release (Function.update_self ..))
    dsimp only [World.released, World.merged] at released
    simp only [Function.update_idem, unchanged] at released
    rw [if_neg current]
    exact ⟨_, released⟩

/-- The steps of an invalidation, with nothing in between. -/
theorem Reachable.invalidate (reachable : Reachable w) (before after : List Invalidation)
    {models : List String} (noted : w.pending = before ++ { changed := models } :: after) :
    Reachable { w with
      cache := w.cache.invalidate (w.graph.descendants models).toList
      pending := before ++ after } := by
  have surveyed := reachable.step (.survey noted rfl)
  have bumped := surveyed.step (.bump rfl rfl)
  rw [FieldCache.invalidate_eq]
  exact bumped.step (.drop rfl rfl rfl)

/-- A commit is invalidated between a job's comparison and its insertion. -/
theorem reachable_late_insert {g : Graph} (consistent : g.Consistent) (path : String)
    (records : List ModelRecord) (model : String) :
    ∃ w, Reachable w ∧ w.graph = (commit g path records).2 ∧ w.pending = [] ∧
      w.cache.lists[model]? = some (g.fieldsOf model) := by
  have loaded := (Reachable.start consistent).step (.load model .now (by simp))
  have merged := loaded.step (.merge List.mem_cons_self)
  have passed := merged.step (.compare (Function.update_self ..))
  have invalidated := (passed.commit path records).invalidate [] [] rfl
  have inserted := invalidated.step (.insert (Function.update_self ..))
  exact ⟨_, inserted, rfl, rfl, ExtTreeMap.getElem?_insert_self⟩

/-- A commit is invalidated before a job compares epochs, and another job for the same model keeps its
list in the meantime. -/
theorem reachable_reload {g : Graph} (consistent : g.Consistent) {path : String}
    {records : List ModelRecord} {model : String}
    (reported : model ∈ (commit g path records).1) :
    ∃ w, Reachable w ∧ w.graph = (commit g path records).2 ∧ w.pending = [] ∧ w.late = [] ∧
      w.cache.lists[model]? ≠ none ∧ w.cache.loading[model]? = some 1 ∧
      w.running ⟨0, model, 0, .now⟩ = some .closing ∧ w.UnderWay ⟨1, model, 1, .now⟩ := by
  have loaded := (Reachable.start consistent).step (.load model .now (by simp))
  have merged := loaded.step (.merge List.mem_cons_self)
  have invalidated := (merged.commit path records).invalidate [] [] rfl
  have closing := invalidated.step (.compare (Function.update_self ..))
  have affected := ExtTreeSet.mem_toList.mpr
    ((commit g path records).2.mem_descendants_of_mem reported)
  have reloaded := closing.step (.load model .now
    ((FieldCache.getElem?_foldl_erase ..).trans (if_pos affected)))
  have remerged := reloaded.step
    (.merge (j := ⟨1, model, 1, .now⟩) ((FieldCache.mem_insertJob ..).mpr (Or.inl rfl)))
  have passed := remerged.step (.compare (Function.update_self ..))
  have inserted := passed.step (.insert (Function.update_self ..))
  refine ⟨_, inserted, rfl, rfl, rfl, ?_, ?_, ?_, ?_⟩
  · simp [World.inserted, FieldCache.keep]
  · exact ExtTreeMap.getElem?_insert_self
  · have other : (⟨0, model, 0, .now⟩ : Job) ≠ ⟨1, model, 1, .now⟩ := by simp
    simp only [World.inserted, World.compared, World.merged, World.loaded, World.changed,
      Function.update_of_ne other, Function.update_self]
    rfl
  · exact underWay_of_running (Function.update_self ..)

end Runs

/-! ### All runs -/

/-- Once every change of the graph has been invalidated, each list is what the graph gives, unless it
was kept too late. A job that finishes removes its own entry among the loading ones, and no other. -/
theorem lists_fresh_unless_late {w : World} (reachable : Reachable w) :
    (w.pending = [] → ∀ model fields, w.cache.lists[model]? = some fields → model ∉ w.late →
      fields = w.graph.fieldsOf model) ∧
    ∀ j, w.running j = some .closing →
      (w.released j).cache.loading[j.model]? ≠ some j.number ∧
      ∀ k, k ≠ j → w.UnderWay k → w.cache.loading[k.model]? = some k.number →
        (w.released j).cache.loading[k.model]? = some k.number := by
  have inv := reachable.invariant
  refine ⟨?_, ?_⟩
  · intro done model fields found timely
    rcases inv.kept model fields found with late | ⟨i, member, _⟩ | fresh
    · exact absurd late timely
    · rw [done] at member
      cases member
    · exact fresh
  · intro j closing
    refine ⟨?_, ?_⟩
    · intro left
      dsimp only [World.released] at left
      rw [FieldCache.getElem?_loading_release] at left
      split at left
      · cases left
      · rename_i foreign
        exact foreign ⟨rfl, left⟩
    · intro k different underWay loading
      dsimp only [World.released]
      rw [FieldCache.getElem?_loading_release, if_neg, loading]
      rintro ⟨_, own⟩
      rw [loading] at own
      exact different (inv.ordered.distinct k j underWay (underWay_of_running closing)
        (Option.some.inj own))

def fieldRecords : List ModelRecord := declared "/ws/a.py" (some fieldSource)

/-- An empty graph, with that file committed. -/
def fieldCommit : List String × Graph := commit {} "/ws/a.py" fieldRecords

theorem fieldsOf_ne_nil {g : Graph} {id : String} {r : ModelRecord} (stored : g.get? id = some r)
    (own : r.fields ≠ []) : g.fieldsOf id ≠ [] := by
  rw [← Graph.head?_lineage, List.head?_eq_some_iff] at stored
  obtain ⟨rest, lineage⟩ := stored
  obtain ⟨first, more, fields⟩ := List.exists_cons_of_ne_nil own
  simp [Graph.fieldsOf, lineage, fields, firstOfEach, firstUnseen]

theorem fieldsOf_empty (id : String) : ({} : Graph).fieldsOf id = [] := by
  have lineage : ({} : Graph).lineage id = [] := by
    rw [← List.head?_eq_none_iff, Graph.head?_lineage]
    simp [Graph.get?]
  simp [Graph.fieldsOf, lineage, firstOfEach, firstUnseen]

theorem fieldsOf_fieldCommit : fieldCommit.2.fieldsOf "a" ≠ [] := by
  have stored : (fieldCommit.2.get? "a").any (fun r => !r.fields.isEmpty) = true := by
    rw [fieldCommit, fieldRecords, declared_fieldSource]
    decide
  obtain ⟨r, found, own⟩ := (Option.any_eq_true ..).mp stored
  exact fieldsOf_ne_nil found (by simpa using own)

theorem reloaded_list_fresh : ∃ w, Reachable w ∧ w.pending = [] ∧ w.graph.fieldsOf "a" ≠ [] ∧
    w.cache.lists["a"]? = some (w.graph.fieldsOf "a") ∧
    (w.released ⟨0, "a", 0, .now⟩).cache.loading["a"]? = some 1 := by
  obtain ⟨w, reachable, graph, done, timely, kept, loading, closing, underWay⟩ :=
    reachable_reload Graph.consistent_empty (show "a" ∈ fieldCommit.1 by
      rw [fieldCommit, fieldRecords, declared_fieldSource]
      decide)
  obtain ⟨fresh, own⟩ := lists_fresh_unless_late reachable
  obtain ⟨fields, found⟩ := Option.ne_none_iff_exists'.mp kept
  refine ⟨w, reachable, done, ?_, ?_, ?_⟩
  · rw [graph]
    exact fieldsOf_fieldCommit
  · rw [found, fresh done "a" fields found (by simp [timely])]
  · exact (own _ closing).2 ⟨1, "a", 1, .now⟩ (by simp) underWay loading

/-- A list that was kept too late stays wrong after everything has been invalidated. -/
theorem late_list_stays : ∃ w, Reachable w ∧ w.pending = [] ∧
    ∃ fields, w.cache.lists["a"]? = some fields ∧ fields ≠ w.graph.fieldsOf "a" := by
  obtain ⟨w, reachable, graph, done, found⟩ :=
    reachable_late_insert Graph.consistent_empty "/ws/a.py" fieldRecords "a"
  refine ⟨w, reachable, done, _, found, ?_⟩
  rw [graph, fieldsOf_empty]
  exact Ne.symm fieldsOf_fieldCommit

end FieldJobs

end ModelAtlas.Index
