import ModelAtlas.Index.Session
import ModelAtlas.Proofs.Index.Updates

/-!
# Member caches

A session is sound if its caches hold what the graph gives, and if every computation that a query may
wait for will finish. Everything that a session does on behalf of a query keeps it sound, and a sound
session answers as the graph does.
-/

namespace ModelAtlas.Index

open Files Inheritance Model Std

/-! ### Field lists -/

namespace FieldCache

def Fresh (c : FieldCache) (g : Graph) : Prop :=
  ∀ (id : String) (fields : List FieldRecord), c.lists[id]? = some fields → fields = g.fieldsOf id

/-- Every computation that counts as loading is among the jobs. -/
def Attended (c : FieldCache) : Prop :=
  ∀ (model : String) (number : Nat), c.loading[model]? = some number →
    ∃ j ∈ c.jobs, j.number = number ∧ j.model = model

theorem Fresh.complete {g : Graph} {c : FieldCache} (fresh : c.Fresh g) (j : Job) :
    (complete g c j).Fresh g := by
  intro id fields found
  unfold FieldCache.complete at found
  dsimp only at found
  split at found
  · rw [ExtTreeMap.getElem?_insert] at found
    split at found
    · rename_i same
      rw [← Option.some.inj found, Std.compare_eq_iff_eq.mp same]
    · exact fresh id fields found
  · exact fresh id fields found

theorem Fresh.foldl_complete {g : Graph} {c : FieldCache} (fresh : c.Fresh g) (done : List Job) :
    (done.foldl (FieldCache.complete g) c).Fresh g := by
  induction done generalizing c with
  | nil => exact fresh
  | cons j rest ih => exact ih (fresh.complete j)

theorem jobs_foldl_complete (g : Graph) (c : FieldCache) (done : List Job) :
    (done.foldl (complete g) c).jobs = c.jobs := by
  induction done generalizing c with
  | nil => rfl
  | cons j rest ih => exact ih _

/-- What still counts as loading did before, and none of the finished jobs was for it. -/
theorem loading_foldl_complete {g : Graph} {c : FieldCache} {done : List Job} {model : String}
    {number : Nat} (loading : (done.foldl (complete g) c).loading[model]? = some number) :
    c.loading[model]? = some number ∧ ∀ j ∈ done, j.number = number → j.model ≠ model := by
  induction done generalizing c with
  | nil => exact ⟨loading, by simp⟩
  | cons j rest ih =>
    obtain ⟨after, others⟩ := ih loading
    have kept : c.loading[model]? = some number ∧ (j.number = number → j.model ≠ model) := by
      unfold complete at after
      dsimp only at after
      split at after
      · rename_i own
        rw [ExtTreeMap.getElem?_erase] at after
        split at after
        · cases after
        · rename_i different
          exact ⟨after, fun _ same => different (Std.compare_eq_iff_eq.mpr same)⟩
      · rename_i foreign
        refine ⟨after, ?_⟩
        rintro rfl rfl
        exact foreign after
    exact ⟨kept.1, List.forall_mem_cons.mpr ⟨kept.2, others⟩⟩

theorem runUntil_eq (g : Graph) (moment newest : Nat) (c : FieldCache) :
    c.runUntil g moment newest =
      (c.jobs.filter (Job.isDone moment newest)).foldl (complete g)
        { c with jobs := c.jobs.filter (!Job.isDone moment newest ·) } := by
  unfold runUntil
  rw [List.partition_eq_filter_filter]
  rfl

theorem Fresh.runUntil {g : Graph} {c : FieldCache} (fresh : c.Fresh g) (moment newest : Nat) :
    (c.runUntil g moment newest).Fresh g := by
  rw [runUntil_eq]
  apply Fresh.foldl_complete
  exact fresh

theorem mem_jobs_runUntil {g : Graph} {moment newest : Nat} {c : FieldCache} {j : Job}
    (member : j ∈ (c.runUntil g moment newest).jobs) : j ∈ c.jobs := by
  rw [runUntil_eq, jobs_foldl_complete] at member
  exact (List.mem_filter.mp member).1

theorem Attended.runUntil {c : FieldCache} (attended : c.Attended) (g : Graph)
    (moment newest : Nat) : (c.runUntil g moment newest).Attended := by
  intro model number loading
  rw [runUntil_eq] at loading ⊢
  obtain ⟨before, unfinished⟩ := loading_foldl_complete loading
  obtain ⟨j, member, isNumber, isModel⟩ := attended model number before
  refine ⟨j, ?_, isNumber, isModel⟩
  rw [jobs_foldl_complete, List.mem_filter]
  refine ⟨member, ?_⟩
  cases finished : Job.isDone moment newest j with
  | false => rfl
  | true => exact absurd isModel (unfinished j (List.mem_filter.mpr ⟨member, finished⟩) isNumber)

theorem mem_insertJob (j k : Job) (jobs : List Job) : k ∈ insertJob j jobs ↔ k = j ∨ k ∈ jobs := by
  induction jobs with
  | nil => simp [insertJob]
  | cons first rest ih =>
    unfold insertJob
    split
    · simp
    · rw [List.mem_cons, ih, List.mem_cons]
      grind

theorem Attended.register {c : FieldCache} (attended : c.Attended) (model : String) (due : Due) :
    (c.register model due).Attended := by
  intro other number loading
  unfold FieldCache.register at loading ⊢
  dsimp only at loading ⊢
  rw [ExtTreeMap.getElem?_insert] at loading
  split at loading
  · rename_i same
    exact ⟨_, (mem_insertJob _ _ _).mpr (Or.inl rfl), Option.some.inj loading,
      Std.compare_eq_iff_eq.mp same⟩
  · obtain ⟨j, member, isNumber, isModel⟩ := attended other number loading
    exact ⟨j, (mem_insertJob _ _ _).mpr (Or.inr member), isNumber, isModel⟩

theorem Attended.wake {c : FieldCache} (attended : c.Attended) : c.wake.Attended := by
  intro model number loading
  obtain ⟨j, member, isNumber, isModel⟩ := attended model number loading
  refine ⟨_, List.mem_map_of_mem member, ?_⟩
  split
  · exact ⟨isNumber, isModel⟩
  · exact ⟨isNumber, isModel⟩

theorem getElem?_foldl_erase {α : Type} (m : ExtTreeMap String α) (keys : List String) (k : String) :
    (keys.foldl ExtTreeMap.erase m)[k]? = if k ∈ keys then none else m[k]? := by
  induction keys generalizing m with
  | nil => simp
  | cons key rest ih =>
    rw [List.foldl_cons, ih, ExtTreeMap.getElem?_erase]
    simp only [Std.compare_eq_iff_eq, List.mem_cons]
    grind

theorem Attended.invalidate {c : FieldCache} (attended : c.Attended) (models : List String) :
    (c.invalidate models).Attended := by
  intro model number loading
  unfold FieldCache.invalidate at loading
  dsimp only at loading
  rw [getElem?_foldl_erase] at loading
  split at loading
  · cases loading
  · exact attended model number loading

theorem attended_clear (c : FieldCache) : c.clear.Attended := by
  intro model number loading
  simp [clear] at loading

theorem fresh_clear (c : FieldCache) (g : Graph) : c.clear.Fresh g := by
  intro id fields found
  simp [clear] at found

end FieldCache

namespace MethodCache

def Fresh (c : MethodCache) (g : Graph) : Prop :=
  ∀ (id : String) (methods : List MethodRecord), c.lists[id]? = some methods →
    methods = g.methodsOf id

theorem Fresh.store {c : MethodCache} {g : Graph} (fresh : c.Fresh g) (epoch : Nat) (id : String) :
    (c.store epoch id (g.methodsOf id)).Fresh g := by
  intro other methods found
  unfold MethodCache.store at found
  split at found
  · dsimp only at found
    rw [ExtTreeMap.getElem?_insert] at found
    split at found
    · rename_i same
      rw [← Option.some.inj found, Std.compare_eq_iff_eq.mp same]
    · exact fresh other methods found
  · exact fresh other methods found

theorem fresh_clear (c : MethodCache) (g : Graph) : c.clear.Fresh g := by
  intro id methods found
  simp [clear] at found

end MethodCache

/-! ### Sessions -/

namespace Session

structure Sound (s : Session) : Prop where
  consistent : s.index.graph.Consistent
  fields : s.fields.Fresh s.index.graph
  methods : s.methods.Fresh s.index.graph
  attended : s.fields.Attended
  served : s.pool.fate = .ran → ∀ j ∈ s.fields.jobs, j.due ≠ .never

theorem sound_of_cold {s : Session} (consistent : s.index.graph.Consistent) (fields : s.fields = {})
    (methods : s.methods = {}) : s.Sound := by
  refine ⟨consistent, ?_, ?_, ?_, ?_⟩
  · intro id list found
    simp [fields] at found
  · intro id list found
    simp [methods] at found
  · intro model number loading
    simp [fields] at loading
  · intro _ j member
    simp [fields] at member

theorem sound_of_empty {s : Session} (graph : s.index.graph = {}) (fields : s.fields = {})
    (methods : s.methods = {}) : s.Sound :=
  sound_of_cold (graph ▸ Graph.consistent_empty) fields methods

theorem Sound.passUntil {s : Session} (sound : s.Sound) (moment newest : Nat) :
    (s.passUntil moment newest).Sound where
  consistent := sound.consistent
  fields := sound.fields.runUntil _ _
  methods := sound.methods
  attended := sound.attended.runUntil _ _ _
  served open_ j member := sound.served open_ j (FieldCache.mem_jobs_runUntil member)

theorem Sound.awaitReady {s : Session} (sound : s.Sound) : s.awaitReady.2.Sound := by
  unfold Session.awaitReady
  split
  · exact sound
  · exact sound.passUntil _ _

/-- What queries leave alone. -/
structure Keeps (s t : Session) : Prop where
  index : t.index = s.index
  pool : t.pool = s.pool
  tree : t.tree = s.tree

theorem Keeps.trans {s t u : Session} (first : s.Keeps t) (second : t.Keeps u) : s.Keeps u :=
  ⟨second.index.trans first.index, second.pool.trans first.pool, second.tree.trans first.tree⟩

theorem keeps_passUntil (s : Session) (moment newest : Nat) : s.Keeps (s.passUntil moment newest) :=
  ⟨rfl, rfl, rfl⟩

theorem keeps_awaitReady (s : Session) : s.Keeps s.awaitReady.2 := by
  unfold awaitReady
  split <;> exact ⟨rfl, rfl, rfl⟩

theorem keeps_load (s : Session) (model : String) : s.Keeps (s.load model) := by
  unfold load
  split <;> exact ⟨rfl, rfl, rfl⟩

theorem getD_due {s : Session} {P : Due → Prop} (now : P .now) (all : ∀ j ∈ s.fields.jobs, P j.due)
    (k : Nat) : P ((s.fields.jobs.map (·.due)).getD k .now) := by
  rw [List.getD_eq_getElem?_getD]
  cases found : (s.fields.jobs.map (·.due))[k]? with
  | none => exact now
  | some due =>
    obtain ⟨j, member, rfl⟩ := List.mem_map.mp (List.mem_of_getElem? found)
    exact all j member

theorem nextDue_ne_never {s : Session} (sound : s.Sound) (running : s.pool.fate = .ran) :
    s.nextDue ≠ .never := by
  have others : ∀ k, (s.fields.jobs.map (·.due)).getD k .now ≠ .never :=
    fun k => getD_due (P := (· ≠ .never)) (by simp) (sound.served running) k
  unfold nextDue
  dsimp only
  rw [running]
  by_cases enough : (s.fields.jobs.map (·.due)).length < s.pool.permits.toNat
  · rw [if_pos enough]
    dsimp only
    split <;> simp
  · rw [if_neg enough]
    split
    · split <;> simp
    · split <;> simp
    · rename_i notNow notAfter
      intro _
      cases given : (s.fields.jobs.map (·.due)).getD _ .now with
      | now => exact notNow rfl given
      | after m => exact notAfter m rfl given
      | never => exact others _ given

theorem Sound.load {s : Session} (sound : s.Sound) (model : String) : (s.load model).Sound := by
  unfold Session.load
  split
  · exact sound
  · refine ⟨sound.consistent, sound.fields, sound.methods, sound.attended.register _ _, ?_⟩
    intro running j member
    rcases (FieldCache.mem_insertJob _ _ _).mp member with rfl | old
    · exact nextDue_ne_never sound running
    · exact sound.served running j old

theorem loading_load (s : Session) (model : String) :
    ∃ number, (s.load model).fields.loading[model]? = some number := by
  unfold load
  split
  · rename_i known
    exact (mem_iff_getElem?_isSome _ _).mp (ExtTreeMap.mem_iff_contains.mpr known)
  · exact ⟨s.fields.nextJob, ExtTreeMap.getElem?_insert_self⟩

/-- While the pool runs jobs, whatever a query loads will be there. -/
theorem Sound.jobOf?_load {s : Session} (sound : s.Sound) (running : s.pool.fate = .ran)
    (model : String) : ∃ j, (s.load model).jobOf? model = some j ∧ j.due ≠ .never := by
  have loaded := sound.load model
  have pool := (s.keeps_load model).pool
  obtain ⟨number, loading⟩ := s.loading_load model
  obtain ⟨k, member, isNumber, _⟩ := loaded.attended model number loading
  unfold jobOf?
  rw [loading]
  dsimp only
  cases found : (s.load model).fields.jobs.find? (·.number == number) with
  | none => exact absurd (beq_iff_eq.mpr isNumber) (List.find?_eq_none.mp found k member)
  | some j =>
    exact ⟨j, rfl, loaded.served (pool ▸ running) j (List.mem_of_find?_eq_some found)⟩

/-! ### Queries -/

/-- Whether the fields of a model are there before a query has to give up. -/
def answersInTime (s : Session) (model : String) : Bool :=
  s.fields.lists.contains model || ((s.load model).waitEnd s.fields.nextJob model).2

theorem Sound.resolveFields {s : Session} (sound : s.Sound) (model : String) :
    (s.resolveFields model).2.Sound ∧ s.Keeps (s.resolveFields model).2 := by
  unfold Session.resolveFields
  split
  · exact ⟨sound, rfl, rfl, rfl⟩
  · dsimp only
    split
    · exact ⟨(sound.load model).passUntil _ _, (s.keeps_load model).trans (keeps_passUntil _ _ _)⟩
    · exact ⟨(sound.load model).passUntil _ _, (s.keeps_load model).trans (keeps_passUntil _ _ _)⟩

theorem Sound.resolveFields_eq {s : Session} (sound : s.Sound) {model : String}
    (inTime : s.answersInTime model = true) :
    (s.resolveFields model).1 = s.index.graph.fieldsOf model := by
  unfold Session.resolveFields
  split
  · rename_i fields cached
    exact sound.fields model fields cached
  · rename_i uncached
    have absent : s.fields.lists.contains model = false := by
      rw [ExtTreeMap.contains_eq_isSome_getElem?, uncached]
      rfl
    rw [answersInTime, absent, Bool.false_or] at inTime
    dsimp only
    split
    · rw [(s.keeps_load model).index]
    · rename_i late
      rw [late] at inTime
      cases inTime

theorem Sound.resolveComplete {s : Session} (sound : s.Sound) (model : String) :
    (s.resolveComplete model).2.Sound ∧ s.Keeps (s.resolveComplete model).2 := by
  unfold Session.resolveComplete
  split
  · exact ⟨sound, rfl, rfl, rfl⟩
  · dsimp only
    split
    · exact ⟨(sound.load model).passUntil _ _, (s.keeps_load model).trans (keeps_passUntil _ _ _)⟩
    · exact ⟨(sound.load model).passUntil _ _, (s.keeps_load model).trans (keeps_passUntil _ _ _)⟩
    · exact ⟨sound.load model, s.keeps_load model⟩

theorem Sound.resolveComplete_eq {s : Session} (sound : s.Sound) (running : s.pool.fate = .ran)
    (model : String) : (s.resolveComplete model).1 = s.index.graph.fieldsOf model := by
  unfold Session.resolveComplete
  split
  · rename_i fields cached
    exact sound.fields model fields cached
  · obtain ⟨j, found, finishes⟩ := sound.jobOf?_load running model
    dsimp only
    rw [found, Option.map_some, Option.getD_some]
    split
    · rw [(s.keeps_load model).index]
    · rw [(s.keeps_load model).index]
    · rename_i never
      exact absurd never finishes

theorem Sound.walkFields {s : Session} (sound : s.Sound) (model : String) (names : List String) :
    (s.walkFields model names).2.Sound ∧ s.Keeps (s.walkFields model names).2 := by
  induction names generalizing s model with
  | nil => exact ⟨sound, rfl, rfl, rfl⟩
  | cons name rest ih =>
    have first := sound.resolveComplete model
    unfold Session.walkFields
    dsimp only
    split
    · exact first
    · split
      · exact first
      · split
        · exact first
        · rename_i comodel _
          have later := ih first.1 comodel
          exact ⟨later.1, first.2.trans later.2⟩

theorem Sound.walkFields_eq {s : Session} (sound : s.Sound) (running : s.pool.fate = .ran)
    (model : String) (names : List String) :
    (s.walkFields model names).1 = s.index.graph.walkFields model names := by
  induction names generalizing s model with
  | nil => rfl
  | cons name rest ih =>
    have first := sound.resolveComplete model
    have fields := sound.resolveComplete_eq running model
    unfold Session.walkFields
    dsimp only
    rw [fields]
    cases rest with
    | nil =>
      rw [Graph.walkFields]
      cases findField (s.index.graph.fieldsOf model) name with
      | none => rfl
      | some field => rfl
    | cons second others =>
      unfold Graph.walkFields
      cases findField (s.index.graph.fieldsOf model) name with
      | none => rfl
      | some field =>
        simp only [Option.bind_some, List.isEmpty_cons, Bool.false_eq_true, if_false]
        cases field.comodel with
        | none => rfl
        | some comodel =>
          have later := ih first.1 (first.2.pool ▸ running) comodel
          rwa [first.2.index] at later

theorem Sound.resolveMethods {s : Session} (sound : s.Sound) (model : String) :
    (s.resolveMethods model).1 = s.index.graph.methodsOf model ∧
      (s.resolveMethods model).2.Sound ∧ s.Keeps (s.resolveMethods model).2 := by
  unfold Session.resolveMethods
  split
  · rename_i methods cached
    exact ⟨sound.methods model methods cached, sound, rfl, rfl, rfl⟩
  · have waited := sound.awaitReady
    have kept := s.keeps_awaitReady
    refine ⟨?_, ?_, kept.index, kept.pool, kept.tree⟩
    · unfold Session.read
      dsimp only
      rw [kept.index]
    · exact ⟨waited.consistent, waited.fields, waited.methods.store _ _, waited.attended,
        waited.served⟩

/-! ### Changes of the index -/

theorem Sound.scanning {s : Session} (sound : s.Sound) (roots : List Path) :
    (s.scanning roots).Sound ∧ s.Keeps (s.scanning roots) := by
  unfold Session.scanning
  split
  · exact ⟨sound, rfl, rfl, rfl⟩
  · exact ⟨sound.passUntil _ _, s.keeps_passUntil _ _⟩

theorem wake_served {s : Session} (sound : s.Sound) (running : s.pool.fate = .ran) :
    ∀ j ∈ s.fields.wake.jobs, j.due ≠ .never := by
  intro j member
  obtain ⟨k, old, rfl⟩ := List.mem_map.mp member
  have finishes := sound.served running k old
  simp [finishes]

/-- A rebuild that takes place is followed by clearing the caches; one that does not changes nothing
that they depend on. -/
theorem Sound.rebuild {s : Session} (sound : s.Sound) (roots : List Path) :
    (s.rebuild roots).2.clearFields.clearMethods.Sound ∧
      ((s.rebuild roots).1 = none → (s.rebuild roots).2.Sound) := by
  obtain ⟨scanned, _⟩ := sound.scanning roots
  unfold Session.rebuild
  generalize s.scanning roots = s at scanned ⊢
  dsimp only
  refine ⟨⟨?_, FieldCache.fresh_clear _ _, MethodCache.fresh_clear _ _,
    FieldCache.attended_clear _, wake_served scanned⟩, ?_⟩
  · exact ModelIndex.rebuild_consistent s.tree scanned.consistent roots
  · intro refused
    have busy : s.index.rebuilding = true := by
      cases running : s.index.rebuilding with
      | true => rfl
      | false => simp [ModelIndex.rebuild, ModelIndex.startRebuild, running] at refused
    rw [ModelIndex.rebuild_of_busy s.tree busy]
    exact ⟨scanned.consistent, scanned.fields, scanned.methods, scanned.attended.wake,
      wake_served scanned⟩

theorem update_eq (s : Session) (paths : List String) :
    (s.update paths).1 = (s.index.update s.tree paths).1 ∧
      (s.update paths).2.index = (s.index.update s.tree paths).2 := by
  unfold update
  cases paths <;> exact ⟨rfl, rfl⟩

theorem fieldsOf_congr {g h : Graph} {id : String} (lineage : g.lineage id = h.lineage id) :
    g.fieldsOf id = h.fieldsOf id := by
  rw [Graph.fieldsOf, Graph.fieldsOf, lineage]

theorem methodsOf_congr {g h : Graph} {id : String} (lineage : g.lineage id = h.lineage id) :
    g.methodsOf id = h.methodsOf id := by
  rw [Graph.methodsOf, Graph.methodsOf, lineage]

/-- Dropping the members of all descendants of what an update reports drops enough. -/
theorem Sound.update {s : Session} (sound : s.Sound) (paths : List String) :
    let (changed, t) := s.update paths
    let affected := (t.index.graph.descendants changed.toList).toList
    ((t.invalidateFields affected).invalidateMethods affected).Sound := by
  have idle : (if paths.isEmpty then s else s.idle).Sound := by
    split
    · exact sound
    · exact sound.passUntil _ _
  unfold Session.update
  generalize (if paths.isEmpty then s else s.idle) = s at idle ⊢
  dsimp only
  have same : ∀ id, id ∉ ((s.index.update s.tree paths).2.graph.descendants
      (s.index.update s.tree paths).1.toList).toList →
      s.index.graph.lineage id = (s.index.update s.tree paths).2.graph.lineage id := by
    intro id unaffected
    apply Classical.byContradiction
    intro different
    exact unaffected (ExtTreeSet.mem_toList.mpr
      (ModelIndex.update_lineage_ne s.tree idle.consistent different))
  refine ⟨ModelIndex.update_consistent s.tree idle.consistent paths, ?_, ?_,
    idle.attended.invalidate _, idle.served⟩
  · intro id fields found
    have kept : (_ : Option _) = some fields := (FieldCache.getElem?_foldl_erase _ _ _).symm.trans found
    split at kept
    · cases kept
    · rename_i unaffected
      rw [idle.fields id fields kept]
      exact fieldsOf_congr (same id unaffected)
  · intro id methods found
    have kept : (_ : Option _) = some methods := (FieldCache.getElem?_foldl_erase _ _ _).symm.trans found
    split at kept
    · cases kept
    · rename_i unaffected
      rw [idle.methods id methods kept]
      exact methodsOf_congr (same id unaffected)

end Session

end ModelAtlas.Index
