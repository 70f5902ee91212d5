import ModelAtlas.Proofs.Index.MemberCaches

/-!
# Prompt sessions

Once the first scan is over, a session with a running pool never lets a query wait in vain.
-/

namespace ModelAtlas.Index

open Files Inheritance Model Std

namespace ModelIndex

theorem isReady_updateFiles (t : Tree) (i : ModelIndex) (paths : List String) :
    (updateFiles t i paths).2.isReady = i.isReady := by
  induction paths generalizing i with
  | nil => rfl
  | cons path rest ih => exact ih _

theorem isReady_update (t : Tree) (i : ModelIndex) (paths : List String) :
    (i.update t paths).2.isReady = i.isReady :=
  isReady_updateFiles t i.begin paths

theorem isReady_rebuild (t : Tree) {i : ModelIndex}
    (free : i.rebuilding = true → i.isReady = true) (roots : List Path) :
    (i.rebuild t roots).2.isReady = true := by
  cases running : i.rebuilding with
  | true =>
    rw [rebuild_of_busy t running]
    exact free running
  | false =>
    unfold rebuild startRebuild
    simp only [running, Bool.false_eq_true, if_false]
    rfl

end ModelIndex

namespace Session

structure Prompt (s : Session) : Prop where
  running : s.pool.fate = .ran
  ready : s.index.isReady = true
  due : ∀ j ∈ s.fields.jobs, j.due = .now

theorem Prompt.passUntil {s : Session} (prompt : s.Prompt) (moment newest : Nat) :
    (s.passUntil moment newest).Prompt where
  running := prompt.running
  ready := prompt.ready
  due j member := prompt.due j (FieldCache.mem_jobs_runUntil member)

theorem Prompt.awaitReady {s : Session} (prompt : s.Prompt) : s.awaitReady.2 = s := by
  unfold Session.awaitReady
  rw [if_pos prompt.ready]

theorem Prompt.nextDue {s : Session} (prompt : s.Prompt) : s.nextDue = .now := by
  have others : ∀ k, (s.fields.jobs.map (·.due)).getD k .now = .now :=
    fun k => getD_due (P := (· = .now)) rfl prompt.due k
  unfold Session.nextDue
  dsimp only
  rw [others, ite_self, prompt.running, prompt.ready]
  rfl

theorem Prompt.load {s : Session} (prompt : s.Prompt) (model : String) : (s.load model).Prompt := by
  unfold Session.load
  split
  · exact prompt
  · refine ⟨prompt.running, prompt.ready, ?_⟩
    intro j member
    rcases (FieldCache.mem_insertJob _ _ _).mp member with rfl | old
    · exact prompt.nextDue
    · exact prompt.due j old

theorem Prompt.answersInTime {s : Session} (prompt : s.Prompt) (sound : s.Sound)
    (model : String) : s.answersInTime model = true := by
  obtain ⟨j, found, _⟩ := sound.jobOf?_load prompt.running model
  have due : j.due = .now := by
    unfold jobOf? at found
    split at found
    · exact (prompt.load model).due j (List.mem_of_find?_eq_some found)
    · cases found
  have finished : ((s.load model).waitEnd s.fields.nextJob model).2 = true := by
    unfold waitEnd
    rw [found]
    simp only [Job.isDone, due, if_true]
  rw [Session.answersInTime, finished, Bool.or_true]

theorem Prompt.resolveFields {s : Session} (prompt : s.Prompt) (model : String) :
    (s.resolveFields model).2.Prompt := by
  unfold Session.resolveFields
  split
  · exact prompt
  · dsimp only
    split <;> exact (prompt.load model).passUntil _ _

theorem Prompt.resolveComplete {s : Session} (prompt : s.Prompt) (model : String) :
    (s.resolveComplete model).2.Prompt := by
  unfold Session.resolveComplete
  split
  · exact prompt
  · dsimp only
    split
    · exact (prompt.load model).passUntil _ _
    · exact (prompt.load model).passUntil _ _
    · exact prompt.load model

theorem Prompt.walkFields {s : Session} (prompt : s.Prompt) (model : String)
    (names : List String) : (s.walkFields model names).2.Prompt := by
  induction names generalizing s model with
  | nil => exact prompt
  | cons name rest ih =>
    have first := prompt.resolveComplete model
    unfold Session.walkFields
    dsimp only
    split
    · exact first
    · split
      · exact first
      · split
        · exact first
        · exact ih first _

theorem Prompt.resolveMethods {s : Session} (prompt : s.Prompt) (model : String) :
    (s.resolveMethods model).2.Prompt := by
  unfold Session.resolveMethods Session.read
  split
  · exact prompt
  · dsimp only
    rw [prompt.awaitReady]
    exact ⟨prompt.running, prompt.ready, prompt.due⟩

/-- A rebuild makes a session prompt, unless another one is running that has not come to its end. -/
theorem Sound.prompt_rebuild {s : Session} (sound : s.Sound) (running : s.pool.fate = .ran)
    (free : s.index.rebuilding = true → s.index.isReady = true) (roots : List Path) :
    (s.rebuild roots).2.Prompt := by
  obtain ⟨scanned, kept⟩ := sound.scanning roots
  unfold Session.rebuild
  rw [← kept.pool] at running
  rw [← kept.index] at free
  generalize s.scanning roots = s at scanned running free ⊢
  dsimp only
  refine ⟨running, ?_, ?_⟩
  · exact ModelIndex.isReady_rebuild s.tree free roots
  · intro j member
    obtain ⟨k, old, rfl⟩ := List.mem_map.mp member
    have finishes := scanned.served running k old
    simp [finishes]

theorem Prompt.clear {s : Session} (prompt : s.Prompt) : s.clearFields.clearMethods.Prompt :=
  ⟨prompt.running, prompt.ready, prompt.due⟩

theorem Prompt.update {s : Session} (prompt : s.Prompt) (paths : List String) :
    (s.update paths).2.Prompt := by
  have idle : (if paths.isEmpty then s else s.idle).Prompt := by
    split
    · exact prompt
    · exact prompt.passUntil _ _
  unfold Session.update
  dsimp only
  refine ⟨idle.running, ?_, idle.due⟩
  rw [ModelIndex.isReady_update]
  exact idle.ready

theorem Prompt.invalidate {s : Session} (prompt : s.Prompt) (models : List String) :
    ((s.invalidateFields models).invalidateMethods models).Prompt :=
  ⟨prompt.running, prompt.ready, prompt.due⟩

end Session

end ModelAtlas.Index
