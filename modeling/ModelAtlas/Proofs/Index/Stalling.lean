import ModelAtlas.Proofs.Index.MemberCaches

/-!
# Stalled sessions

While the pool of a session runs no job, nothing is ever computed, so no query for fields is answered in
time.
-/

namespace ModelAtlas.Index

open Files Inheritance Model Std

theorem FieldCache.runUntil_of_never {c : FieldCache} (never : ∀ j ∈ c.jobs, j.due = .never)
    (g : Graph) (moment newest : Nat) : c.runUntil g moment newest = c := by
  have waiting : ∀ j ∈ c.jobs, Job.isDone moment newest j = false := by
    intro j member
    rw [Job.isDone, never j member]
  have none : c.jobs.filter (Job.isDone moment newest) = [] :=
    List.filter_eq_nil_iff.mpr (by simpa using waiting)
  have all : c.jobs.filter (!Job.isDone moment newest ·) = c.jobs :=
    List.filter_eq_self.mpr (by simpa using waiting)
  rw [runUntil_eq, none, all]
  rfl

namespace Session

structure Stalled (s : Session) : Prop where
  stopped : s.pool.fate ≠ .ran
  lists : ∀ id : String, s.fields.lists[id]? = none
  due : ∀ j ∈ s.fields.jobs, j.due = .never

theorem stalled_of_cold {s : Session} (stopped : s.pool.fate ≠ .ran) (fields : s.fields = {}) :
    s.Stalled := by
  refine ⟨stopped, ?_, ?_⟩
  · simp [fields]
  · simp [fields]

theorem Stalled.passUntil {s : Session} (stalled : s.Stalled) (moment newest : Nat) :
    (s.passUntil moment newest).Stalled := by
  have same : (s.passUntil moment newest).fields = s.fields :=
    FieldCache.runUntil_of_never stalled.due _ _ _
  exact ⟨stalled.stopped, same ▸ stalled.lists, same ▸ stalled.due⟩

theorem Stalled.awaitReady {s : Session} (stalled : s.Stalled) : s.awaitReady.2.Stalled := by
  unfold Session.awaitReady
  split
  · exact stalled
  · exact stalled.passUntil _ _

theorem Stalled.nextDue {s : Session} (stalled : s.Stalled) : s.nextDue = .never := by
  unfold Session.nextDue
  dsimp only
  split
  · rename_i running _
    exact absurd running stalled.stopped
  · rename_i running _
    exact absurd running stalled.stopped
  · rfl

theorem Stalled.load {s : Session} (stalled : s.Stalled) (model : String) :
    (s.load model).Stalled := by
  unfold Session.load
  split
  · exact stalled
  · refine ⟨stalled.stopped, stalled.lists, fun j member => ?_⟩
    rcases (FieldCache.mem_insertJob _ _ _).mp member with rfl | old
    · exact stalled.nextDue
    · exact stalled.due j old

theorem Stalled.not_answersInTime {s : Session} (stalled : s.Stalled) (model : String) :
    s.answersInTime model = false := by
  have uncached : s.fields.lists.contains model = false := by
    rw [ExtTreeMap.contains_eq_isSome_getElem?, stalled.lists]
    rfl
  rw [answersInTime, uncached, Bool.false_or]
  unfold waitEnd
  dsimp only
  split
  · rename_i j found
    have due : j.due = .never := by
      unfold jobOf? at found
      split at found
      · exact (stalled.load model).due j (List.mem_of_find?_eq_some found)
      · cases found
    rw [Job.isDone, due]
    dsimp only
    rw [if_neg Bool.false_ne_true]
    split <;> rfl
  · rfl

/-! ### Queries -/

theorem Stalled.resolveFields {s : Session} (stalled : s.Stalled) (model : String) :
    (s.resolveFields model).2.Stalled := by
  unfold Session.resolveFields
  split
  · exact stalled
  · dsimp only
    split <;> exact (stalled.load model).passUntil _ _

theorem Stalled.resolveComplete {s : Session} (stalled : s.Stalled) (model : String) :
    (s.resolveComplete model).2.Stalled := by
  unfold Session.resolveComplete
  split
  · exact stalled
  · dsimp only
    split
    · exact (stalled.load model).passUntil _ _
    · exact (stalled.load model).passUntil _ _
    · exact stalled.load model

theorem Stalled.walkFields {s : Session} (stalled : s.Stalled) (model : String)
    (names : List String) : (s.walkFields model names).2.Stalled := by
  induction names generalizing s model with
  | nil => exact stalled
  | cons name rest ih =>
    have first := stalled.resolveComplete model
    unfold Session.walkFields
    dsimp only
    split
    · exact first
    · split
      · exact first
      · split
        · exact first
        · exact ih first _

theorem Stalled.resolveMethods {s : Session} (stalled : s.Stalled) (model : String) :
    (s.resolveMethods model).2.Stalled := by
  have waited := stalled.awaitReady
  unfold Session.resolveMethods Session.read
  split
  · exact stalled
  · exact ⟨waited.stopped, waited.lists, waited.due⟩

/-! ### Changes of the index -/

theorem Stalled.clear {s : Session} (stalled : s.Stalled) : s.clearFields.clearMethods.Stalled :=
  ⟨stalled.stopped, fun _ => ExtTreeMap.getElem?_empty, stalled.due⟩

theorem Stalled.rebuild {s : Session} (stalled : s.Stalled) (roots : List Path) :
    (s.rebuild roots).2.Stalled := by
  have scanned : (s.scanning roots).Stalled := by
    unfold Session.scanning
    split
    · exact stalled
    · exact stalled.passUntil _ _
  refine ⟨scanned.stopped, scanned.lists, fun j member => ?_⟩
  obtain ⟨k, old, rfl⟩ := List.mem_map.mp member
  simp [scanned.due k old]

theorem Stalled.update {s : Session} (stalled : s.Stalled) (paths : List String) :
    (s.update paths).2.Stalled := by
  have idle : (if paths.isEmpty then s else s.idle).Stalled := by
    split
    · exact stalled
    · exact stalled.passUntil _ _
  exact ⟨idle.stopped, idle.lists, idle.due⟩

theorem Stalled.invalidate {s : Session} (stalled : s.Stalled) (models : List String) :
    ((s.invalidateFields models).invalidateMethods models).Stalled := by
  refine ⟨stalled.stopped, fun id => ?_, stalled.due⟩
  show (models.foldl ExtTreeMap.erase s.fields.lists)[id]? = none
  rw [FieldCache.getElem?_foldl_erase, stalled.lists, ite_self]

end Session

end ModelAtlas.Index
