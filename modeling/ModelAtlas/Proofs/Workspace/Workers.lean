import ModelAtlas.Proofs.Workspace.Freshness

/-!
# Workers of a configuration

The pool of a workspace never has more permits than workers were asked for. It has none, and the
first scan waits for ever, if the lower 32 bits of their number are zero and it is not so large that
another limit takes its place.
-/

namespace ModelAtlas

open Config Files Index Json

/-! ### Permits -/

namespace Index.Pool

theorem toNat_permits_ofSize (size : Nat) :
    (ofSize size).permits.toNat = min (max size 1) maxPermits % UInt32.size := by
  rw [ofSize, Nat.toUInt32_eq, UInt32.toNat_ofNat']

theorem maxPermits_mod : maxPermits % UInt32.size = UInt32.size - 1 := by decide

theorem permits_ofSize_le (size : Nat) : (ofSize size).permits.toNat ≤ max size 1 := by
  rw [toNat_permits_ofSize]
  exact Nat.le_trans (Nat.mod_le _ _) (Nat.min_le_left _ _)

theorem permits_ofSize_eq_zero_iff {size : Nat} (proper : 1 ≤ size) :
    (ofSize size).permits = 0 ↔ UInt32.size ∣ size ∧ size ≤ maxPermits := by
  rw [← UInt32.toNat_inj, toNat_permits_ofSize, Nat.max_eq_left proper]
  by_cases countable : size ≤ maxPermits
  · rw [Nat.min_eq_left countable, Nat.dvd_iff_mod_eq_zero]
    exact (and_iff_left countable).symm
  · -- the size in place of it has all of its lower 32 bits set
    rw [Nat.min_eq_right (Nat.le_of_not_le countable), maxPermits_mod]
    exact iff_of_false (by decide) fun both => countable both.2

theorem fate_ofSize (size : Nat) : (ofSize size).fate = .ran ↔ (ofSize size).permits ≠ 0 := by
  change (if (ofSize size).permits = 0 then JobFate.waiting else .ran) = .ran ↔ _
  split
  · rename_i none
    exact iff_of_false nofun fun some => some none
  · rename_i some
    exact iff_of_true rfl some

end Index.Pool

/-! ### Configurations -/

theorem Config.Settings.one_le_workers (config : Config) (root : String) :
    1 ≤ (Settings.resolve config root).workers := by
  unfold resolve
  dsimp only
  cases (config.index.getD {}).workers with
  | none => exact Nat.le_succ 1
  | some n => exact Nat.le_max_right n 1

/-- Asks for `n` workers and leaves everything else as it is. -/
def Config.askFor (n : Nat) : Value :=
  .object [("index", .object [("workers", .number (.natural n))])]

theorem Config.ofJson_askFor (n : Nat) :
    ofJson (askFor n) = .ok { index := some { workers := some n } } := by
  rfl

/-! ### Open workspaces -/

namespace Workspace

/-- The settings of a project that is opened. -/
def settingsAt (tree : Tree) (root : String) (config : Option Config) : Settings :=
  .resolve (config.getD (Config.load tree root)) root

theorem rebuild_pool {w : Workspace} (sound : w.session.Sound) :
    w.rebuild.2.session.pool = w.session.pool := by
  obtain ⟨_, kept⟩ := sound.scanning w.rootPaths
  rcases w.rebuild_cases with ⟨_, same⟩ | same
  · rw [same]
    exact kept.pool
  · rw [same]
    exact kept.pool

theorem openAt_pool (tree : Tree) (root : String) (config : Option Config) :
    (openAt tree root config).session.pool = Pool.ofSize (settingsAt tree root config).workers := by
  unfold openAt ensureStarted
  dsimp only
  rw [if_neg (by simp)]
  split
  · exact rebuild_pool (Session.sound_of_empty rfl rfl rfl)
  · rfl

/-- The first scan is over once a workspace is open, or it is never made. -/
theorem isReady_openAt_iff (tree : Tree) (root : String) (config : Option Config) :
    (openAt tree root config).session.index.isReady = true ↔
      (Pool.ofSize (settingsAt tree root config).workers).fate = .ran := by
  by_cases running : (Pool.ofSize (settingsAt tree root config).workers).fate = .ran
  · exact iff_of_true (openAt_prompt tree root config running).ready running
  · refine iff_of_false ?_ running
    unfold openAt ensureStarted
    dsimp only
    rw [if_neg (by simp)]
    split
    · contradiction
    · exact Bool.false_ne_true

/-- The pool of a workspace has at most as many permits as workers were asked for. It has none, runs
no job and never makes the first scan, exactly if their number can be counted but its lower 32 bits
are zero. A configuration may ask for any number of workers. -/
theorem permits_of_configuration (tree : Tree) (root : String) (config : Option Config) :
    let workers := (settingsAt tree root config).workers
    let w := openAt tree root config
    w.session.pool = Pool.ofSize workers ∧ 1 ≤ workers ∧
    w.session.pool.permits.toNat ≤ workers ∧
    (w.session.pool.permits = 0 ↔ UInt32.size ∣ workers ∧ workers ≤ Pool.maxPermits) ∧
    (w.session.pool.fate = .ran ↔ w.session.pool.permits ≠ 0) ∧
    (w.session.index.isReady = true ↔ w.session.pool.permits ≠ 0) ∧
    ∀ n < UInt64.size, ∃ c, Config.ofJson (Config.askFor n) = .ok c ∧
      (settingsAt tree root (some c)).workers = max n 1 := by
  intro workers w
  have pool : w.session.pool = Pool.ofSize workers := openAt_pool tree root config
  have proper : 1 ≤ workers := Settings.one_le_workers _ root
  have runs : (Pool.ofSize workers).fate = .ran ↔ (Pool.ofSize workers).permits ≠ 0 :=
    Pool.fate_ofSize workers
  rw [pool]
  refine ⟨rfl, proper, ?_, Pool.permits_ofSize_eq_zero_iff proper, runs,
    (isReady_openAt_iff tree root config).trans runs, fun n _ => ⟨_, Config.ofJson_askFor n, rfl⟩⟩
  have bounded := Pool.permits_ofSize_le workers
  rwa [Nat.max_eq_left proper] at bounded

/-- One worker more than 32 bits can count leaves one permit. -/
theorem one_permit_past_32_bits : ∃ c, Config.ofJson (Config.askFor 4294967297) = .ok c ∧
    (settingsAt ∅ "/ws" (some c)).workers = 4294967297 ∧
    (openAt ∅ "/ws" (some c)).session.pool = Pool.ofSize 4294967297 ∧
    (openAt ∅ "/ws" (some c)).session.pool.permits = 1 ∧
    (openAt ∅ "/ws" (some c)).session.index.isReady = true := by
  obtain ⟨_, _, _, _, _, _, reach⟩ := permits_of_configuration ∅ "/ws" none
  obtain ⟨c, accepted, workers⟩ := reach 4294967297 (by decide)
  obtain ⟨pool, _, _, _, _, ready, _⟩ := permits_of_configuration ∅ "/ws" (some c)
  rw [workers] at pool
  have single : (openAt ∅ "/ws" (some c)).session.pool.permits = 1 := by
    rw [pool]
    decide
  exact ⟨c, accepted, workers, pool, single, ready.mpr (by rw [single]; decide)⟩

/-- With 2³² workers, whose lower 32 bits are zero, the first scan waits for ever. -/
theorem no_permit_at_32_bits : ∃ c, Config.ofJson (Config.askFor 4294967296) = .ok c ∧
    (settingsAt ∅ "/ws" (some c)).workers = 4294967296 ∧
    (openAt ∅ "/ws" (some c)).session.pool.permits = 0 ∧
    (openAt ∅ "/ws" (some c)).session.pool.fate = .waiting ∧
    (openAt ∅ "/ws" (some c)).session.index.isReady = false := by
  refine ⟨_, Config.ofJson_askFor 4294967296, rfl, ?_, ?_, ?_⟩
  · rw [openAt_pool]
    decide
  · rw [openAt_pool]
    decide
  · rw [← Bool.not_eq_true, isReady_openAt_iff]
    decide

end Workspace

end ModelAtlas
