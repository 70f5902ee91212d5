import ModelAtlas.Proofs.Index.Scans

/-!
# Interleavings

Updates and a rebuild that run at the same time, one atomic step after another. Files are edited in
between. An update that nothing comes in between is `updateFile` (`run_updateFile`), and a rebuild
that nothing comes in between is `rebuild` (`run_rebuild`).
-/

namespace ModelAtlas.Index

open Files Inheritance Model Std

/-- Puts a finished graph in place of the old one. -/
def ModelIndex.takeOver (i : ModelIndex) (graph : Graph) : ModelIndex :=
  ModelIndex.finish { i with
    graph := graph
    rebuilding := false
    status := { i.status with readyOnce := true } }

theorem ModelIndex.install_eq (t : Tree) (i : ModelIndex) (r : Rebuild) :
    (i.install t r).2 = i.takeOver (recommit t r.graph (i.touched r)) := rfl

namespace Interleaving

/-! ### States -/

/-- How far an update has come. It holds the lock of its file once it waits no longer. -/
inductive Phase where
  | waiting
  | locked
  | read (records : List ModelRecord)

/-- The updates under way, by file and generation. -/
abbrev Updates := String → Nat → Option Phase

def Updates.put (updates : Updates) (key : String) (generation : Nat) (phase : Option Phase) :
    Updates :=
  fun k g => if k = key ∧ g = generation then phase else updates k g

theorem Updates.put_same (updates : Updates) (key : String) (generation : Nat)
    (phase : Option Phase) : updates.put key generation phase key generation = phase := by
  simp [put]

theorem Updates.put_other (updates : Updates) {key k : String} (different : k ≠ key)
    (generation : Nat) (phase : Option Phase) :
    updates.put key generation phase k = updates k := by
  funext g
  simp [put, different]

theorem Updates.put_earlier (updates : Updates) (key : String) {generation g : Nat}
    (different : g ≠ generation) (phase : Option Phase) :
    updates.put key generation phase key g = updates key g := by
  simp [put, different]

theorem Updates.put_put (updates : Updates) (key : String) (generation : Nat)
    (phase after : Option Phase) :
    (updates.put key generation phase).put key generation after = updates.put key generation after := by
  funext k g
  unfold put
  split <;> rfl

theorem Updates.put_self {updates : Updates} {key : String} {generation : Nat} {phase : Option Phase}
    (already : updates key generation = phase) : updates.put key generation phase = updates := by
  funext k g
  unfold put
  split
  · rename_i same
    rw [same.1, same.2, already]
  · rfl

/-- How far a rebuild has come, with the files that are left to be read. -/
inductive Progress where
  | scanning (r : Rebuild) (left : List String)
  /-- Holds the lock of the graph, and reads again what was updated in the meantime. -/
  | installing (r : Rebuild) (left : List String)

structure World where
  disk : Disk
  index : ModelIndex := {}
  updates : Updates := fun _ _ => none
  rebuild : Option Progress := none
  /-- Files that were edited and not submitted since. -/
  owed : List String := []

namespace World

/-- No update holds the lock of a file. -/
def Unlocked (w : World) (key : String) : Prop :=
  ∀ g phase, w.updates key g = some phase → phase = .waiting

/-- A rebuild holds the lock of the graph. -/
def Installing (w : World) : Prop := ∃ r left, w.rebuild = some (.installing r left)

/-- Nothing is under way or owed, and a rebuild has been completed. -/
structure Settled (w : World) : Prop where
  updates : ∀ key generation, w.updates key generation = none
  rebuild : w.rebuild = none
  owed : w.owed = []
  ready : w.index.isReady = true

/-! ### Steps -/

/-- A file is written, or deleted. -/
def edited (w : World) (key : String) (content : Option (List UInt8)) : World :=
  { w with
    disk := fun k => if k = key then content else w.disk k
    owed := key :: w.owed }

/-- The generation of the next update of a file. -/
def nextGeneration (w : World) (key : String) : Nat := w.index.generations[key]?.getD 0 + 1

def submitted (w : World) (key : String) : World :=
  { w with
    index := w.index.bump key
    updates := w.updates.put key (w.nextGeneration key) (some .waiting)
    owed := w.owed.filter (· ≠ key) }

def withPhase (w : World) (key : String) (generation : Nat) (phase : Option Phase) : World :=
  { w with updates := w.updates.put key generation phase }

def committed (w : World) (key : String) (generation : Nat) (records : List ModelRecord) : World :=
  { w with
    index := { w.index with graph := (commit w.index.graph key records).2 }
    updates := w.updates.put key generation none }

/-- A rebuild notes the generations of all files and what files there are. -/
def rebuildStarted (w : World) (listing : List String) : World :=
  { w with
    index := ModelIndex.begin { w.index with rebuilding := true }
    rebuild := some (.scanning ⟨w.index.generations, {}⟩ listing) }

def withRebuild (w : World) (p : Progress) : World := { w with rebuild := some p }

def swapped (w : World) (graph : Graph) : World :=
  { w with index := w.index.takeOver graph, rebuild := none }

end World

inductive Event where
  | edit (key : String) (content : Option (List UInt8))
  | submit (key : String)
  | start (key : String) (generation : Nat)
  | read (key : String) (generation : Nat)
  | commit (key : String) (generation : Nat)
  | startRebuild (listing : List String)
  | scan (key : String)
  | beginInstall
  | rescan (key : String)
  | swap

inductive Step (w : World) : Event → World → Prop where
  | edit (key : String) (content : Option (List UInt8)) :
      Step w (.edit key content) (w.edited key content)
  | submit (key : String) : Step w (.submit key) (w.submitted key)
  /-- An update gets the lock of its file. It ends there if a newer one has been submitted. -/
  | start {key : String} {generation : Nat} (waits : w.updates key generation = some .waiting)
      (free : w.Unlocked key) :
      Step w (.start key generation) (w.withPhase key generation
        (if w.index.generations[key]? = some generation then some .locked else none))
  | read {key : String} {generation : Nat} (holds : w.updates key generation = some .locked) :
      Step w (.read key generation)
        (w.withPhase key generation (some (.read (w.disk.scan key))))
  | commit {key : String} {generation : Nat} {records : List ModelRecord}
      (holds : w.updates key generation = some (.read records)) (free : ¬ w.Installing) :
      Step w (.commit key generation) (w.committed key generation records)
  /-- Every file that exists is found. -/
  | startRebuild {listing : List String} (idle : w.rebuild = none)
      (found : ∀ key, (w.disk key).isSome → key ∈ listing) :
      Step w (.startRebuild listing) (w.rebuildStarted listing)
  | scan {r : Rebuild} {left : List String} {key : String}
      (running : w.rebuild = some (.scanning r left)) (listed : key ∈ left) :
      Step w (.scan key) (w.withRebuild
        (.scanning { r with graph := r.graph.addAll (w.disk.scan key) } (left.erase key)))
  | beginInstall {r : Rebuild} (running : w.rebuild = some (.scanning r [])) :
      Step w .beginInstall (w.withRebuild (.installing r (w.index.touched r)))
  | rescan {r : Rebuild} {left : List String} {key : String}
      (running : w.rebuild = some (.installing r left)) (listed : key ∈ left) :
      Step w (.rescan key) (w.withRebuild
        (.installing { r with graph := (Index.commit r.graph key (w.disk.scan key)).2 }
          (left.erase key)))
  | swap {r : Rebuild} (running : w.rebuild = some (.installing r [])) :
      Step w .swap (w.swapped r.graph)

/-- Some steps in a row, the first one first. -/
inductive Run (w : World) : List Event → World → Prop where
  | nil : Run w [] w
  | snoc {events : List Event} {e : Event} {v v' : World} :
      Run w events v → Step v e v' → Run w (events ++ [e]) v'

/-! ### Without interference -/

theorem withPhase_withPhase (w : World) (key : String) (generation : Nat)
    (phase after : Option Phase) :
    (w.withPhase key generation phase).withPhase key generation after =
      w.withPhase key generation after := by
  unfold World.withPhase
  rw [Updates.put_put]

theorem generations_submitted (w : World) (key : String) :
    (w.submitted key).index.generations[key]? = some (w.nextGeneration key) :=
  ExtTreeMap.getElem?_insert_self

/-- The steps of an update, with nothing in between. -/
theorem Run.update {start w : World} {events : List Event} (run : Run start events w) (key : String)
    (alone : ∀ g, w.updates key g = none) (free : ¬ w.Installing) :
    Run start (events ++ [.submit key] ++ [.start key (w.nextGeneration key)] ++
        [.read key (w.nextGeneration key)] ++ [.commit key (w.nextGeneration key)])
      { w with
        index := { w.index.bump key with graph := (commit w.index.graph key (w.disk.scan key)).2 }
        owed := w.owed.filter (· ≠ key) } := by
  have waits : (w.submitted key).updates key (w.nextGeneration key) = some .waiting :=
    Updates.put_same _ _ _ _
  have unlocked : (w.submitted key).Unlocked key := by
    intro g phase found
    by_cases same : g = w.nextGeneration key
    · rw [same, waits] at found
      exact (Option.some.inj found).symm
    · have earlier : w.updates key g = some phase :=
        (Updates.put_earlier _ _ same _).symm.trans found
      rw [alone] at earlier
      cases earlier
  have started := (run.snoc (.submit key)).snoc (.start waits unlocked)
  rw [generations_submitted, if_pos rfl] at started
  have read := started.snoc (.read (Updates.put_same _ _ _ _))
  rw [withPhase_withPhase] at read
  have committed := read.snoc (.commit (Updates.put_same _ _ _ _) free)
  dsimp only [World.committed, World.withPhase, World.submitted] at committed
  rw [Updates.put_put, Updates.put_put, Updates.put_self (alone _)] at committed
  exact committed

theorem run_updateFile {w : World} {t : Tree} (shown : ∀ key, w.disk.scan key = scanFile t key)
    {path : String} (alone : ∀ g, w.updates (t.key path) g = none) (free : ¬ w.Installing) :
    ∃ events, Run w events { w with
      index := (w.index.updateFile t path).2
      owed := w.owed.filter (· ≠ t.key path) } := by
  have run := Run.nil.update (t.key path) alone free
  rw [shown] at run
  exact ⟨_, run⟩

/-- The files that a rebuild has found are read in some order. -/
theorem run_scans {start w : World} {events : List Event} (run : Run start events w) {r : Rebuild}
    {left : List String} (running : w.rebuild = some (.scanning r left)) :
    ∃ events, Run start events (w.withRebuild (.scanning
      { r with graph := left.foldl (fun g key => g.addAll (w.disk.scan key)) r.graph } [])) := by
  induction left generalizing w events r with
  | nil =>
    refine ⟨events, ?_⟩
    rw [List.foldl_nil, World.withRebuild, ← running]
    exact run
  | cons key rest ih =>
    have first := run.snoc (.scan running List.mem_cons_self)
    rw [List.erase_cons_head] at first
    exact ih first rfl

/-- An install reads again what is left, and swaps the graphs. -/
theorem run_install {start w : World} {events : List Event} (run : Run start events w) {r : Rebuild}
    {left : List String} (running : w.rebuild = some (.installing r left)) :
    ∃ more, (∀ key content, .edit key content ∉ more) ∧ Run start (events ++ more)
      (w.swapped (left.foldl (fun g key => (commit g key (w.disk.scan key)).2) r.graph)) := by
  induction left generalizing w events r with
  | nil =>
    refine ⟨[.swap], ?_, run.snoc (.swap running)⟩
    simp
  | cons key rest ih =>
    have first := run.snoc (.rescan running List.mem_cons_self)
    rw [List.erase_cons_head] at first
    obtain ⟨more, editless, swapped⟩ := ih first rfl
    refine ⟨.rescan key :: more, ?_, ?_⟩
    · simpa using editless
    · rw [List.append_cons]
      exact swapped

theorem run_rebuild {w : World} {t : Tree} (shown : ∀ key, w.disk.scan key = scanFile t key)
    {roots : List Path} (found : ∀ key, (w.disk key).isSome → key ∈ (sourceFiles t roots).map Path.text)
    (idle : w.rebuild = none) (free : w.index.rebuilding = false) :
    ∃ events, Run w events { w with index := (w.index.rebuild t roots).2 } := by
  have begun := Run.snoc .nil (Step.startRebuild idle found)
  obtain ⟨events, scanned⟩ := run_scans begun rfl
  have graph : ((sourceFiles t roots).map Path.text).foldl
      (fun g key => g.addAll (w.disk.scan key)) {} = scanRoots t roots := by
    simp only [shown, scanRoots_eq_readAll, readAll]
  have untouched : ModelIndex.touched (ModelIndex.begin { w.index with rebuilding := true })
      ⟨w.index.generations, scanRoots t roots⟩ = [] := by
    simp [ModelIndex.touched, ModelIndex.begin]
  have rebuilt : (w.index.rebuild t roots).2 =
      (ModelIndex.begin { w.index with rebuilding := true }).takeOver (scanRoots t roots) := by
    unfold ModelIndex.rebuild ModelIndex.startRebuild
    simp only [free, Bool.false_eq_true, if_false]
    rw [ModelIndex.install_eq, untouched]
    rfl
  have installing := scanned.snoc (.beginInstall rfl)
  dsimp only [World.rebuildStarted, World.withRebuild] at installing
  rw [graph, untouched] at installing
  have swapped := installing.snoc (.swap rfl)
  rw [World.swapped, ← rebuilt, ← idle] at swapped
  exact ⟨_, swapped⟩

end Interleaving

end ModelAtlas.Index
