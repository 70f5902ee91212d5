import ModelAtlas.Proofs.Index.Interleaving

/-!
# No update is lost

Whatever steps of updates and rebuilds come between each other, once all of them are over and every
edit has been submitted, the index holds what the files declare. The reason is that at any time, for
each file, either the graph is right about it or an update is still to come that will read it as it is
(`World.Pending`); and what a rebuild has read is right too, or the file has been updated since the
rebuild started.
-/

namespace ModelAtlas.Index.Interleaving

open Inheritance Model Std

/-! ### What a graph says about one file -/

/-- The graph holds nothing of a file but these records. -/
def Within (g : Graph) (key : String) (records : List ModelRecord) : Prop :=
  ∀ id r, g.models[id]? = some r → r.path = key → lastNamed records id = some r

/-- The graph holds these records. -/
def Covers (g : Graph) (records : List ModelRecord) : Prop :=
  ∀ id r, lastNamed records id = some r → g.models[id]? = some r

def Agrees (g : Graph) (key : String) (records : List ModelRecord) : Prop :=
  Within g key records ∧ Covers g records

/-- The records lie in a file, and their identifiers are at home there. -/
def Homed (home : String → String) (key : String) (records : List ModelRecord) : Prop :=
  ∀ r ∈ records, r.path = key ∧ home r.identifier = key

theorem Homed.of_lastNamed {home : String → String} {key : String} {records : List ModelRecord}
    (homed : Homed home key records) {id : String} {r : ModelRecord}
    (named : lastNamed records id = some r) : r.path = key ∧ home id = key := by
  obtain ⟨member, isId⟩ := mem_of_lastNamed named
  rw [← isId]
  exact homed r member

/-- `h` is `g` with some records of one file written into it. Other records of the file may go. -/
structure Writes (g : Graph) (key : String) (records : List ModelRecord) (h : Graph) : Prop where
  new : ∀ id r, lastNamed records id = some r → h.models[id]? = some r
  origin : ∀ id r, h.models[id]? = some r → lastNamed records id = some r ∨ g.models[id]? = some r
  kept : ∀ id r, g.models[id]? = some r → r.path ≠ key → lastNamed records id = none →
    h.models[id]? = some r

theorem writes_addAll (g : Graph) (key : String) (records : List ModelRecord) :
    Writes g key records (g.addAll records) := by
  have stored := g.getElem?_models_addAll records
  refine ⟨?_, ?_, ?_⟩
  · intro id r named
    rw [stored, named, Option.some_or]
  · intro id r found
    rw [stored, Option.or_eq_some_iff] at found
    rcases found with named | ⟨_, old⟩
    · exact Or.inl named
    · exact Or.inr old
  · intro id r old _ unnamed
    rw [stored, unnamed, Option.none_or, old]

theorem writes_commit {g : Graph} (consistent : g.Consistent) (key : String)
    (records : List ModelRecord) : Writes g key records (commit g key records).2 := by
  refine ⟨?_, ?_, ?_⟩
  · intro id r named
    exact (models_commit_eq_some consistent).mpr (Or.inl named)
  · intro id r found
    rcases (models_commit_eq_some consistent).mp found with named | ⟨_, old, _⟩
    · exact Or.inl named
    · exact Or.inr old
  · intro id r old elsewhere unnamed
    exact (models_commit_eq_some consistent).mpr (Or.inr ⟨unnamed, old, elsewhere⟩)

section Writes

variable {home : String → String} {g h : Graph} {key other : String}
  {records known : List ModelRecord}

theorem Writes.within_other (writes : Writes g other records h) (homed : Homed home other records)
    (different : key ≠ other) (within : Within g key known) : Within h key known := by
  intro id r found here
  rcases writes.origin id r found with named | old
  · have there := (homed.of_lastNamed named).1
    exact absurd (here.symm.trans there) different
  · exact within id r old here

theorem Writes.covers_other (writes : Writes g other records h) (homed : Homed home other records)
    (different : key ≠ other) (known_homed : Homed home key known) (covers : Covers g known) :
    Covers h known := by
  intro id r named
  obtain ⟨here, isHome⟩ := known_homed.of_lastNamed named
  apply writes.kept id r (covers id r named)
  · rw [here]
    exact different
  · apply Classical.byContradiction
    intro taken
    obtain ⟨x, alsoNamed⟩ := Option.ne_none_iff_exists'.mp taken
    exact different (isHome.symm.trans (homed.of_lastNamed alsoNamed).2)

theorem Writes.agrees_other (writes : Writes g other records h) (homed : Homed home other records)
    (different : key ≠ other) (known_homed : Homed home key known) (agrees : Agrees g key known) :
    Agrees h key known :=
  ⟨writes.within_other homed different agrees.1,
    writes.covers_other homed different known_homed agrees.2⟩

theorem Writes.within_same (writes : Writes g key records h) (within : Within g key records) :
    Within h key records := by
  intro id r found here
  rcases writes.origin id r found with named | old
  · exact named
  · exact within id r old here

end Writes

theorem agrees_commit {g : Graph} (consistent : g.Consistent) (key : String)
    (records : List ModelRecord) : Agrees (commit g key records).2 key records := by
  refine ⟨?_, (writes_commit consistent key records).new⟩
  intro id r found here
  rcases (models_commit_eq_some consistent).mp found with named | ⟨_, _, elsewhere⟩
  · exact named
  · exact absurd here elsewhere

/-! ### What holds of one file -/

namespace World

/-- The newest update of a file is under way. -/
def Served (w : World) (key : String) : Prop :=
  ∃ g, w.index.generations[key]? = some g ∧ w.updates key g ≠ none

/-- The file is going to be read as it is now, by an update under way or by one that is owed. -/
def Pending (w : World) (key : String) : Prop := key ∈ w.owed ∨ w.Served key

/-- Updates of a file come in order: one that has started is the newest or has the newest waiting
behind it, and what the newest has read is up to date. -/
structure Orderly (w : World) (key : String) : Prop where
  overtaken : ∀ g phase, w.updates key g = some phase → phase ≠ .waiting →
    w.index.generations[key]? = some g ∨
      ∃ newest, w.index.generations[key]? = some newest ∧ w.updates key newest = some .waiting
  upToDate : ∀ g records, w.updates key g = some (.read records) →
    w.index.generations[key]? = some g → key ∈ w.owed ∨ records = w.disk.scan key

/-- What a rebuild has of a file. -/
def Reads (w : World) (key : String) : Progress → Prop
  | .scanning r left =>
    r.before[key]?.getD 0 ≤ w.index.generations[key]?.getD 0 ∧
      (key ∈ w.owed ∨ r.before[key]?.getD 0 < w.index.generations[key]?.getD 0 ∨
        Within r.graph key (w.disk.scan key) ∧ (key ∈ left ∨ Covers r.graph (w.disk.scan key)))
  | .installing r left => w.Pending key ∨ key ∈ left ∨ Agrees r.graph key (w.disk.scan key)

/-- Nothing about a file has changed but the graphs. -/
structure SameFile (w v : World) (key : String) : Prop where
  disk : v.disk key = w.disk key
  updates : v.updates key = w.updates key
  generations : v.index.generations[key]? = w.index.generations[key]?
  owed : key ∈ v.owed ↔ key ∈ w.owed

section SameFile

variable {w v : World} {key : String}

theorem SameFile.scan (same : w.SameFile v key) : v.disk.scan key = w.disk.scan key := by
  rw [Disk.scan, Disk.scan, same.disk]

theorem SameFile.served (same : w.SameFile v key) : v.Served key ↔ w.Served key := by
  unfold Served
  rw [same.generations, same.updates]

theorem SameFile.pending (same : w.SameFile v key) : v.Pending key ↔ w.Pending key := by
  unfold Pending
  rw [same.owed, same.served]

theorem Orderly.frame (orderly : w.Orderly key) (same : w.SameFile v key) : v.Orderly key := by
  refine ⟨?_, ?_⟩
  · rw [same.generations, same.updates]
    exact orderly.overtaken
  · rw [same.generations, same.updates, same.owed, same.scan]
    exact orderly.upToDate

/-- What a rebuild has of a file stays right as long as the file does not change and its newest
update does not end. -/
theorem Reads.frame {p : Progress} (reads : w.Reads key p) (disk : v.disk key = w.disk key)
    (generations : v.index.generations[key]? = w.index.generations[key]?)
    (owed : key ∈ v.owed ↔ key ∈ w.owed) (served : w.Served key → v.Served key) : v.Reads key p := by
  have scan : v.disk.scan key = w.disk.scan key := by rw [Disk.scan, Disk.scan, disk]
  cases p with
  | scanning r left =>
    unfold Reads at reads ⊢
    rw [generations, owed, scan]
    exact reads
  | installing r left =>
    unfold Reads Pending at reads ⊢
    rw [scan, owed]
    exact reads.imp_left (Or.imp_right served)

theorem SameFile.reads (same : w.SameFile v key) {p : Progress} (reads : w.Reads key p) :
    v.Reads key p :=
  reads.frame same.disk same.generations same.owed same.served.mpr

end SameFile

end World

/-! ### The invariant -/

/-- The graph that a rebuild is making. -/
def Progress.graph : Progress → Graph
  | .scanning r _ | .installing r _ => r.graph

structure Invariant (home : String → String) (w : World) : Prop where
  consistent : w.index.graph.Consistent
  rebuilt : ∀ p, w.rebuild = some p → p.graph.Consistent
  disk : ∀ key, Homed home key (w.disk.scan key)
  flight : ∀ key g records, w.updates key g = some (.read records) → Homed home key records
  orderly : ∀ key, w.Orderly key
  reads : ∀ p, w.rebuild = some p → ∀ key, w.Reads key p
  stored : w.index.isReady = true →
    ∀ key, w.Pending key ∨ Agrees w.index.graph key (w.disk.scan key)

section Steps

variable {home : String → String} {w v : World} {key : String}

/-- A step that concerns one file and no graph keeps the invariant if it does so for that file. -/
theorem Invariant.of_file (inv : Invariant home w) (key : String)
    (others : ∀ k, k ≠ key → w.SameFile v k)
    (graph : v.index.graph = w.index.graph) (ready : v.index.isReady = w.index.isReady)
    (rebuild : v.rebuild = w.rebuild) (disk : Homed home key (v.disk.scan key))
    (flight : ∀ g records, v.updates key g = some (.read records) → Homed home key records)
    (orderly : v.Orderly key) (reads : ∀ p, w.Reads key p → v.Reads key p)
    (stored : w.Pending key ∨ Agrees w.index.graph key (w.disk.scan key) →
      v.Pending key ∨ Agrees w.index.graph key (v.disk.scan key)) : Invariant home v := by
  refine ⟨graph ▸ inv.consistent, rebuild ▸ inv.rebuilt, ?_, ?_, ?_, ?_, ?_⟩
  · intro k
    by_cases same : k = key
    · exact same ▸ disk
    · rw [(others k same).scan]
      exact inv.disk k
  · intro k g records found
    by_cases same : k = key
    · subst same
      exact flight g records found
    · rw [(others k same).updates] at found
      exact inv.flight k g records found
  · intro k
    by_cases same : k = key
    · exact same ▸ orderly
    · exact (inv.orderly k).frame (others k same)
  · intro p running k
    rw [rebuild] at running
    by_cases same : k = key
    · subst same
      exact reads p (inv.reads p running k)
    · exact (others k same).reads (inv.reads p running k)
  · intro isReady k
    rw [ready] at isReady
    rw [graph]
    by_cases same : k = key
    · subst same
      exact stored (inv.stored isReady k)
    · rw [(others k same).pending, (others k same).scan]
      exact inv.stored isReady k

theorem Invariant.edited (inv : Invariant home w) {content : Option (List UInt8)}
    (homed : Homed home key (declared key content)) : Invariant home (w.edited key content) := by
  have owed : key ∈ (w.edited key content).owed := List.mem_cons_self
  refine inv.of_file key ?_ rfl rfl rfl ?_ (inv.flight key) ⟨?_, ?_⟩ ?_ ?_
  · intro k different
    exact ⟨if_neg different, rfl, rfl, List.mem_cons.trans (or_iff_right different)⟩
  · simpa [Disk.scan, World.edited] using homed
  · exact (inv.orderly key).overtaken
  · exact fun _ _ _ _ => Or.inl owed
  · intro p reads
    cases p with
    | scanning r left => exact ⟨reads.1, Or.inl owed⟩
    | installing r left => exact Or.inl (Or.inl owed)
  · exact fun _ => Or.inl (Or.inl owed)

theorem generations_submitted_other (w : World) {key k : String} (different : k ≠ key) :
    (w.submitted key).index.generations[k]? = w.index.generations[k]? := by
  dsimp only [World.submitted, ModelIndex.bump]
  rw [ExtTreeMap.getElem?_insert, if_neg]
  simpa using Ne.symm different

theorem Invariant.submitted (inv : Invariant home w) (key : String) :
    Invariant home (w.submitted key) := by
  have newest := generations_submitted w key
  have waits : (w.submitted key).updates key (w.nextGeneration key) = some .waiting :=
    Updates.put_same _ _ _ _
  have served : (w.submitted key).Served key := ⟨_, newest, by simp [waits]⟩
  -- what has started is an earlier update of the file
  have earlier : ∀ g phase, (w.submitted key).updates key g = some phase → phase ≠ .waiting →
      g ≠ w.nextGeneration key ∧ w.updates key g = some phase := by
    intro g phase found started
    by_cases same : g = w.nextGeneration key
    · rw [same, waits] at found
      exact absurd (Option.some.inj found).symm started
    · exact ⟨same, (Updates.put_earlier _ _ same _).symm.trans found⟩
  refine inv.of_file key ?_ rfl rfl rfl (inv.disk key) ?_ ⟨?_, ?_⟩ ?_ ?_
  · intro k different
    refine ⟨rfl, Updates.put_other _ different _ _, generations_submitted_other w different, ?_⟩
    simp [World.submitted, different]
  · intro g records found
    exact inv.flight key g records (earlier g _ found (by simp)).2
  · exact fun _ _ _ _ => Or.inr ⟨_, newest, waits⟩
  · intro g records found current
    rw [newest] at current
    exact absurd (Option.some.inj current).symm (earlier g _ found (by simp)).1
  · intro p reads
    cases p with
    | scanning r left =>
      have before := reads.1
      have raised : (w.submitted key).index.generations[key]?.getD 0 =
          w.index.generations[key]?.getD 0 + 1 := by rw [newest]; rfl
      refine ⟨?_, Or.inr (Or.inl ?_)⟩
      · omega
      · omega
    | installing r left => exact Or.inl (Or.inr served)
  · exact fun _ => Or.inl (Or.inr served)

/-- An update goes on, or ends because it is not the newest. -/
theorem Invariant.withPhase (inv : Invariant home w) {generation : Nat} {phase : Option Phase}
    (ends : phase = none → w.index.generations[key]? ≠ some generation)
    (flight : ∀ records, phase = some (.read records) → Homed home key records)
    (orderly : (w.withPhase key generation phase).Orderly key) :
    Invariant home (w.withPhase key generation phase) := by
  have served : w.Served key → (w.withPhase key generation phase).Served key := by
    rintro ⟨g, current, present⟩
    refine ⟨g, current, ?_⟩
    dsimp only [World.withPhase]
    by_cases same : g = generation
    · rw [same, Updates.put_same]
      intro ended
      exact ends ended (same ▸ current)
    · rw [Updates.put_earlier _ _ same]
      exact present
  refine inv.of_file key ?_ rfl rfl rfl (inv.disk key) ?_ orderly ?_ ?_
  · intro k different
    exact ⟨rfl, Updates.put_other _ different _ _, rfl, Iff.rfl⟩
  · intro g records found
    dsimp only [World.withPhase] at found
    by_cases same : g = generation
    · rw [same, Updates.put_same] at found
      exact flight records found
    · rw [Updates.put_earlier _ _ same] at found
      exact inv.flight key g records found
  · intro p reads
    exact reads.frame rfl rfl Iff.rfl served
  · exact Or.imp_left (Or.imp_right served)

theorem Invariant.started (inv : Invariant home w) {generation : Nat} (free : w.Unlocked key) :
    Invariant home (w.withPhase key generation
      (if w.index.generations[key]? = some generation then some .locked else none)) := by
  -- no other update of the file has started
  have only : ∀ g phase, (w.withPhase key generation
      (if w.index.generations[key]? = some generation then some .locked else none)).updates key g =
        some phase → phase ≠ .waiting →
      g = generation ∧ phase = .locked ∧ w.index.generations[key]? = some generation := by
    intro g phase found started
    dsimp only [World.withPhase] at found
    by_cases same : g = generation
    · rw [same, Updates.put_same] at found
      split at found
      · rename_i current
        exact ⟨same, (Option.some.inj found).symm, current⟩
      · cases found
    · rw [Updates.put_earlier _ _ same] at found
      exact absurd (free g phase found) started
  refine inv.withPhase ?_ ?_ ⟨?_, ?_⟩
  · intro ended
    split at ended
    · cases ended
    · assumption
  · intro records found
    split at found <;> cases found
  · intro g phase found started
    obtain ⟨rfl, _, current⟩ := only g phase found started
    exact Or.inl current
  · intro g records found _
    obtain ⟨_, isLocked, _⟩ := only g _ found (by simp)
    cases isLocked

/-- An update that has started does not wait. -/
theorem ne_of_waiting {generation newest : Nat} {phase : Phase}
    (holds : w.updates key generation = some phase) (started : phase ≠ .waiting)
    (waits : w.updates key newest = some .waiting) : newest ≠ generation := by
  rintro rfl
  rw [holds] at waits
  exact started (Option.some.inj waits)

theorem Invariant.readOf (inv : Invariant home w) {generation : Nat}
    (holds : w.updates key generation = some .locked) :
    Invariant home (w.withPhase key generation (some (.read (w.disk.scan key)))) := by
  have other : ∀ g phase, g ≠ generation →
      (w.withPhase key generation (some (.read (w.disk.scan key)))).updates key g = some phase →
      w.updates key g = some phase :=
    fun _ _ different found => (Updates.put_earlier _ _ different _).symm.trans found
  have own : (w.withPhase key generation (some (.read (w.disk.scan key)))).updates key generation =
      some (.read (w.disk.scan key)) := Updates.put_same _ _ _ _
  refine inv.withPhase (by simp) ?_ ⟨?_, ?_⟩
  · intro records found
    obtain rfl : w.disk.scan key = records := by simpa using found
    exact inv.disk key
  · intro g phase found started
    have before : w.index.generations[key]? = some g ∨ ∃ newest,
        w.index.generations[key]? = some newest ∧ w.updates key newest = some .waiting := by
      by_cases same : g = generation
      · exact (inv.orderly key).overtaken g .locked (same ▸ holds) (by simp)
      · exact (inv.orderly key).overtaken g phase (other g phase same found) started
    refine before.imp_right ?_
    rintro ⟨newest, current, waits⟩
    have different := ne_of_waiting holds (by simp) waits
    exact ⟨newest, current, (Updates.put_earlier _ _ different _).trans waits⟩
  · intro g records found current
    by_cases same : g = generation
    · rw [same, own] at found
      obtain rfl : w.disk.scan key = records := by simpa using found
      exact Or.inr rfl
    · exact (inv.orderly key).upToDate g records (other g _ same found) current

/-- A commit makes the graph right about its file, unless a newer update is still to come. -/
theorem Invariant.stored_committed (inv : Invariant home w) {generation : Nat}
    {records : List ModelRecord} (holds : w.updates key generation = some (.read records)) :
    (w.committed key generation records).Pending key ∨
      Agrees (commit w.index.graph key records).2 key (w.disk.scan key) := by
  rcases (inv.orderly key).overtaken generation _ holds (by simp) with current | ⟨newest, current, waits⟩
  · rcases (inv.orderly key).upToDate generation records holds current with owed | same
    · exact Or.inl (Or.inl owed)
    · exact Or.inr (same ▸ agrees_commit inv.consistent key records)
  · have different := ne_of_waiting holds (by simp) waits
    refine Or.inl (Or.inr ⟨newest, current, ?_⟩)
    dsimp only [World.committed]
    rw [Updates.put_earlier _ _ different, waits]
    simp

theorem Invariant.committed (inv : Invariant home w) {generation : Nat} {records : List ModelRecord}
    (holds : w.updates key generation = some (.read records)) (free : ¬ w.Installing) :
    Invariant home (w.committed key generation records) := by
  have homed := inv.flight key generation records holds
  have others : ∀ k, k ≠ key → w.SameFile (w.committed key generation records) k :=
    fun k different => ⟨rfl, Updates.put_other _ different _ _, rfl, Iff.rfl⟩
  have left : ∀ k g phase, (w.committed key generation records).updates k g = some phase →
      w.updates k g = some phase := by
    intro k g phase found
    dsimp only [World.committed, Updates.put] at found
    split at found
    · cases found
    · exact found
  refine ⟨commit_consistent inv.consistent key records, inv.rebuilt, inv.disk, ?_, ?_, ?_, ?_⟩
  · intro k g found held
    exact inv.flight k g found (left k g _ held)
  · intro k
    by_cases same : k = key
    · subst same
      refine ⟨?_, ?_⟩
      · intro g phase found started
        refine ((inv.orderly k).overtaken g phase (left k g phase found) started).imp_right ?_
        rintro ⟨newest, current, waits⟩
        have different := ne_of_waiting holds (by simp) waits
        exact ⟨newest, current, (Updates.put_earlier _ _ different _).trans waits⟩
      · intro g found held
        exact (inv.orderly k).upToDate g found (left k g _ held)
    · exact (inv.orderly k).frame (others k same)
  · intro p running k
    cases p with
    | scanning r todo => exact inv.reads _ running k
    | installing r todo => exact absurd ⟨r, todo, running⟩ free
  · intro isReady k
    by_cases same : k = key
    · subst same
      exact inv.stored_committed holds
    · rw [(others k same).pending]
      refine (inv.stored isReady k).imp_right fun agrees => ?_
      exact (writes_commit inv.consistent key records).agrees_other homed same (inv.disk k) agrees

/-- Steps of a rebuild leave everything else alone. -/
theorem Invariant.of_rebuild (inv : Invariant home w) (others : ∀ k, w.SameFile v k)
    (consistent : v.index.graph.Consistent) (rebuilt : ∀ p, v.rebuild = some p → p.graph.Consistent)
    (reads : ∀ p, v.rebuild = some p → ∀ k, w.Reads k p)
    (stored : v.index.isReady = true →
      ∀ k, w.Pending k ∨ Agrees v.index.graph k (w.disk.scan k)) : Invariant home v := by
  refine ⟨consistent, rebuilt, ?_, ?_, ?_, ?_, ?_⟩
  · intro k
    rw [(others k).scan]
    exact inv.disk k
  · intro k g records found
    rw [(others k).updates] at found
    exact inv.flight k g records found
  · exact fun k => (inv.orderly k).frame (others k)
  · exact fun p running k => (others k).reads (reads p running k)
  · intro isReady k
    rw [(others k).pending, (others k).scan]
    exact stored isReady k

theorem Invariant.rebuildStarted (inv : Invariant home w) {listing : List String}
    (found : ∀ k, (w.disk k).isSome → k ∈ listing) : Invariant home (w.rebuildStarted listing) := by
  refine inv.of_rebuild (fun k => ⟨rfl, rfl, rfl, Iff.rfl⟩) inv.consistent ?_ ?_ inv.stored
  · rintro _ ⟨⟩
    exact Graph.consistent_empty
  · rintro _ ⟨⟩ k
    refine ⟨Nat.le_refl _, Or.inr (Or.inr ⟨?_, ?_⟩)⟩
    · intro id r stored
      simp at stored
    · cases content : w.disk k with
      | some bytes => exact Or.inl (found k (by simp [content]))
      | none =>
        right
        intro id r named
        simp [Disk.scan, declared, content, lastNamed] at named

theorem Invariant.withRebuild (inv : Invariant home w) {p : Progress} (consistent : p.graph.Consistent)
    (reads : ∀ k, w.Reads k p) : Invariant home (w.withRebuild p) := by
  refine inv.of_rebuild (fun k => ⟨rfl, rfl, rfl, Iff.rfl⟩) inv.consistent ?_ ?_ inv.stored
  · rintro _ ⟨⟩
    exact consistent
  · rintro _ ⟨⟩
    exact reads

theorem Invariant.scanned (inv : Invariant home w) {r : Rebuild} {left : List String}
    (running : w.rebuild = some (.scanning r left)) :
    Invariant home (w.withRebuild
      (.scanning { r with graph := r.graph.addAll (w.disk.scan key) } (left.erase key))) := by
  have writes := writes_addAll r.graph key (w.disk.scan key)
  refine inv.withRebuild ((inv.rebuilt _ running).addAll _) fun k => ?_
  obtain ⟨grown, owed | newer | ⟨within, rest⟩⟩ := inv.reads _ running k
  · exact ⟨grown, Or.inl owed⟩
  · exact ⟨grown, Or.inr (Or.inl newer)⟩
  · refine ⟨grown, Or.inr (Or.inr ?_)⟩
    by_cases same : k = key
    · subst same
      exact ⟨writes.within_same within, Or.inr writes.new⟩
    · refine ⟨writes.within_other (inv.disk key) same within, rest.imp ?_ ?_⟩
      · exact (List.mem_erase_of_ne same).mpr
      · exact writes.covers_other (inv.disk key) same (inv.disk k)

theorem mem_touched {i : ModelIndex} {r : Rebuild} {k : String}
    (newer : r.before[k]?.getD 0 < i.generations[k]?.getD 0) : k ∈ i.touched r := by
  unfold ModelIndex.touched
  rw [List.mem_filter, ExtTreeMap.mem_keys, bne_iff_ne]
  refine ⟨?_, ?_⟩
  · apply Classical.byContradiction
    intro absent
    rw [ExtTreeMap.getElem?_eq_none absent] at newer
    exact Nat.not_lt_zero _ newer
  · intro same
    rw [same] at newer
    exact Nat.lt_irrefl _ newer

theorem Invariant.installBegun (inv : Invariant home w) {r : Rebuild}
    (running : w.rebuild = some (.scanning r [])) :
    Invariant home (w.withRebuild (.installing r (w.index.touched r))) := by
  have consistent : r.graph.Consistent := inv.rebuilt _ running
  refine inv.withRebuild consistent fun k => ?_
  obtain ⟨_, owed | newer | ⟨within, unread | covers⟩⟩ := inv.reads _ running k
  · exact Or.inl (Or.inl owed)
  · exact Or.inr (Or.inl (mem_touched newer))
  · cases unread
  · exact Or.inr (Or.inr ⟨within, covers⟩)

theorem Invariant.rescanned (inv : Invariant home w) {r : Rebuild} {left : List String}
    (running : w.rebuild = some (.installing r left)) :
    Invariant home (w.withRebuild (.installing
      { r with graph := (commit r.graph key (w.disk.scan key)).2 } (left.erase key))) := by
  have consistent : r.graph.Consistent := inv.rebuilt _ running
  refine inv.withRebuild (commit_consistent consistent key _) fun k => ?_
  by_cases same : k = key
  · subst same
    exact Or.inr (Or.inr (agrees_commit consistent k _))
  · rcases inv.reads _ running k with pending | listed | agrees
    · exact Or.inl pending
    · exact Or.inr (Or.inl ((List.mem_erase_of_ne same).mpr listed))
    · exact Or.inr (Or.inr ((writes_commit consistent key _).agrees_other (inv.disk key) same
        (inv.disk k) agrees))

theorem Invariant.swapped (inv : Invariant home w) {r : Rebuild}
    (running : w.rebuild = some (.installing r [])) : Invariant home (w.swapped r.graph) := by
  refine inv.of_rebuild (fun k => ⟨rfl, rfl, rfl, Iff.rfl⟩) (inv.rebuilt _ running) ?_ ?_ ?_
  · rintro _ ⟨⟩
  · rintro _ ⟨⟩
  · intro _ k
    rcases inv.reads _ running k with pending | listed | agrees
    · exact Or.inl pending
    · cases listed
    · exact Or.inr agrees

theorem Invariant.step (inv : Invariant home w) {e : Event} (step : Step w e v)
    (homed : ∀ key content, e = .edit key content → Homed home key (declared key content)) :
    Invariant home v := by
  cases step with
  | edit key content => exact inv.edited (homed key content rfl)
  | submit key => exact inv.submitted key
  | start _ free => exact inv.started free
  | read holds => exact inv.readOf holds
  | commit holds free => exact inv.committed holds free
  | startRebuild _ found => exact inv.rebuildStarted found
  | scan running _ => exact inv.scanned running
  | beginInstall running => exact inv.installBegun running
  | rescan running _ => exact inv.rescanned running
  | swap running => exact inv.swapped running

end Steps

theorem Invariant.run {home : String → String} {w v : World} {events : List Event}
    (inv : Invariant home w) (run : Run w events v)
    (homed : ∀ key content, .edit key content ∈ events → Homed home key (declared key content)) :
    Invariant home v := by
  induction run with
  | nil => exact inv
  | snoc _ step ih =>
    have before := ih fun key content member => homed key content (List.mem_append_left _ member)
    refine before.step step fun key content last => homed key content ?_
    exact List.mem_append_right _ (List.mem_singleton.mpr last.symm)

/-! ### All runs -/

/-- A new index over some files. -/
def World.opened (disk : Disk) (readyTimeoutMs : Nat) : World :=
  { disk := disk, index := { readyTimeoutMs := readyTimeoutMs } }

/-- A file declares an identifier at the start or after one of some edits. -/
def EverDeclares (disk : Disk) (events : List Event) (key id : String) : Prop :=
  ∃ content, (content = disk key ∨ .edit key content ∈ events) ∧
    ∃ r ∈ declared key content, r.identifier = id

theorem opened_invariant {home : String → String} {disk : Disk}
    (homed : ∀ key, Homed home key (disk.scan key)) (readyTimeoutMs : Nat) :
    Invariant home (.opened disk readyTimeoutMs) where
  consistent := Graph.consistent_empty
  rebuilt _ running := nomatch running
  disk := homed
  flight _ _ _ found := nomatch found
  orderly _ := ⟨fun _ _ found => (nomatch found), fun _ _ found => (nomatch found)⟩
  reads _ running := nomatch running
  stored isReady := nomatch isReady

/-- If no identifier is ever declared by two files, each has a home. -/
theorem exists_home {disk : Disk} {events : List Event}
    (unambiguous : ∀ id key other, EverDeclares disk events key id →
      EverDeclares disk events other id → key = other) :
    ∃ home : String → String, ∀ key content, content = disk key ∨ .edit key content ∈ events →
      Homed home key (declared key content) := by
  have homes : ∀ id, ∃ home, ∀ key, EverDeclares disk events key id → home = key := by
    intro id
    by_cases known : ∃ key, EverDeclares disk events key id
    · obtain ⟨home, declares⟩ := known
      exact ⟨home, fun key => unambiguous id home key declares⟩
    · exact ⟨id, fun key declares => absurd ⟨key, declares⟩ known⟩
  obtain ⟨home, isHome⟩ := Classical.skolem.mp homes
  refine ⟨home, fun key content present r member => ⟨path_of_mem_declared member, ?_⟩⟩
  exact isHome r.identifier key ⟨content, present, r, member, rfl⟩

theorem World.Settled.agrees {home : String → String} {w : World} (settled : w.Settled)
    (inv : Invariant home w) (key : String) : Agrees w.index.graph key (w.disk.scan key) := by
  refine (inv.stored settled.ready key).resolve_left ?_
  rintro (owed | ⟨g, _, present⟩)
  · rw [settled.owed] at owed
    cases owed
  · exact present (settled.updates key g)

theorem reflects_of_agrees {g : Graph} {disk : Disk} (agrees : ∀ key, Agrees g key (disk.scan key))
    {listing : List String} (found : ∀ key, (disk key).isSome → key ∈ listing) :
    Reflects g (· ∈ listing) disk.scan := by
  intro id r
  constructor
  · intro stored
    have named := (agrees r.path).1 id r stored rfl
    exact ⟨r.path, found _ (Disk.isSome_of_lastNamed named), named⟩
  · rintro ⟨key, _, named⟩
    exact (agrees key).2 id r named

theorem unambiguous_of_homed {home : String → String} {disk : Disk}
    (homed : ∀ key, Homed home key (disk.scan key)) (listing : List String) :
    disk.scan.Unambiguous (· ∈ listing) := by
  intro key other id _ _ named alsoNamed
  obtain ⟨r, last⟩ := Option.ne_none_iff_exists'.mp named
  obtain ⟨s, lastOther⟩ := Option.ne_none_iff_exists'.mp alsoNamed
  exact ((homed key).of_lastNamed last).2.symm.trans ((homed other).of_lastNamed lastOther).2

/-- Take any interleaving of edits, updates and rebuilds in which no identifier is ever declared by two
files. When nothing is under way or owed and a rebuild has been completed, the records of each file
are those that it declares now, each file owns just these, and the index answers as a fresh scan of
all files does. -/
theorem no_update_lost {disk : Disk} {readyTimeoutMs : Nat} {events : List Event} {w : World}
    (run : Run (.opened disk readyTimeoutMs) events w)
    (unambiguous : ∀ id key other, EverDeclares disk events key id →
      EverDeclares disk events other id → key = other)
    (settled : w.Settled) :
    (∀ key id r, w.index.graph.get? id = some r ∧ r.path = key ↔
      lastNamed (w.disk.scan key) id = some r) ∧
    (∀ key id, id ∈ w.index.graph.owned key ↔ ∃ r ∈ w.disk.scan key, r.identifier = id) ∧
    ∀ listing, (∀ key, (w.disk key).isSome → key ∈ listing) →
      w.index.graph.SameAnswers (readAll w.disk.scan listing) := by
  obtain ⟨home, homed⟩ := exists_home unambiguous
  have start := opened_invariant (fun key => homed key _ (Or.inl rfl)) readyTimeoutMs
  have inv := start.run run fun key content member => homed key content (Or.inr member)
  have agrees := settled.agrees inv
  have stored : ∀ key id r, w.index.graph.get? id = some r ∧ r.path = key ↔
      lastNamed (w.disk.scan key) id = some r := by
    intro key id r
    constructor
    · rintro ⟨found, here⟩
      exact (agrees key).1 id r found here
    · intro named
      exact ⟨(agrees key).2 id r named, ((inv.disk key).of_lastNamed named).1⟩
  refine ⟨stored, ?_, ?_⟩
  · intro key id
    rw [inv.consistent.mem_owned]
    constructor
    · rintro ⟨r, found⟩
      obtain ⟨member, named⟩ := mem_of_lastNamed ((stored key id r).mp found)
      exact ⟨r, member, named⟩
    · rintro ⟨r, member, named⟩
      have declared : lastNamed (w.disk.scan key) id ≠ none :=
        fun none => lastNamed_eq_none_iff.mp none r member named
      obtain ⟨last, isLast⟩ := Option.ne_none_iff_exists'.mp declared
      exact ⟨last, (stored key id last).mpr isLast⟩
  · intro listing found
    apply inv.consistent.sameAnswers (readAll_consistent _ _)
    exact (reflects_of_agrees agrees found).models_eq
      (readAll_reflects (unambiguous_of_homed inv.disk listing))

/-- One file. -/
def soleDisk : Disk := fun key => if key = "/ws/a.py" then some sourceA else none

theorem soleDisk_everDeclares {events : List Event}
    (edits : ∀ key content, .edit key content ∈ events → key = "/ws/a.py") {key id : String}
    (declares : EverDeclares soleDisk events key id) : key = "/ws/a.py" := by
  obtain ⟨content, rfl | edited, r, member, _⟩ := declares
  · apply Classical.byContradiction
    intro different
    simp [soleDisk, different, declared] at member
  · exact edits key content edited

/-- The file is rewritten and updated between the rebuild's first look at it and its end. -/
theorem soleDisk_rewritten : ∃ events w, Run (.opened soleDisk 0) events w ∧ w.Settled ∧
    w.disk "/ws/a.py" = some sourceB ∧
    ∀ key content, .edit key content ∈ events → key = "/ws/a.py" := by
  have found : ∀ key, (soleDisk key).isSome → key ∈ ["/ws/a.py"] := by
    intro key present
    by_cases same : key = "/ws/a.py"
    · simp [same]
    · simp [soleDisk, same] at present
  have started := (Run.nil (w := .opened soleDisk 0)).snoc (.startRebuild rfl found)
  have scanned := started.snoc (.scan rfl List.mem_cons_self)
  have edited := scanned.snoc (.edit "/ws/a.py" (some sourceB))
  have updated := edited.update "/ws/a.py" (fun _ => rfl) (by rintro ⟨_, _, ⟨⟩⟩)
  obtain ⟨more, editless, swapped⟩ := run_install (updated.snoc (.beginInstall rfl)) rfl
  refine ⟨_, _, swapped, ⟨fun _ _ => rfl, rfl, rfl, rfl⟩, rfl, ?_⟩
  intro key content member
  simp only [List.mem_append, List.mem_singleton, List.not_mem_nil, editless, reduceCtorEq,
    false_or, or_false, Event.edit.injEq] at member
  exact member.1

theorem update_during_rebuild_kept : ∃ events w, Run (.opened soleDisk 0) events w ∧ w.Settled ∧
    "a" ∉ w.index.graph.owned "/ws/a.py" ∧ "b" ∈ w.index.graph.owned "/ws/a.py" := by
  obtain ⟨events, w, run, settled, written, edits⟩ := soleDisk_rewritten
  have unambiguous : ∀ id key other, EverDeclares soleDisk events key id →
      EverDeclares soleDisk events other id → key = other := by
    intro id key other declares otherDeclares
    rw [soleDisk_everDeclares edits declares, soleDisk_everDeclares edits otherDeclares]
  have owned := (no_update_lost run unambiguous settled).2.1 "/ws/a.py"
  refine ⟨events, w, run, settled, ?_⟩
  rw [owned, owned, Disk.scan, written, declared_sourceB]
  decide

end ModelAtlas.Index.Interleaving
