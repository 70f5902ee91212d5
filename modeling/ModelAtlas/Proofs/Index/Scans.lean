import ModelAtlas.Proofs.Index.Incremental

/-!
# Full scans

A scan reads files in the order in which they happen to arrive, and a file that lies below two roots
twice. As long as no two files declare the same identifier, neither matters: the graph is determined
by the set of the files. Nothing in it is detached, so it knows all children of every identifier.
-/

namespace ModelAtlas.Index

open Files Inheritance Model Source Std

/-- What can be read of each file. -/
abbrev Disk := String → Option (List UInt8)

/-- What each file declares. -/
def Disk.scan (disk : Disk) : Scan := fun path => declared path (disk path)

theorem path_of_mem_declared {path : String} {content : Option (List UInt8)} {r : ModelRecord}
    (member : r ∈ declared path content) : r.path = path := by
  unfold declared at member
  split at member
  · exact path_of_mem_extractModels member
  · cases member

theorem Disk.isSome_of_lastNamed {disk : Disk} {key id : String} {r : ModelRecord}
    (named : lastNamed (disk.scan key) id = some r) : (disk key).isSome := by
  cases content : disk key with
  | some bytes => rfl
  | none => simp [Disk.scan, declared, content, lastNamed] at named

/-- The graph of some files, read one after the other. -/
def readAll (scan : Scan) (paths : List String) : Graph :=
  paths.foldl (fun g path => g.addAll (scan path)) {}

theorem scanRoots_eq_readAll (t : Tree) (roots : List Path) :
    scanRoots t roots = readAll (scanFile t) ((sourceFiles t roots).map Path.text) := by
  rw [scanRoots, readAll, List.foldl_map]

theorem foldl_addAll_congr {scan also : Scan} {paths : List String}
    (same : ∀ path ∈ paths, scan path = also path) (g : Graph) :
    paths.foldl (fun g path => g.addAll (scan path)) g =
      paths.foldl (fun g path => g.addAll (also path)) g := by
  induction paths generalizing g with
  | nil => rfl
  | cons path rest ih =>
    obtain ⟨first, later⟩ := List.forall_mem_cons.mp same
    rw [List.foldl_cons, List.foldl_cons, first]
    exact ih later _

theorem readAll_consistent (scan : Scan) (paths : List String) : (readAll scan paths).Consistent := by
  apply List.foldlRecOn
  · exact Graph.consistent_empty
  · intro g consistent path _
    exact consistent.addAll _

/-! ### Nothing is detached -/

/-- Adding a record in place of another detaches nothing for long. -/
theorem not_mem_detached_add {g : Graph} (consistent : g.Consistent) (none : ∀ p, p ∉ g.detached)
    (r : ModelRecord) (p : String) : p ∉ (g.add r).detached := by
  have gone := Graph.not_mem_models_remove g r.identifier
  rw [Graph.add_eq_add_remove, (consistent.remove _).mem_detached_add_fresh gone]
  rintro ⟨detached, different⟩
  cases stored : g.models[r.identifier]? with
  | none =>
    rw [Graph.remove_of_absent stored] at detached
    exact none p detached
  | some old =>
    rw [consistent.mem_detached_remove stored] at detached
    rcases detached.1 with before | same
    · exact none p before
    · exact different same

theorem not_mem_detached_addAll {g : Graph} (consistent : g.Consistent) (none : ∀ p, p ∉ g.detached)
    (records : List ModelRecord) : ∀ p, p ∉ (g.addAll records).detached := by
  induction records generalizing g with
  | nil => exact none
  | cons r rest ih => exact ih (consistent.add r) (not_mem_detached_add consistent none r)

theorem detached_readAll (scan : Scan) (paths : List String) : (readAll scan paths).detached = ∅ := by
  have read : (readAll scan paths).Consistent ∧ ∀ p, p ∉ (readAll scan paths).detached := by
    unfold readAll
    refine List.foldlRecOn (motive := fun g : Graph => g.Consistent ∧ ∀ p, p ∉ g.detached) _ _ ?_ ?_
    · exact ⟨Graph.consistent_empty, by simp⟩
    · rintro g ⟨consistent, none⟩ path _
      exact ⟨consistent.addAll _, not_mem_detached_addAll consistent none _⟩
  exact ExtTreeMap.eq_empty_iff_forall_not_mem.mpr read.2

/-! ### Children -/

theorem childrenOf_pairwise_lt (g : Graph) (p : String) : (g.childrenOf p).Pairwise (· < ·) := by
  apply List.Pairwise.imp _ ExtTreeSet.ordered_toList
  intro a b less
  exact compareOfLessAndEq_eq_lt.mp less

theorem mem_childrenOf {g : Graph} (consistent : g.Consistent) (none : g.detached = ∅)
    (p c : String) : c ∈ g.childrenOf p ↔ ∃ r, g.get? c = some r ∧ p ∈ r.parents := by
  have attached : p ∉ g.detached := by simp [none]
  rw [consistent.childrenOf_eq, if_neg attached, consistent.mem_inheritors]
  rfl

/-! ### The set of files -/

theorem Scan.unambiguous_of_distinct {scan : Scan} {paths : List String}
    (distinct : ∀ p ∈ paths, ∀ q ∈ paths, ∀ r ∈ scan p, ∀ s ∈ scan q,
      r.identifier = s.identifier → p = q) : scan.Unambiguous (· ∈ paths) := by
  intro p q id isPath isOther named alsoNamed
  obtain ⟨r, last⟩ := Option.ne_none_iff_exists'.mp named
  obtain ⟨s, lastOther⟩ := Option.ne_none_iff_exists'.mp alsoNamed
  obtain ⟨member, isId⟩ := mem_of_lastNamed last
  obtain ⟨alsoMember, alsoId⟩ := mem_of_lastNamed lastOther
  exact distinct p isPath q isOther r member s alsoMember (isId.trans alsoId.symm)

theorem readAll_reflects {scan : Scan} {paths : List String}
    (unambiguous : scan.Unambiguous (· ∈ paths)) : Reflects (readAll scan paths) (· ∈ paths) scan := by
  have read := (reflects_empty scan).foldl_addAll paths (by simpa using unambiguous)
  exact read.congr (by simp)

theorem readAll_eq_of_same_paths {scan : Scan} {paths others : List String}
    (unambiguous : scan.Unambiguous (· ∈ paths)) (same : ∀ p, p ∈ others ↔ p ∈ paths) :
    readAll scan others = readAll scan paths := by
  have also : scan.Unambiguous (· ∈ others) := by
    simpa only [same] using unambiguous
  have reflects := (readAll_reflects also).congr same
  apply (readAll_consistent scan others).ext (readAll_consistent scan paths)
  · exact reflects.models_eq (readAll_reflects unambiguous)
  · intro p
    rw [detached_readAll, detached_readAll]

/-- Reading the same files in another order, or some of them several times, gives the same graph, and
so does a scan of any roots that find them. In it nothing is detached, and the children of an
identifier, stored or not, are all the records that list it, in order. -/
theorem scan_determined_by_files {disk : Disk} {paths : List String}
    (distinct : ∀ p ∈ paths, ∀ q ∈ paths, ∀ r ∈ disk.scan p, ∀ s ∈ disk.scan q,
      r.identifier = s.identifier → p = q) :
    let g := readAll disk.scan paths
    (∀ others, (∀ p, p ∈ others ↔ p ∈ paths) → readAll disk.scan others = g) ∧
    (∀ (t : Tree) (roots : List Path), (∀ p ∈ paths, scanFile t p = disk.scan p) →
      (∀ p, p ∈ (sourceFiles t roots).map Path.text ↔ p ∈ paths) → scanRoots t roots = g) ∧
    g.detached = ∅ ∧
    ∀ p, (g.childrenOf p).Pairwise (· < ·) ∧
      ∀ c, c ∈ g.childrenOf p ↔ ∃ r, g.get? c = some r ∧ p ∈ r.parents := by
  intro g
  have unambiguous := Scan.unambiguous_of_distinct distinct
  have detached : g.detached = ∅ := detached_readAll _ _
  refine ⟨fun others same => readAll_eq_of_same_paths unambiguous same, ?_, detached, ?_⟩
  · intro t roots shown found
    have read : ∀ p ∈ (sourceFiles t roots).map Path.text, scanFile t p = disk.scan p :=
      fun p member => shown p ((found p).mp member)
    rw [scanRoots_eq_readAll, readAll, foldl_addAll_congr read]
    exact readAll_eq_of_same_paths unambiguous found
  · intro p
    exact ⟨childrenOf_pairwise_lt g p, mem_childrenOf (readAll_consistent _ _) detached p⟩

/-- Two files of which one inherits from the other and from something unknown. -/
def pairDisk : Disk
  | "/ws/a.py" => some sourceA
  | "/ws/b.py" =>
    some "class B(models.Model):\n\t_name = 'b'\n\t_inherit = ['a', 'c']\n".toUTF8.data.toList
  | _ => none

def heirClass : Plain.Class where
  name := ['B']
  qualifier := "models".toList
  base := "Model".toList
  assignments := [⟨"_name".toList, .str ['b']⟩, ⟨"_inherit".toList, .list [['a'], ['c']]⟩]

def pairModels (path : String) : List ModelRecord :=
  plainModels path [if path = "/ws/a.py" then classA else heirClass]

theorem pairDisk_scan : ∀ path ∈ ["/ws/a.py", "/ws/b.py"], pairDisk.scan path = pairModels path := by
  have first : pairDisk.scan "/ws/a.py" = pairModels "/ws/a.py" := declared_sourceA "/ws/a.py"
  have second : pairDisk.scan "/ws/b.py" = pairModels "/ws/b.py" :=
    @declared_of_spelled "/ws/b.py" _ [heirClass] (by decide) (by decide)
  rw [List.forall_mem_cons, List.forall_mem_singleton]
  exact ⟨first, second⟩

theorem pairDisk_scanned_twice :
    readAll pairDisk.scan ["/ws/b.py", "/ws/a.py", "/ws/b.py"] =
        readAll pairDisk.scan ["/ws/a.py", "/ws/b.py"] ∧
      (readAll pairDisk.scan ["/ws/a.py", "/ws/b.py"]).childrenOf "c" = ["b"] := by
  have distinct : ∀ p ∈ ["/ws/a.py", "/ws/b.py"], ∀ q ∈ ["/ws/a.py", "/ws/b.py"],
      ∀ r ∈ pairModels p, ∀ s ∈ pairModels q, r.identifier = s.identifier → p = q := by
    decide
  have scanned := @scan_determined_by_files pairDisk ["/ws/a.py", "/ws/b.py"] fun p isP q isQ => by
    rw [pairDisk_scan p isP, pairDisk_scan q isQ]
    exact distinct p isP q isQ
  refine ⟨scanned.1 _ fun p => ?_, ?_⟩
  · simp only [List.mem_cons, List.not_mem_nil, or_false]
    grind
  · have read (scan : Scan) (p q : String) :
        readAll scan [p, q] = (({} : Graph).addAll (scan p)).addAll (scan q) := rfl
    rw [read, pairDisk_scan _ List.mem_cons_self,
      pairDisk_scan _ (List.mem_cons_of_mem _ List.mem_cons_self)]
    decide

end ModelAtlas.Index
