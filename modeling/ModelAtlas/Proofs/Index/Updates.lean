import ModelAtlas.Proofs.Index.Commit

/-!
# Updates and rebuilds

The graph of an index stays consistent through updates and rebuilds. An update leaves every record
alone that it does not report, and a rebuild that nothing comes in between takes over what it scanned.
-/

namespace ModelAtlas.Index

open Files Inheritance Model Std

theorem scanRoots_consistent (t : Tree) (roots : List Path) : (scanRoots t roots).Consistent := by
  unfold scanRoots
  have folded : ∀ (paths : List Path) (g : Graph), g.Consistent →
      (paths.foldl (fun g path => g.addAll (scanFile t path.text)) g).Consistent := by
    intro paths
    induction paths with
    | nil => exact fun _ consistent => consistent
    | cons path rest ih => exact fun _ consistent => ih _ (consistent.addAll _)
  exact folded _ _ Graph.consistent_empty

theorem scanRoots_of_no_sources {t : Tree} {roots : List Path} (none : sourceFiles t roots = []) :
    scanRoots t roots = {} := by
  unfold scanRoots
  rw [none]
  rfl

namespace ModelIndex

/-- The graph after the files under some keys have been read again. -/
def recommit (t : Tree) (g : Graph) (keys : List String) : Graph :=
  keys.foldl (fun g key => (commit g key (scanFile t key)).2) g

theorem recommit_consistent (t : Tree) {g : Graph} (consistent : g.Consistent)
    (keys : List String) : (recommit t g keys).Consistent := by
  induction keys generalizing g with
  | nil => exact consistent
  | cons key rest ih => exact ih (commit_consistent consistent key _)

theorem updateFiles_graph (t : Tree) (i : ModelIndex) (paths : List String) :
    (updateFiles t i paths).2.graph = recommit t i.graph (paths.map t.key) := by
  induction paths generalizing i with
  | nil => rfl
  | cons path rest ih => exact ih _

theorem updateFiles_kept (t : Tree) {i : ModelIndex} (consistent : i.graph.Consistent)
    {paths : List String} {id : String} (unreported : id ∉ (updateFiles t i paths).1) :
    i.graph.models[id]? = (updateFiles t i paths).2.graph.models[id]? := by
  induction paths generalizing i with
  | nil => rfl
  | cons path rest ih =>
    have split : (updateFiles t i (path :: rest)).1 =
        (i.updateFile t path).1 ++ (updateFiles t (i.updateFile t path).2 rest).1 := rfl
    rw [split, List.mem_append, not_or] at unreported
    have first : (i.updateFile t path).2.graph.models[id]? = i.graph.models[id]? :=
      getElem?_models_commit_of_not_mem consistent unreported.1
    have later := ih (commit_consistent consistent (t.key path) _) unreported.2
    exact first.symm.trans later

theorem update_graph (t : Tree) (i : ModelIndex) (paths : List String) :
    (i.update t paths).2.graph = recommit t i.graph (paths.map t.key) :=
  updateFiles_graph t i.begin paths

theorem update_consistent (t : Tree) {i : ModelIndex} (consistent : i.graph.Consistent)
    (paths : List String) : (i.update t paths).2.graph.Consistent := by
  rw [update_graph]
  exact recommit_consistent t consistent _

theorem update_kept (t : Tree) {i : ModelIndex} (consistent : i.graph.Consistent)
    {paths : List String} {id : String} (unreported : id ∉ (i.update t paths).1.toList) :
    i.graph.models[id]? = (i.update t paths).2.graph.models[id]? := by
  have outside : id ∉ (updateFiles t i.begin paths).1 := by
    intro member
    apply unreported
    rw [ExtTreeSet.mem_toList]
    exact ExtTreeSet.mem_ofList.mpr (List.contains_iff_mem.mpr member)
  exact updateFiles_kept t (i := i.begin) consistent outside

theorem update_lineage_ne (t : Tree) {i : ModelIndex} (consistent : i.graph.Consistent)
    {paths : List String} {id : String}
    (different : i.graph.lineage id ≠ (i.update t paths).2.graph.lineage id) :
    id ∈ (i.update t paths).2.graph.descendants (i.update t paths).1.toList :=
  (update_consistent t consistent paths).mem_descendants_of_lineage_ne
    (fun _ unreported => update_kept t consistent unreported) different

theorem rebuild_of_idle (t : Tree) {i : ModelIndex} (idle : i.rebuilding = false)
    (roots : List Path) : (i.rebuild t roots).2.graph = scanRoots t roots := by
  have untouched : touched { i with rebuilding := true }.begin ⟨i.generations, scanRoots t roots⟩ = [] := by
    simp [touched, begin]
  unfold rebuild startRebuild
  simp only [idle, Bool.false_eq_true, if_false]
  unfold install
  rw [untouched]
  rfl

theorem rebuild_of_busy (t : Tree) {i : ModelIndex} (busy : i.rebuilding = true)
    (roots : List Path) : i.rebuild t roots = (none, i) := by
  unfold rebuild startRebuild
  simp [busy]

theorem rebuild_consistent (t : Tree) {i : ModelIndex} (consistent : i.graph.Consistent)
    (roots : List Path) : (i.rebuild t roots).2.graph.Consistent := by
  cases running : i.rebuilding with
  | false =>
    rw [rebuild_of_idle t running]
    exact scanRoots_consistent t roots
  | true =>
    rw [rebuild_of_busy t running]
    exact consistent

end ModelIndex

end ModelAtlas.Index
