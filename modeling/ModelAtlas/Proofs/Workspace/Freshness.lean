import ModelAtlas.Proofs.Index.Promptness
import ModelAtlas.Proofs.Index.Sources
import ModelAtlas.Workspace

/-!
# Workspaces never answer from stale caches

Files are edited, changes are reported or not, the project is scanned again, and queries fill the
caches, in any order. Every answer is the one that the graph gives at that moment.
-/

namespace ModelAtlas

open Addon Config Files Index Inheritance Model

/-- What happens to a workspace. -/
inductive Event where
  /-- Files are edited, which nobody is told about. -/
  | edit (tree : Tree)
  | rebuild
  | filesChanged (paths : List String)
  | fields (id : String)
  | methods (id : String)
  | describe (id : String)
  | related (id path : String)

namespace Workspace

def graph (w : Workspace) : Graph := w.session.index.graph

def step (w : Workspace) : Event → Workspace
  | .edit tree => w.withSession { w.session with tree := tree }
  | .rebuild => w.rebuild.2
  | .filesChanged paths => (w.filesChanged paths).2
  | .fields id => (w.fieldsOf id).2
  | .methods id => (w.methodsOf id).2
  | .describe id => (w.describe id).2
  | .related id path => (w.resolveRelated id path).2

/-- The workspace after some events, the first one first. -/
def run (w : Workspace) (events : List Event) : Workspace := events.foldl step w

/-! ### Steps -/

theorem rebuild_cases (w : Workspace) :
    ((w.session.rebuild w.rootPaths).1 = none ∧
      w.rebuild.2.session = (w.session.rebuild w.rootPaths).2) ∨
    w.rebuild.2.session = (w.session.rebuild w.rootPaths).2.clearFields.clearMethods := by
  unfold rebuild rediscoverModules
  dsimp only
  split
  · rename_i s refused
    have scanned : w.session.rebuild w.rootPaths = (none, s) := refused
    rw [scanned]
    exact Or.inl ⟨rfl, rfl⟩
  · rename_i count s done
    have scanned : w.session.rebuild w.rootPaths = (some count, s) := done
    rw [scanned]
    exact Or.inr rfl

/-- Finding modules again leaves the session alone, so only the sources matter to it. -/
theorem filesChanged_cases (w : Workspace) (paths : List String) :
    ∃ sources, sources = paths.filter (fun path => (Path.parse path).extension? == some "py") ∧
      (sources = [] ∧ (w.filesChanged paths).2.session = w.session ∨
        (w.filesChanged paths).1 = (w.session.update sources).1 ∧
        (w.filesChanged paths).2.session =
          let (changed, s) := w.session.update sources
          let affected := (s.index.graph.descendants changed.toList).toList
          (s.invalidateFields affected).invalidateMethods affected) := by
  refine ⟨_, rfl, ?_⟩
  unfold filesChanged
  dsimp only
  split
  · rename_i none
    refine Or.inl ⟨List.isEmpty_iff.mp none, ?_⟩
    split <;> rfl
  · refine Or.inr ⟨?_, ?_⟩
    · split <;> rfl
    · split <;> rfl

theorem rebuild_sound {w : Workspace} (sound : w.session.Sound) : w.rebuild.2.session.Sound := by
  obtain ⟨cleared, unchanged⟩ := sound.rebuild w.rootPaths
  rcases w.rebuild_cases with ⟨refused, same⟩ | same
  · rw [same]
    exact unchanged refused
  · rw [same]
    exact cleared

theorem filesChanged_sound {w : Workspace} (sound : w.session.Sound) (paths : List String) :
    (w.filesChanged paths).2.session.Sound := by
  obtain ⟨sources, _, ⟨_, same⟩ | ⟨_, same⟩⟩ := w.filesChanged_cases paths
  · rw [same]
    exact sound
  · rw [same]
    exact sound.update sources

theorem describe_sound {w : Workspace} (sound : w.session.Sound) (id : String) :
    (w.describe id).2.session.Sound := by
  have found := sound.awaitReady
  unfold describe findModel read Session.read
  dsimp only
  cases w.session.awaitReady.2.index.graph.get? id with
  | none => exact found
  | some r => exact (found.resolveComplete id).1.awaitReady

theorem step_sound {w : Workspace} (sound : w.session.Sound) (event : Event) :
    (w.step event).session.Sound := by
  cases event with
  | edit tree => exact ⟨sound.consistent, sound.fields, sound.methods, sound.attended, sound.served⟩
  | rebuild => exact rebuild_sound sound
  | filesChanged paths => exact filesChanged_sound sound paths
  | fields id => exact (sound.resolveFields id).1
  | methods id => exact (sound.resolveMethods id).2.1
  | describe id => exact describe_sound sound id
  | related id path => exact (sound.walkFields id (segments path)).1

theorem run_sound {w : Workspace} (sound : w.session.Sound) (events : List Event) :
    (w.run events).session.Sound := by
  induction events generalizing w with
  | nil => exact sound
  | cons event rest ih => exact ih (step_sound sound event)

theorem openAt_sound (tree : Tree) (root : String) (config : Option Config) :
    (openAt tree root config).session.Sound := by
  unfold openAt ensureStarted
  dsimp only
  split
  · exact Session.sound_of_empty rfl rfl rfl
  · split
    · exact rebuild_sound (Session.sound_of_empty rfl rfl rfl)
    · exact Session.sound_of_empty rfl rfl rfl

/-! ### Waits -/

theorem rebuild_prompt {w : Workspace} (sound : w.session.Sound)
    (running : w.session.pool.fate = .ran)
    (free : w.session.index.rebuilding = true → w.session.index.isReady = true) :
    w.rebuild.2.session.Prompt := by
  have scanned := sound.prompt_rebuild running free w.rootPaths
  rcases w.rebuild_cases with ⟨_, same⟩ | same
  · rw [same]
    exact scanned
  · rw [same]
    exact scanned.clear

theorem filesChanged_prompt {w : Workspace} (prompt : w.session.Prompt) (paths : List String) :
    (w.filesChanged paths).2.session.Prompt := by
  obtain ⟨sources, _, ⟨_, same⟩ | ⟨_, same⟩⟩ := w.filesChanged_cases paths
  · rw [same]
    exact prompt
  · rw [same]
    exact (prompt.update sources).invalidate _

theorem describe_prompt {w : Workspace} (prompt : w.session.Prompt) (id : String) :
    (w.describe id).2.session.Prompt := by
  have resolved := prompt.resolveComplete id
  unfold describe findModel read Session.read
  dsimp only
  rw [prompt.awaitReady]
  cases w.session.index.graph.get? id with
  | none => exact prompt
  | some r =>
    unfold withSession
    dsimp only
    rw [resolved.awaitReady]
    exact resolved

theorem step_prompt {w : Workspace} (sound : w.session.Sound) (prompt : w.session.Prompt)
    (event : Event) : (w.step event).session.Prompt := by
  cases event with
  | edit tree => exact ⟨prompt.running, prompt.ready, prompt.due⟩
  | rebuild => exact rebuild_prompt sound prompt.running fun _ => prompt.ready
  | filesChanged paths => exact filesChanged_prompt prompt paths
  | fields id => exact prompt.resolveFields id
  | methods id => exact prompt.resolveMethods id
  | describe id => exact describe_prompt prompt id
  | related id path => exact prompt.walkFields id (segments path)

theorem run_prompt {w : Workspace} (sound : w.session.Sound) (prompt : w.session.Prompt)
    (events : List Event) : (w.run events).session.Prompt := by
  induction events generalizing w with
  | nil => exact prompt
  | cons event rest ih => exact ih (step_sound sound event) (step_prompt sound prompt event)

theorem openAt_prompt (tree : Tree) (root : String) (config : Option Config)
    (running : (Pool.ofSize
      (Settings.resolve (config.getD (Config.load tree root)) root).workers).fate = .ran) :
    (openAt tree root config).session.Prompt := by
  unfold openAt ensureStarted
  dsimp only
  rw [if_neg (by simp), running]
  exact rebuild_prompt (Session.sound_of_empty rfl rfl rfl) running (by simp)

/-! ### What is scanned -/

theorem rebuild_graph {w : Workspace} (sound : w.session.Sound)
    (idle : w.session.index.rebuilding = false) :
    w.rebuild.2.graph = scanRoots w.session.tree w.rootPaths := by
  have scanned : (w.session.rebuild w.rootPaths).2.index.graph =
      scanRoots w.session.tree w.rootPaths := by
    obtain ⟨_, kept⟩ := sound.scanning w.rootPaths
    show ((w.session.scanning w.rootPaths).index.rebuild _ w.rootPaths).2.graph = _
    rw [kept.index, kept.tree, ModelIndex.rebuild_of_idle _ idle]
  unfold graph
  rcases w.rebuild_cases with ⟨_, same⟩ | same
  · rw [same]
    exact scanned
  · rw [same]
    exact scanned

theorem openAt_graph (tree : Tree) (root : String) (config : Option Config)
    (running : (Pool.ofSize
      (Settings.resolve (config.getD (Config.load tree root)) root).workers).fate = .ran) :
    (openAt tree root config).graph = scanRoots tree
      ((Settings.resolve (config.getD (Config.load tree root)) root).roots.map Path.parse) := by
  unfold openAt ensureStarted
  dsimp only
  rw [if_neg (by simp), running]
  exact rebuild_graph (Session.sound_of_empty rfl rfl rfl) rfl

theorem filesChanged_graph (w : Workspace) (paths : List String) :
    (w.filesChanged paths).2.graph = ModelIndex.recommit w.session.tree w.graph
      ((paths.filter fun path => (Path.parse path).extension? == some "py").map
        w.session.tree.key) := by
  unfold graph
  obtain ⟨sources, rfl, ⟨none, same⟩ | ⟨_, same⟩⟩ := w.filesChanged_cases paths
  · rw [same, none]
    rfl
  · rw [same]
    show (w.session.update _).2.index.graph = _
    rw [(w.session.update_eq _).2, ModelIndex.update_graph]

/-! ### Answers -/

theorem describe_eq {w : Workspace} (sound : w.session.Sound) (running : w.session.pool.fate = .ran)
    (id : String) :
    (w.describe id).1 = (w.graph.get? id).map fun r =>
      .of r (w.graph.fieldsOf id) (w.graph.childrenOf id) ((w.moduleOfRecord r).map (·.name)) := by
  have waited := w.session.keeps_awaitReady
  have fields := sound.awaitReady.resolveComplete_eq (waited.pool ▸ running) id
  have resolved := waited.trans (sound.awaitReady.resolveComplete id).2
  have last := resolved.trans (Session.keeps_awaitReady _)
  unfold describe findModel read Session.read graph
  dsimp only
  rw [waited.index] at fields ⊢
  cases w.session.index.graph.get? id with
  | none => rfl
  | some r =>
    unfold moduleOfRecord withSession
    dsimp only
    rw [fields, last.index, last.tree]
    rfl

theorem filesChanged_lineage {w : Workspace} (sound : w.session.Sound) (paths : List String)
    (id : String) (different : w.graph.lineage id ≠ (w.filesChanged paths).2.graph.lineage id) :
    id ∈ (w.filesChanged paths).2.graph.descendants (w.filesChanged paths).1.toList := by
  unfold graph at different ⊢
  obtain ⟨sources, _, ⟨_, same⟩ | ⟨reported, same⟩⟩ := w.filesChanged_cases paths
  · rw [same] at different
    exact absurd rfl different
  · obtain ⟨changed, index⟩ := w.session.update_eq sources
    have updated : (w.filesChanged paths).2.session.index =
        (w.session.index.update w.session.tree sources).2 := by
      rw [same]
      exact index
    rw [updated] at different ⊢
    rw [reported, changed]
    exact ModelIndex.update_lineage_ne _ sound.consistent different

/-- Whatever has happened to a workspace, its answers about members are those of its graph, as long as
its computations finish, and what inherits from a reported change covers every changed lineage. -/
theorem members_never_stale (tree : Tree) (root : String) (config : Option Config)
    (events : List Event) :
    let w := (openAt tree root config).run events
    (∀ id, w.session.answersInTime id = true → (w.fieldsOf id).1 = w.graph.fieldsOf id) ∧
    (∀ id, (w.methodsOf id).1 = w.graph.methodsOf id) ∧
    (w.session.pool.fate = .ran →
      (∀ id, (w.describe id).1 = (w.graph.get? id).map fun r =>
        .of r (w.graph.fieldsOf id) (w.graph.childrenOf id) ((w.moduleOfRecord r).map (·.name))) ∧
      ∀ id path, (w.resolveRelated id path).1 = w.graph.fieldAt id path) ∧
    ∀ paths id, w.graph.lineage id ≠ (w.filesChanged paths).2.graph.lineage id →
      id ∈ (w.filesChanged paths).2.graph.descendants (w.filesChanged paths).1.toList := by
  intro w
  have sound : w.session.Sound := run_sound (openAt_sound tree root config) events
  refine ⟨?_, ?_, ?_, ?_⟩
  · intro id inTime
    exact sound.resolveFields_eq inTime
  · intro id
    exact (sound.resolveMethods id).1
  · intro running
    exact ⟨describe_eq sound running, fun id path => sound.walkFields_eq running id (segments path)⟩
  · exact fun paths id => filesChanged_lineage sound paths id

/-! ### An example -/

/-- One source in a directory. -/
def oneSource : Tree :=
  (∅ : Tree).insert ["ws"] .dir |>.insert ["ws", "a.py"] (.file fieldSource)

/-- A project that is empty when it is opened, and then has a source in it. -/
def unreported : Workspace := (openAt ∅ "/ws" (some {})).run [.edit oneSource]

def reported : Workspace :=
  (openAt ∅ "/ws" (some {})).run [.edit oneSource, .filesChanged ["/ws/a.py"]]

/-- Before it is told of a source, the project knows no models. -/
theorem graph_before_report (disk : Tree) :
    ((openAt ∅ "/ws" (some {})).run [.edit disk]).graph = {} := by
  have clear : (∅ : Tree).Clear ["ws"] := by decide
  have normal : (∅ : Tree).normalize (.parse "/ws") = .ofParts ["ws"] :=
    Tree.LeadsTo.normalize (by decide) (Tree.leadsTo_self ∅ (by decide)) clear.unlinked_self
  have missing : (∅ : Tree).resolve ["ws"] = .error .notFound :=
    Tree.walk_missing (by decide) (by decide) _ []
  have none : sourceFiles ∅ [.parse "/ws"] = [] := by
    unfold sourceFiles
    rw [List.flatMap_singleton, discover_sources_eq_nil normal (by decide) (by decide)
      (Tree.filesUnder_of_error missing)]
    rfl
  exact (openAt_graph ∅ "/ws" (some {}) (by decide)).trans (scanRoots_of_no_sources none)

/-- Afterwards it knows the models that the source declares. -/
theorem graph_after_report {disk : Tree} (formed : disk.WellFormed) (clear : disk.Clear ["ws"]) :
    ((openAt ∅ "/ws" (some {})).run [.edit disk, .filesChanged ["/ws/a.py"]]).graph =
      (commit {} (Path.ofParts ["ws", "a.py"]).text
        (declared (Path.ofParts ["ws", "a.py"]).text (disk.contentAt ["ws", "a.py"]))).2 := by
  have valid : ∀ n ∈ ["ws", "a.py"], IsName n := by decide
  have unlinked : disk.Unlinked ["ws", "a.py"] := clear.unlinked ["a.py"]
  have key : disk.key "/ws/a.py" = (Path.ofParts ["ws", "a.py"]).text :=
    (disk.spells_text valid).key unlinked
  have sources : ["/ws/a.py"].filter (fun path => (Path.parse path).extension? == some "py") =
      ["/ws/a.py"] := by decide
  show (((openAt ∅ "/ws" (some {})).run [.edit disk]).filesChanged ["/ws/a.py"]).2.graph = _
  rw [filesChanged_graph, graph_before_report, sources, List.map_singleton,
    show ((openAt ∅ "/ws" (some {})).run [.edit disk]).session.tree.key "/ws/a.py" = _ from key]
  show (commit {} _ (scanFile disk _)).2 = _
  rw [scanFile_text formed (List.cons_ne_nil _ _) valid unlinked]

theorem reported_stored : (reported.graph.get? "a").isSome := by
  unfold reported
  rw [graph_after_report (by decide) (by decide),
    show oneSource.contentAt ["ws", "a.py"] = some fieldSource by decide, declared_fieldSource]
  decide

theorem reported_lineage : unreported.graph.lineage "a" ≠ reported.graph.lineage "a" := by
  intro same
  have stored := reported_stored
  have first := congrArg List.head? same
  rw [Graph.head?_lineage, Graph.head?_lineage, show unreported.graph = {} from
    graph_before_report oneSource] at first
  rw [← first] at stored
  cases stored

theorem reported_members_never_stale :
    (reported.graph.get? "a").isSome ∧
    (reported.fieldsOf "a").1 = reported.graph.fieldsOf "a" ∧
    (reported.resolveRelated "a" "x").1 = reported.graph.fieldAt "a" "x" ∧
    "a" ∈ reported.graph.descendants (unreported.filesChanged ["/ws/a.py"]).1.toList := by
  have opened := openAt_sound ∅ "/ws" (some {})
  have prompt : reported.session.Prompt :=
    run_prompt opened (openAt_prompt ∅ "/ws" (some {}) (by decide)) _
  obtain ⟨_, _, _, invalidated⟩ := members_never_stale ∅ "/ws" (some {}) [.edit oneSource]
  obtain ⟨fields, _, complete, _⟩ :=
    members_never_stale ∅ "/ws" (some {}) [.edit oneSource, .filesChanged ["/ws/a.py"]]
  exact ⟨reported_stored, fields "a" (prompt.answersInTime (run_sound opened _) "a"),
    (complete prompt.running).2 "a" "x", invalidated ["/ws/a.py"] "a" reported_lineage⟩

end Workspace

end ModelAtlas
