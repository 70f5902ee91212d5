import ModelAtlas.Files.Discovery
import ModelAtlas.Inheritance.Traversal

/-!
# The model index

The index holds the graph of all models below some roots. A rebuild scans everything into a fresh
graph and then takes it over; an update reads single files again. Each update of a file raises the
generation of the file, so that a rebuild can tell which files changed while it was scanning.
-/

namespace ModelAtlas.Index

open Files Inheritance Model Source Std

/-! ### Scanning -/

/-- The models that the file at a path declares now. A file that cannot be read declares none. -/
def scanFile (t : Tree) (path : String) : List ModelRecord :=
  match t.readText path with
  | .ok text => extractModels (SourceFile.parse path text)
  | .error _ => []

/-- The glob of source files. -/
def sourcePattern : String := "**/*.py"

/-- The source files below some roots. A root that cannot be searched has none. -/
def sourceFiles (t : Tree) (roots : List Path) : List Path :=
  roots.flatMap fun root => (t.discover root sourcePattern).toOption.getD []

/-- The graph of everything below some roots. -/
def scanRoots (t : Tree) (roots : List Path) : Graph :=
  (sourceFiles t roots).foldl (fun g path => g.addAll (scanFile t path.text)) {}

/-- Replaces the records of a file, and tells which identifiers that touches. -/
def commit (g : Graph) (path : String) (records : List ModelRecord) : List String × Graph :=
  let (removed, g) := g.removeFile path
  (removed ++ records.map (·.identifier), g.addAll records)

/-! ### State -/

inductive IndexState where
  /-- No scan has been completed and none is running. -/
  | empty
  /-- A rebuild or an update is running. -/
  | indexing
  | ready
deriving DecidableEq, Repr

def IndexState.name : IndexState → String
  | .empty => "empty"
  | .indexing => "indexing"
  | .ready => "ready"

structure Status where
  /-- Rebuilds and updates that are running. -/
  active : Nat := 0
  /-- Whether a scan has been completed. -/
  readyOnce : Bool := false
deriving DecidableEq, Repr, Inhabited

def Status.state (s : Status) : IndexState :=
  if s.active = 0 then (if s.readyOnce then .ready else .empty) else .indexing

abbrev Generations := ExtTreeMap String Nat

structure ModelIndex where
  graph : Graph := {}
  status : Status := {}
  rebuilding : Bool := false
  generations : Generations := ∅
  /-- How long a query waits for the first scan, in milliseconds. -/
  readyTimeoutMs : Nat := 0

/-- A rebuild that has scanned but not taken over yet. -/
structure Rebuild where
  /-- The generations when it started. -/
  before : Generations
  graph : Graph

namespace ModelIndex

def isReady (i : ModelIndex) : Bool := i.status.readyOnce

def state (i : ModelIndex) : IndexState := i.status.state

/-- Marks the start of a rebuild or an update. -/
def begin (i : ModelIndex) : ModelIndex :=
  { i with status := { i.status with active := i.status.active + 1 } }

/-- Marks the end of a rebuild or an update. -/
def finish (i : ModelIndex) : ModelIndex :=
  { i with status := { i.status with active := i.status.active - 1 } }

/-! ### Updates -/

/-- Raises the generation of a file. -/
def bump (i : ModelIndex) (key : String) : ModelIndex :=
  { i with generations := i.generations.insert key (i.generations[key]?.getD 0 + 1) }

/-- Reads one file again. -/
def updateFile (t : Tree) (i : ModelIndex) (path : String) : List String × ModelIndex :=
  let key := t.key path
  let i := i.bump key
  let (changed, graph) := commit i.graph key (scanFile t key)
  (changed, { i with graph := graph })

/-- Reads files again, and tells which identifiers that touches. -/
def updateFiles (t : Tree) : ModelIndex → List String → List String × ModelIndex
  | i, [] => ([], i)
  | i, path :: rest =>
    let (changed, i) := i.updateFile t path
    let (others, i) := updateFiles t i rest
    (changed ++ others, i)

def update (t : Tree) (i : ModelIndex) (paths : List String) : Names × ModelIndex :=
  let (changed, i) := i.begin.updateFiles t paths
  (ExtTreeSet.ofList changed, i.finish)

/-! ### Rebuilds -/

/-- Starts a rebuild, unless one is running, and scans. -/
def startRebuild (t : Tree) (i : ModelIndex) (roots : List Path) : Option (Rebuild × ModelIndex) :=
  if i.rebuilding then none
  else some (⟨i.generations, scanRoots t roots⟩, { i with rebuilding := true }.begin)

/-- The files that were updated since the rebuild started. -/
def touched (i : ModelIndex) (r : Rebuild) : List String :=
  i.generations.keys.filter fun key => r.before[key]? != i.generations[key]?

/-- Reads the files that were updated in the meantime again and takes the new graph over. -/
def install (t : Tree) (i : ModelIndex) (r : Rebuild) : Nat × ModelIndex :=
  let graph := (i.touched r).foldl (fun g key => (commit g key (scanFile t key)).2) r.graph
  let i := { i with
    graph := graph
    rebuilding := false
    status := { i.status with readyOnce := true } }
  (graph.size, i.finish)

/-- Scans some roots from scratch, and tells how many models there are. -/
def rebuild (t : Tree) (i : ModelIndex) (roots : List Path) : Option Nat × ModelIndex :=
  match i.startRebuild t roots with
  | none => (none, i)
  | some (r, i) =>
    let (count, i) := i.install t r
    (some count, i)

end ModelIndex

end ModelAtlas.Index
