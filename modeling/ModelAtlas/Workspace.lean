import ModelAtlas.Addon.Registry
import ModelAtlas.Config.Settings
import ModelAtlas.Index.Session
import ModelAtlas.Model.Inspection
import ModelAtlas.Workspace.Summary

/-!
# Workspaces

A workspace is a project that is open: its settings, a session over its files, and its modules.
Reported changes update the index and drop the cached members of everything that inherits from a
changed model.
-/

namespace ModelAtlas

open Addon Config Files Index Inheritance Model Source

structure Workspace where
  root : String
  settings : Settings
  session : Session
  modules : Registry := ∅
  /-- Whether the first scan has been asked for. -/
  started : Bool := false

/-- A file that could not be read. -/
structure ReadError where
  path : String
  cause : AccessError
deriving DecidableEq, Repr

def ReadError.message (e : ReadError) : String :=
  "could not read " ++ e.path ++ ": " ++ e.cause.message

namespace Workspace

/-- The roots to scan. -/
def rootPaths (w : Workspace) : List Path := w.settings.roots.map Path.parse

def withSession (w : Workspace) (s : Session) : Workspace := { w with session := s }

/-! ### Scanning -/

/-- Finds the modules again. -/
def rediscoverModules (w : Workspace) : Workspace :=
  { w with modules := Registry.discoverAll w.session.tree w.rootPaths }

/-- Scans modules and sources from scratch, and drops all cached members. -/
def rebuild (w : Workspace) : Option Nat × Workspace :=
  let w := w.rediscoverModules
  match w.session.rebuild w.rootPaths with
  | (none, s) => (none, w.withSession s)
  | (some count, s) => (some count, w.withSession s.clearFields.clearMethods)

/-- Starts the first scan, unless that has been done. It needs a worker. -/
def ensureStarted (w : Workspace) : Workspace :=
  if w.started then w
  else
    let w := { w with started := true }
    match w.session.pool.fate with
    | .ran => w.rebuild.2
    | _ => w

/-- Opens a project. Without a configuration, the one in its root is used. -/
def openAt (tree : Tree) (root : String) (config : Option Config) : Workspace :=
  let settings := Settings.resolve (config.getD (Config.load tree root)) root
  let session : Session := {
    tree := tree
    index := { readyTimeoutMs := settings.readyTimeoutMs }
    pool := Pool.ofSize settings.workers
    waitMs := settings.fieldWaitMs }
  ensureStarted { root := root, settings := settings, session := session }

/-- Waits for the first scan. -/
def ready (w : Workspace) : Bool × Workspace :=
  let (ready, s) := w.session.awaitReady
  (ready, w.withSession s)

/-- Takes over changes of files on disk, and tells which models changed. -/
def filesChanged (w : Workspace) (paths : List String) : Names × Workspace :=
  let isManifest (path : String) := (Path.parse path).fileName? == some manifestFile
  let w := if paths.any isManifest then w.rediscoverModules else w
  let sources := paths.filter fun path => (Path.parse path).extension? == some "py"
  if sources.isEmpty then (∅, w)
  else
    let (changed, s) := w.session.update sources
    let affected := (s.index.graph.descendants changed.toList).toList
    (changed, w.withSession ((s.invalidateFields affected).invalidateMethods affected))

/-- Lets jobs finish and drops all cached members. -/
def close (w : Workspace) : Workspace :=
  w.withSession w.session.close.clearFields.clearMethods

/-! ### Queries -/

def read (w : Workspace) : Graph × Workspace :=
  let (graph, s) := w.session.read
  (graph, w.withSession s)

def findModel (w : Workspace) (id : String) : Option ModelRecord × Workspace :=
  let (graph, w) := w.read
  (graph.get? id, w)

def allModels (w : Workspace) : List ModelRecord × Workspace :=
  let (graph, w) := w.read
  (graph.records, w)

def mixins (w : Workspace) : List ModelRecord × Workspace :=
  let (models, w) := w.allModels
  (models.filter ModelRecord.isMixin, w)

/-- The records that list `id` as a parent. -/
def inheriting (w : Workspace) (id : String) : List ModelRecord × Workspace :=
  let (graph, w) := w.read
  ((graph.childrenOf id).filterMap graph.get?, w)

def startingWith (w : Workspace) (head : String) : List String × Workspace :=
  let (graph, w) := w.read
  (graph.startingWith head, w)

/-- Whether there is any module. -/
def isFrameworkProject (w : Workspace) : Bool × Workspace :=
  let (_, w) := w.ready
  (!w.modules.isEmpty, w)

def fieldsOf (w : Workspace) (id : String) : List FieldRecord × Workspace :=
  let (fields, s) := w.session.resolveFields id
  (fields, w.withSession s)

def methodsOf (w : Workspace) (id : String) : List MethodRecord × Workspace :=
  let (methods, s) := w.session.resolveMethods id
  (methods, w.withSession s)

/-- The field at the end of a dotted path. -/
def resolveRelated (w : Workspace) (id path : String) : Option FieldRecord × Workspace :=
  let (field, s) := w.session.resolvePath id path
  (field, w.withSession s)

/-- The model that a relational field points to. -/
def relatedModel (w : Workspace) (field : FieldRecord) : Option ModelRecord × Workspace :=
  match field.kind.isRelational, field.comodel with
  | true, some comodel => w.findModel comodel
  | _, _ => (none, w)

/-- The module in which a record is declared. -/
def moduleOfRecord (w : Workspace) (r : ModelRecord) : Option Module :=
  w.modules.moduleOf w.session.tree (Path.parse r.path)

def moduleOf (w : Workspace) (id : String) : Option Module × Workspace :=
  let (record, w) := w.findModel id
  (record.bind w.moduleOfRecord, w)

def describe (w : Workspace) (id : String) : Option Summary × Workspace :=
  match w.findModel id with
  | (none, w) => (none, w)
  | (some record, w) =>
    let (fields, s) := w.session.resolveComplete id
    let (graph, s) := s.read
    let w := w.withSession s
    (some (.of record fields (graph.childrenOf id) ((w.moduleOfRecord record).map (·.name))), w)

/-- What is wrong in the file at a path. Parents are judged only after the first scan. -/
def inspect (w : Workspace) (path : String) : Except ReadError (List Diagnostic) :=
  match w.session.tree.readText path with
  | .error cause => .error ⟨path, cause⟩
  | .ok text =>
    let file := SourceFile.parse path text
    let graph := w.session.index.graph
    let parents :=
      if w.session.index.isReady then
        file.classes.flatMap (inspectParents · fun p => (graph.get? p).isSome)
      else []
    .ok (inspectFile file ++ parents)

end Workspace

end ModelAtlas
