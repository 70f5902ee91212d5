import ModelAtlas.Index.Cache
import ModelAtlas.Index.ModelIndex
import ModelAtlas.Index.Pool

/-!
# Sessions

A session is an index over a file tree with its member caches, a worker pool and a clock. Only
waiting takes time. A query of an index that has never been ready waits for the first scan as long
as the index says, and then answers from what there is. Jobs run while the session waits or reads
files, never in between.
-/

namespace ModelAtlas.Index

open Files Inheritance Model

structure Session where
  tree : Tree := ∅
  /-- Milliseconds that have passed. -/
  clock : Nat := 0
  index : ModelIndex := {}
  pool : Pool
  /-- How long a query waits for fields, in milliseconds. -/
  waitMs : Nat
  fields : FieldCache := {}
  methods : MethodCache := {}

namespace Session

/-! ### Time -/

/-- Lets time pass up to a moment, and jobs finish that are done then. -/
def passUntil (s : Session) (moment newest : Nat) : Session :=
  let clock := max s.clock moment
  { s with clock := clock, fields := s.fields.runUntil s.index.graph clock newest }

/-- Lets jobs run that need not wait. -/
def idle (s : Session) : Session := s.passUntil s.clock s.fields.nextJob

/-- Waits for the first scan, and tells whether it has been completed. -/
def awaitReady (s : Session) : Bool × Session :=
  if s.index.isReady then (true, s)
  else (false, s.passUntil (s.clock + s.index.readyTimeoutMs) s.fields.nextJob)

/-- The graph as a query sees it. -/
def read (s : Session) : Graph × Session :=
  let s := s.awaitReady.2
  (s.index.graph, s)

/-- When a new job finishes. It may have to wait for a permit until enough others have finished, and
then for the first scan. -/
def nextDue (s : Session) : Due :=
  let others := s.fields.jobs.map (·.due)
  let permits := s.pool.permits.toNat
  let free := if others.length < permits then Due.now else others.getD (others.length - permits) .now
  match s.pool.fate, free with
  | .ran, .now => if s.index.isReady then .now else .after (s.clock + s.index.readyTimeoutMs)
  | .ran, .after m => if s.index.isReady then .now else .after (m + s.index.readyTimeoutMs)
  | _, _ => .never

/-! ### Index -/

/-- Reading files gives jobs time to run. -/
def scanning (s : Session) (roots : List Path) : Session :=
  if (sourceFiles s.tree roots).isEmpty then s else s.idle

/-- The index after a rebuild. Jobs need not wait any longer. -/
def withRebuilt (s : Session) (index : ModelIndex) : Session :=
  { s with index := index, fields := s.fields.wake }

/-- Scans some roots from scratch. -/
def rebuild (s : Session) (roots : List Path) : Option Nat × Session :=
  let s := s.scanning roots
  let (count, index) := s.index.rebuild s.tree roots
  (count, s.withRebuilt index)

/-- Two rebuilds at once: the second one finds the first running, unless there is nothing to
read. -/
def rebuildTwice (s : Session) (roots : List Path) : Option Nat × Option Nat × Session :=
  if (sourceFiles s.tree roots).isEmpty then
    let (first, s) := s.rebuild roots
    let (second, s) := s.rebuild roots
    (first, second, s)
  else
    let s := s.idle
    match s.index.startRebuild s.tree roots with
    | none => (none, none, s)
    | some (r, index) =>
      let (second, index) := index.rebuild s.tree roots
      let (count, index) := index.install s.tree r
      (some count, second, s.withRebuilt index)

/-- Reads files again. -/
def update (s : Session) (paths : List String) : Names × Session :=
  let s := if paths.isEmpty then s else s.idle
  let (changed, index) := s.index.update s.tree paths
  (changed, { s with index := index })

/-- A rebuild during which files are updated; one with nothing to read is over before. -/
def rebuildDuringUpdate (s : Session) (roots : List Path) (paths : List String) :
    Option Nat × Session :=
  if (sourceFiles s.tree roots).isEmpty then
    let (count, s) := s.rebuild roots
    (count, (s.update paths).2)
  else
    let s := s.idle
    match s.index.startRebuild s.tree roots with
    | none => (none, s)
    | some (r, index) =>
      let (_, index) := index.update s.tree paths
      let (count, index) := index.install s.tree r
      (some count, s.withRebuilt index)

/-- Changes the graph directly. -/
def modifyGraph (s : Session) (f : Graph → Graph) : Session :=
  { s with index := { s.index with graph := f s.index.graph } }

/-! ### Members -/

/-- Makes sure that a job computes the fields of a model. -/
def load (s : Session) (model : String) : Session :=
  if s.fields.loading.contains model then s
  else { s with fields := s.fields.register model s.nextDue }

/-- The job that computes the fields of a model. -/
def jobOf? (s : Session) (model : String) : Option Job :=
  match s.fields.loading[model]? with
  | some number => s.fields.jobs.find? (·.number == number)
  | none => none

/-- When a wait that starts now for the fields of a model ends, and whether they are there then. Jobs
from `newest` on have started with it. -/
def waitEnd (s : Session) (newest : Nat) (model : String) : Nat × Bool :=
  let limit := s.clock + s.waitMs
  match s.jobOf? model with
  | some j =>
    if j.isDone limit newest then
      (match j.due with | .after m => m | _ => s.clock, true)
    else if s.pool.closed then (s.clock, false)
    else (limit, false)
  | none => (s.clock, false)

/-- The fields of a model, or none if they take too long. The computation goes on. -/
def resolveFields (s : Session) (model : String) : List FieldRecord × Session :=
  match s.fields.lists[model]? with
  | some fields => (fields, s)
  | none =>
    let newest := s.fields.nextJob
    let s := s.load model
    match s.waitEnd newest model with
    | (moment, true) => (s.index.graph.fieldsOf model, s.passUntil moment s.fields.nextJob)
    | (moment, false) => ([], s.passUntil moment newest)

/-- The fields of a model, however long they take. -/
def resolveComplete (s : Session) (model : String) : List FieldRecord × Session :=
  match s.fields.lists[model]? with
  | some fields => (fields, s)
  | none =>
    let s := s.load model
    match ((s.jobOf? model).map Job.due).getD .never with
    | .now => (s.index.graph.fieldsOf model, s.idle)
    | .after m => (s.index.graph.fieldsOf model, s.passUntil m s.fields.nextJob)
    | .never => ([], s)

/-- Starts the computations for some models, and tells what each wait will give and when. -/
def loadAll (s : Session) (newest : Nat) :
    List String → List (List FieldRecord × Nat × Bool) × Session
  | [] => ([], s)
  | model :: rest =>
    match s.fields.lists[model]? with
    | some fields =>
      let (others, s) := loadAll s newest rest
      ((fields, s.clock, true) :: others, s)
    | none =>
      let s := s.load model
      let (moment, finished) := s.waitEnd newest model
      let fields := if finished then s.index.graph.fieldsOf model else []
      let (others, s) := loadAll s newest rest
      ((fields, moment, finished) :: others, s)

/-- The fields of several models, asked for at the same time. -/
def resolveTogether (s : Session) (models : List String) : List (List FieldRecord) × Session :=
  let newest := s.fields.nextJob
  let (answers, s) := s.loadAll newest models
  let moment := (answers.map (·.2.1)).foldl max s.clock
  let patient := answers.any fun a => a.2.2 && a.2.1 == moment
  (answers.map (·.1), s.passUntil moment (if patient then s.fields.nextJob else newest))

/-- The field at the end of a path of relational fields. -/
def walkFields (s : Session) (model : String) : List String → Option FieldRecord × Session
  | [] => (none, s)
  | name :: rest =>
    let (fields, s) := s.resolveComplete model
    match findField fields name with
    | none => (none, s)
    | some field =>
      if rest.isEmpty then (some field, s)
      else match field.comodel with
        | none => (none, s)
        | some comodel => walkFields s comodel rest

/-- The field that a dotted path leads to from a model. -/
def resolvePath (s : Session) (model path : String) : Option FieldRecord × Session :=
  s.walkFields model (segments path)

/-- The methods of a model. -/
def resolveMethods (s : Session) (model : String) : List MethodRecord × Session :=
  match s.methods.lists[model]? with
  | some methods => (methods, s)
  | none =>
    let epoch := s.methods.epoch
    let (graph, s) := s.read
    let methods := graph.methodsOf model
    (methods, { s with methods := s.methods.store epoch model methods })

def invalidateFields (s : Session) (models : List String) : Session :=
  { s with fields := s.fields.invalidate models }

def invalidateMethods (s : Session) (models : List String) : Session :=
  { s with methods := s.methods.invalidate models }

def clearFields (s : Session) : Session := { s with fields := s.fields.clear }

def clearMethods (s : Session) : Session := { s with methods := s.methods.clear }

/-- The moment when all jobs are done that ever finish. -/
def lastDue (s : Session) : Nat :=
  s.fields.jobs.foldl (fun moment j =>
    match j.due with
    | .after m => max moment m
    | _ => moment) s.clock

/-- Lets the jobs finish and runs no more. -/
def close (s : Session) : Session :=
  let s := s.passUntil s.lastDue s.fields.nextJob
  { s with pool := s.pool.close }

end Session

end ModelAtlas.Index
