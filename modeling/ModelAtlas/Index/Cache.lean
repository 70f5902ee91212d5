import ModelAtlas.Inheritance.Members

/-!
# Member caches

Member lists are kept by model until they are invalidated. The fields of a model are computed by a
job that finishes later; a job that started before an invalidation leaves nothing behind. The epoch
counts invalidations, and a job remembers the epoch it started in.
-/

namespace ModelAtlas.Index

open Inheritance Model Std

/-- When a job finishes. -/
inductive Due where
  /-- As soon as others let it run. -/
  | now
  /-- Once it has waited up to a moment. -/
  | after (moment : Nat)
  | never
deriving DecidableEq, Repr

/-- Whether a job may finish before another. -/
def Due.earlier : Due → Due → Bool
  | .now, .now => false
  | .now, _ => true
  | .after m, .after n => m < n
  | .after _, .never => true
  | _, _ => false

/-- A computation of the fields of a model. -/
structure Job where
  number : Nat
  model : String
  epoch : Nat
  due : Due
deriving DecidableEq, Repr

/-- Whether a job is finished at a moment. One numbered `newest` or later has started to wait behind
whoever looks, and is not finished when both waits end together. -/
def Job.isDone (moment newest : Nat) (j : Job) : Bool :=
  match j.due with
  | .now => true
  | .after m => m < moment || (m == moment && j.number < newest)
  | .never => false

structure FieldCache where
  lists : ExtTreeMap String (List FieldRecord) := ∅
  /-- The job that computes the fields of a model. -/
  loading : ExtTreeMap String Nat := ∅
  /-- Jobs that have not finished, the earliest due first. -/
  jobs : List Job := []
  epoch : Nat := 0
  nextJob : Nat := 0

/-- Puts a job behind those due no later. -/
def insertJob (j : Job) : List Job → List Job
  | [] => [j]
  | k :: rest => if j.due.earlier k.due then j :: k :: rest else k :: insertJob j rest

namespace FieldCache

/-- Registers a job. -/
def register (c : FieldCache) (model : String) (due : Due) : FieldCache :=
  { c with
    loading := c.loading.insert model c.nextJob
    jobs := insertJob ⟨c.nextJob, model, c.epoch, due⟩ c.jobs
    nextJob := c.nextJob + 1 }

/-- A job finishes: its list is kept if nothing was invalidated since it started, and its own entry
among the loading ones is removed. -/
def complete (g : Graph) (c : FieldCache) (j : Job) : FieldCache :=
  { c with
    lists := if c.epoch = j.epoch then c.lists.insert j.model (g.fieldsOf j.model) else c.lists
    loading := if c.loading[j.model]? = some j.number then c.loading.erase j.model else c.loading }

/-- Finishes the jobs that are done at a moment. -/
def runUntil (g : Graph) (moment newest : Nat) (c : FieldCache) : FieldCache :=
  let (done, left) := c.jobs.partition (Job.isDone moment newest)
  done.foldl (complete g) { c with jobs := left }

/-- Ends the waits of all jobs that ever finish. -/
def wake (c : FieldCache) : FieldCache :=
  { c with jobs := c.jobs.map fun j => if j.due == .never then j else { j with due := .now } }

/-- Drops the lists of some models. -/
def invalidate (c : FieldCache) (models : List String) : FieldCache :=
  { c with
    epoch := c.epoch + 1
    lists := models.foldl ExtTreeMap.erase c.lists
    loading := models.foldl ExtTreeMap.erase c.loading }

/-- Drops all lists. -/
def clear (c : FieldCache) : FieldCache :=
  { c with epoch := c.epoch + 1, lists := ∅, loading := ∅ }

end FieldCache

structure MethodCache where
  lists : ExtTreeMap String (List MethodRecord) := ∅
  epoch : Nat := 0

namespace MethodCache

/-- Keeps a list that was computed in the given epoch. -/
def store (c : MethodCache) (epoch : Nat) (model : String) (methods : List MethodRecord) :
    MethodCache :=
  if c.epoch = epoch then { c with lists := c.lists.insert model methods } else c

def invalidate (c : MethodCache) (models : List String) : MethodCache :=
  { c with epoch := c.epoch + 1, lists := models.foldl ExtTreeMap.erase c.lists }

def clear (c : MethodCache) : MethodCache := { c with epoch := c.epoch + 1, lists := ∅ }

end MethodCache

end ModelAtlas.Index
