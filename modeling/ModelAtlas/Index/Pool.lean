/-!
# Worker pools

A pool lets a bounded number of jobs run at once. A closed pool runs none.
-/

namespace ModelAtlas.Index

structure Pool where
  /-- How many jobs may run at once. -/
  permits : UInt32
  closed : Bool := false
deriving DecidableEq, Repr

/-- What becomes of a job. -/
inductive JobFate where
  | ran
  | refused
  /-- The job waits for a permit that is never given. -/
  | waiting
deriving DecidableEq, Repr

namespace Pool

/-- The most permits that can be counted. -/
def maxPermits : Nat := Nat.pow 2 61 - 1

/-- A pool of a size of 64 bits: at least one, at most `maxPermits`, in 32 bits. -/
def ofSize (size : Nat) : Pool := ⟨(min (max size 1) maxPermits).toUInt32, false⟩

/-- What becomes of a job that is alone. -/
def fate (p : Pool) : JobFate :=
  if p.closed then .refused else if p.permits = 0 then .waiting else .ran

/-- How many of some jobs started together run at once at most, and how many run at all. -/
def crowd (p : Pool) (jobs : Nat) : Nat × Nat :=
  match p.fate with
  | .ran => (min jobs p.permits.toNat, jobs)
  | _ => (0, 0)

/-- Lets running jobs finish, then runs no more. -/
def close (p : Pool) : Pool := { p with closed := true }

end Pool

end ModelAtlas.Index
