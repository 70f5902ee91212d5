import ModelAtlas.Source.Parse.Stack

/-!
# Versions

Where the grammar leaves a choice open, and after an error, a source is read in several ways side by
side. Each is a `Version`. Versions are compared by what they cost (`Standing.against`): a version
that costs much more than another is given up, and versions that meet in one state are merged.
-/

namespace ModelAtlas.Source.Parse

open Grammar (Productions Automaton State)

inductive Status where
  | active
  /-- Stopped in front of a lookahead that does not fit. -/
  | paused (look : Lookahead)
  | halted

structure Version where
  stack : Stack
  layout : Layout := {}
  status : Status := .active
  /-- The weight of the stack when its last error began. -/
  weightAtError : Nat := 0
  /-- The states to go back to from an error. -/
  milestones : List Stack.Milestone := []

namespace Version

def isActive (v : Version) : Bool :=
  match v.status with
  | .active => true
  | _ => false

def isPaused (v : Version) : Bool :=
  match v.status with
  | .paused _ => true
  | _ => false

def isHalted (v : Version) : Bool :=
  match v.status with
  | .halted => true
  | _ => false

def state (v : Version) : State := v.stack.state
def here (v : Version) : Cursor := v.stack.here

def halt (v : Version) : Version := { v with status := .halted }

/-- How much has been read since the last error began. -/
def progress (v : Version) : Nat := v.stack.weight - v.weightAtError

/-- Forgets an error whose trees have been taken off again. -/
def settle (v : Version) : Version :=
  { v with weightAtError := min v.weightAtError v.stack.weight }

/-- The cost of the trees, and of an error that has just begun. -/
def cost (v : Version) : Nat :=
  let begun := v.state == Automaton.errorState &&
    (v.stack.links.head?.map (·.1.isNone)).getD false
  v.stack.cost + if v.isPaused || begun then Tree.errorCost else 0

/-- Whether a version has got past an error: it has read something, or costs nothing. -/
def hasAdvanced (v : Version) : Bool :=
  v.stack.cost == 0 || read Stack.depthLimit v.stack
where
  read : Nat → Stack → Bool
    | 0, _ => false
    | fuel + 1, s =>
      match s.links.head? with
      | some (some t, below) =>
        t.facts.lead.offset < t.stop.offset ||
          (v.weightAtError < s.weight && t.cost == 0 && read fuel below)
      | _ => false

end Version

/-! ### Comparison -/

/-- What versions are compared by. -/
structure Standing where
  cost : Nat
  progress : Nat
  dynamic : Int
  /-- Whether it is in an error. -/
  inError : Bool

/-- How the first of two versions stands against the second. -/
inductive Verdict where
  /-- The second can be given up. -/
  | takeFirst
  | preferFirst
  | even
  | preferSecond
  /-- The first can be given up. -/
  | takeSecond
deriving DecidableEq

namespace Standing

def ofVersion (v : Version) : Standing where
  cost := v.cost + if v.isPaused then Tree.skippedTreeCost else 0
  progress := v.progress
  dynamic := v.stack.dynamic
  inError := v.isPaused || v.state == Automaton.errorState

/-- How much more, weighed by the progress of the cheaper version, is too much. -/
def tolerance : Nat := 1800

def against (a b : Standing) : Verdict :=
  if !a.inError && b.inError then (if a.cost < b.cost then .takeFirst else .preferFirst)
  else if a.inError && !b.inError then (if b.cost < a.cost then .takeSecond else .preferSecond)
  else if a.cost < b.cost then
    if tolerance < (b.cost - a.cost) * (1 + a.progress) then .takeFirst else .preferFirst
  else if b.cost < a.cost then
    if tolerance < (a.cost - b.cost) * (1 + b.progress) then .takeSecond else .preferSecond
  else if b.dynamic < a.dynamic then .preferFirst
  else if a.dynamic < b.dynamic then .preferSecond
  else .even

end Standing

/-! ### Merging -/

namespace Version

/-- Whether two versions go on alike from here. -/
def meets (a b : Version) : Bool :=
  a.isActive && b.isActive && a.stack.meets b.stack && a.layout == b.layout

/-- One version for two that meet. -/
def merge? (g : Productions) (a b : Version) : Option Version :=
  if a.meets b then
    let stack := a.stack.join g b.stack
    let inError := stack.state == Automaton.errorState
    some { a with
      stack := stack
      weightAtError := if inError then stack.weight else a.weightAtError }
  else none

/-- Puts a version behind others, which have been put in order: it may be given up for one of them,
merge with one, or take the place of one. -/
def place (g : Productions) : List Version → Version → List Version
  | [], v => [v]
  | k :: rest, v =>
    match (Standing.ofVersion k).against (Standing.ofVersion v) with
    | .takeFirst => k :: rest
    | .takeSecond => place g rest v
    | .preferFirst | .even =>
      match k.merge? g v with
      | some merged => merged :: rest
      | none => k :: place g rest v
    | .preferSecond =>
      match k.merge? g v with
      | some merged => merged :: rest
      | none => v :: place g rest k

end Version

end ModelAtlas.Source.Parse
