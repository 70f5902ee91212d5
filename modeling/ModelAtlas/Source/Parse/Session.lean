import ModelAtlas.Source.Parse.Version

/-!
# Sessions

A session reads one source: it holds the versions that are read side by side and the best tree
found so far. Here are its small steps: pushing trees, taking them off for a production, and doing
that as often as it goes.
-/

namespace ModelAtlas.Source.Parse

open Grammar (Automaton State Terminal Way)
open Grammar.Automaton (Action)

structure Session where
  versions : Array Version
  finished : Option Tree := none
  /-- How often the end of the source was reached. -/
  accepted : Nat := 0
  /-- The next number for a stack. -/
  fresh : Nat := 1

abbrev Reading := StateM Session

namespace Session

/-- Versions that are kept between two rounds. -/
def versionLimit : Nat := 6

/-- Versions beyond the limit that a step may make. -/
def versionOverflow : Nat := 4

/-- Rounds of an inner loop, more than any source needs. -/
def stepLimit : Nat := 1000000

def freshId : Reading Nat :=
  modifyGet fun s => (s.fresh, { s with fresh := s.fresh + 1 })

def version? (i : Nat) : Reading (Option Version) := return (← get).versions[i]?

def versionCount : Reading Nat := return (← get).versions.size

def setVersion (i : Nat) (v : Version) : Reading Unit :=
  modify fun s => { s with versions := s.versions.setIfInBounds i v }

def changeVersion (i : Nat) (f : Version → Version) : Reading Unit :=
  modify fun s => { s with versions := s.versions.modify i f }

def addVersion (v : Version) : Reading Unit :=
  modify fun s => { s with versions := s.versions.push v }

def removeVersion (i : Nat) : Reading Unit :=
  modify fun s => { s with versions := s.versions.eraseIdxIfInBounds i }

/-- Moves a version into the place of another. -/
def replaceVersion (i source : Nat) : Reading Unit := do
  match ← version? i, ← version? source with
  | some old, some new =>
    if i != source then
      setVersion i { new with
        milestones := if new.milestones.isEmpty then old.milestones else new.milestones }
      removeVersion source
  | _, _ => pure ()

/-- Merges the version at `j` into the one at `i`, if they meet. -/
def mergeVersions (a : Automaton) (i j : Nat) : Reading Bool := do
  match ← version? i, ← version? j with
  | some first, some second =>
    match first.merge? a.grammar second with
    | some merged =>
      setVersion i merged
      removeVersion j
      return true
    | none => return false
  | _, _ => return false

/-- Merges the version at `j` into the first that it meets among some others. -/
def mergeIntoFirst (a : Automaton) (j : Nat) : List Nat → Reading Bool
  | [] => return false
  | i :: rest => do
    if ← mergeVersions a i j then return true
    mergeIntoFirst a j rest

/-! ### Pushing -/

def push (a : Automaton) (v : Version) (tree : Tree) (state : State) : Reading Version := do
  let id ← freshId
  return { v with stack := v.stack.push a.grammar id tree state }

def pushAll (a : Automaton) (v : Version) (state : State) : List Tree → Reading Version
  | [] => return v
  | t :: rest => do pushAll a (← push a v t state) state rest

/-- Begins an error. -/
def beginError (v : Version) : Reading Version := do
  let id ← freshId
  return { v with stack := v.stack.pushError id, weightAtError := v.stack.weight }

/-! ### Reducing -/

/-- The better of two trees, each with the trees behind it. -/
def better (a : Automaton) (first second : Tree × List Tree) : Tree × List Tree :=
  if first.1.yieldsTo a.grammar second.1 then second else first

/-- Makes a tree of a production over some trees, those at the end that may stand anywhere left
aside. -/
def treeOver (a : Automaton) (label : Label) (production : Option Way) (c : Cursor)
    (trees : List Tree) : Tree × List Tree :=
  let (inside, extras) := Tree.splitExtras trees
  (Tree.ofChildren a.grammar label production c inside, extras)

/-- Adds versions for the ways to reduce a production, each on the stack that it leads down to. -/
def reduceEach (a : Automaton) (index : Nat) (way : Way) (dynamic : Int) (halted : Nat)
    (v : Version) : List (Stack × List (List Tree)) → Reading Unit
  | [] => return
  | (base, alternatives) :: rest => do
    let count ← versionCount
    unless versionLimit + versionOverflow + halted < count do
      match alternatives.map (treeOver a (.symbol way.symbol) (some way) base.here) with
      | [] => pure ()
      | first :: others =>
        let (tree, extras) := others.foldl (better a) first
        let state := a.afterNonterminal base.state way.symbol
        let reduced ← pushAll a { v with stack := base, status := .active, milestones := [] } state
          (tree.raiseDynamic dynamic :: extras)
        addVersion reduced
        let _ ← mergeIntoFirst a count ((List.range count).filter (· != index))
    reduceEach a index way dynamic halted v rest

/-- Reduces a production in a version. The version stays; the first of the new ones is returned. -/
def reduce (a : Automaton) (index : Nat) (way : Way) : Reading (Option Nat) := do
  match ← version? index, a.grammar.production? way with
  | some v, some p =>
    let before ← versionCount
    let halted := ((← get).versions.filter (·.isHalted)).size
    reduceEach a index way p.dynamic halted v
      (Stack.groupByStack (v.stack.pop p.steps.length))
    return if before < (← versionCount) then some before else none
  | _, _ => return none

/-! ### Reducing as often as it goes -/

/-- Whether one of some terminals can be read in a state, and the productions that can be reduced in
front of them, one for each nonterminal and length. -/
def outlook (a : Automaton) (state : State) (terminals : List Nat) : Bool × List Way :=
  let actions := terminals.flatMap (a.actions state)
  let shape (w : Way) :=
    (a.grammar.production? w).map fun p => (w.nonterminal, p.steps.length)
  (actions.any fun
      | .shift _ | .recover => true
      | _ => false,
    actions.foldl (fun found action =>
      match action with
      | .reduce w =>
        if (shape w).all (·.2 == 0) || found.any fun other => shape other == shape w then found
        else found ++ [w]
      | _ => found) [])

def reduceAll (a : Automaton) (index : Nat) : List Way → Option Nat → Reading (Option Nat)
  | [], last => return last
  | w :: rest, _ => do reduceAll a index rest (← reduce a index w)

/-- Goes through the versions from `index` on and reduces what can be reduced in front of a
terminal, or of any if none is given; a version that leads nowhere is dropped. The answer tells
whether the terminal can then be read. -/
def reduceOnwards (a : Automaton) (terminal : Option Nat) (start before : Nat) :
    Nat → Nat → Nat → Bool → Reading Bool
  | 0, _, _, found => return found
  | fuel + 1, turn, index, found => do
    let count ← versionCount
    match ← version? index with
    | none => return found
    | some v =>
      if ← mergeIntoFirst a index ((List.range index).drop before) then
        reduceOnwards a terminal start before fuel (turn + 1) index found
      else
        let terminals := match terminal with
          | some t => [t]
          | none => (List.range Terminal.count).drop 1
        let (canRead, ways) := outlook a v.state terminals
        let reduced ← reduceAll a index ways none
        let next := if index = start then count else index + 1
        match canRead, reduced with
        | true, _ => reduceOnwards a terminal start before fuel (turn + 1) next true
        | false, some source =>
          if turn < versionLimit then
            replaceVersion index source
            reduceOnwards a terminal start before fuel (turn + 1) index found
          else
            if terminal.isSome then removeVersion index
            reduceOnwards a terminal start before fuel (turn + 1) next found
        | false, none =>
          if terminal.isSome then removeVersion index
          reduceOnwards a terminal start before fuel (turn + 1) next found

/-- All reductions of a version in front of a terminal other than the end, or of any terminal. -/
def allReductions (a : Automaton) (index : Nat) (terminal : Option Nat) : Reading Bool := do
  let terminal := terminal.filter (· != Terminal.endOfSource.number)
  reduceOnwards a terminal index (← versionCount) stepLimit 0 index false

end Session

end ModelAtlas.Source.Parse
