import ModelAtlas.Source.Parse.Session

/-!
# Recovery

What a version does when its lookahead does not fit. It tries a terminal that may be missing, it
goes back to a state in which the lookahead can be read and makes an error of what lies between, and
it passes over the lookahead. Versions that do better elsewhere decide which of these is kept.
-/

namespace ModelAtlas.Source.Parse

open Grammar (Automaton State Terminal)
open Grammar.Automaton (Action)

namespace Session

/-! ### The end of the source -/

/-- The tree of a whole stack: that of its last tree, with everything else taken into it. -/
def rootOf (a : Automaton) (p : Stack.Path) : Option Tree :=
  let behind := p.trees.reverse.takeWhile (·.extra)
  match p.trees.reverse.dropWhile (·.extra) with
  | [] => none
  | t :: before =>
    some (Tree.ofChildren a.grammar t.label t.production p.stack.here
      (before.reverse ++ t.children ++ behind.reverse))

/-- Keeps a finished tree if it is better than the one before. -/
def finish (a : Automaton) (tree : Tree) : Reading Unit :=
  modify fun s =>
    { s with
      accepted := s.accepted + 1
      finished := some (match s.finished with
        | none => tree
        | some old => if old.yieldsTo a.grammar tree then tree else old) }

/-- Ends a version at the end of the source. -/
def accept (a : Automaton) (index : Nat) (look : Lookahead) : Reading Unit := do
  if let some v ← version? index then
    let ended ← push a v (Tree.leaf look true) a.startState
    for p in ended.stack.popAll do
      if let some root := rootOf a p then finish a root
    setVersion index ended.halt

/-! ### Going back -/

/-- Whether a version stands better than another would at a cost, free of errors. -/
def isBetter (other v : Version) (cost : Nat) : Bool :=
  let standing : Standing :=
    { cost := cost, progress := v.progress, dynamic := v.stack.dynamic, inError := false }
  match standing.against (Standing.ofVersion other) with
  | .takeSecond => true
  | .preferSecond => other.meets v
  | _ => false

/-- Whether a finished tree, or a version that has come as far, stands better than a version would
at a cost. Versions that are looked at are settled. -/
def outdone (index cost : Nat) : Reading Bool := do
  match ← version? index with
  | none => return false
  | some v =>
    if (← get).finished.any (·.cost ≤ cost) then return true
    let isRival (other : Version) : Bool := other.isActive && v.here.offset ≤ other.here.offset
    modify fun s => { s with
      versions := s.versions.map fun other => if isRival other then other.settle else other }
    return (← get).versions.toList.zipIdx.any fun (other, i) =>
      i != index && isRival other && isBetter other v cost

/-- Goes back to a state on the stacks that some trees were taken off, and makes an error of the
trees together with one that lies right below. -/
def goBack (a : Automaton) (v : Version) (goal : State) :
    List (Stack × List (List Tree)) → Reading Bool
  | [] => return false
  | (base, alternatives) :: rest => do
    match base.state == goal, alternatives with
    | true, trees :: _ =>
      let (trees, base) :=
        match base.popError with
        | some (inside, below) => (inside ++ trees, below)
        | none => (trees, base)
      let (inside, extras) := Tree.splitExtras trees
      let wrapped := if inside.isEmpty then [] else
        [(Tree.ofChildren a.grammar .error none base.here inside).asExtra]
      let back ← pushAll a { v with stack := base, status := .active, milestones := [] } goal
        (wrapped ++ extras)
      addVersion back
      let _ ← goBack a v goal rest
      return true
    | _, _ => goBack a v goal rest

/-- Goes back to the nearest state in which the terminal can be read, unless another version stands
better. -/
def goBackFor (a : Automaton) (index terminal count : Nat) (v : Version) :
    List Stack.Milestone → Reading Bool
  | [] => return false
  | m :: rest => do
    let others := ((← get).versions.toList.take count)
    if m.state == Automaton.errorState || m.here.offset == v.here.offset ||
        others.any fun o => o.state == m.state && o.here.offset == v.here.offset then
      goBackFor a index terminal count v rest
    else
      let depth := if 0 < v.progress then m.depth + 1 else m.depth
      let cost := v.cost + Tree.skippedTreeCost * depth + Tree.distance m.here v.here
      if ← outdone index cost then return false
      if (a.actions m.state terminal).isEmpty then
        goBackFor a index terminal count v rest
      else if ← goBack a v m.state (Stack.groupByStack (v.stack.pop depth)) then
        return true
      else goBackFor a index terminal count v rest

/-! ### Passing over -/

/-- Takes the lookahead into the error. -/
def passLookahead (a : Automaton) (index : Nat) (look : Lookahead) (v : Version) : Reading Unit := do
  let extra := match look.label with
    | .symbol t => (a.actions a.startState t).getLast? == some .pass
    | _ => false
  let g := a.grammar
  let passed := Tree.ofChildren g .skipped none v.here [Tree.leaf look extra]
  let layout := look.layout.getD v.layout
  let grown ←
    match decide (0 < v.progress), v.stack.pop 1 with
    | true, p :: _ =>
      push a { v with stack := p.stack }
        (Tree.ofChildren g .skipped none v.here (p.trees ++ [passed])) Automaton.errorState
    | _, _ => push a v passed Automaton.errorState
  setVersion index { grown with layout := layout }

/-- Looks for a way back from an error in front of a lookahead. -/
def recover (a : Automaton) (index : Nat) (look : Lookahead) : Reading Unit := do
  changeVersion index (·.settle)
  if let some v ← version? index then
    let count ← versionCount
    let wentBack ← match look.label with
      | .symbol t => goBackFor a index t count v v.milestones
      | _ => pure false
    if look.label == .symbol Terminal.endOfSource.number then
      let ended ← push a v (Tree.emptyError v.here) a.startState
      setVersion index ended
      accept a index look
    else
      let cost := v.cost + Tree.skippedTreeCost + Tree.distance look.lead look.stop
      let crowded := wentBack && (versionLimit < (← versionCount) || look.changed)
      if crowded then setVersion index v.halt
      else if ← outdone index cost then setVersion index v.halt
      else passLookahead a index look v

/-! ### Missing terminals -/

/-- Tries a version in which a terminal stands in front of the lookahead that is not in the source.
The answer tells whether the lookahead can be read there. -/
def tryMissing (a : Automaton) (v : Version) (c : Cursor) (look : Nat) : List Nat → Reading Bool
  | [] => return false
  | t :: rest => do
    let state := a.afterTerminal v.state t
    let useful := state != Automaton.errorState && state != v.state &&
      (a.actions state look).any fun
        | .reduce _ => true
        | _ => false
    if useful then
      let index ← versionCount
      addVersion { ← push a v (Tree.missing t c) state with milestones := [] }
      if ← allReductions a index (some look) then return true
    tryMissing a v c look rest

/-- Begins errors in some versions. Until one is found, each first tries a missing terminal. -/
def beginErrors (a : Automaton) (c : Cursor) (look : Lookahead) : Bool → List Nat → Reading Unit
  | _, [] => return
  | found, i :: rest => do
    match ← version? i with
    | none => beginErrors a c look found rest
    | some v =>
      let nowFound ← match found, look.label with
        | false, .symbol t =>
          tryMissing a v c t ((List.range Terminal.count).drop 1)
        | _, _ => pure found
      if let some v ← version? i then setVersion i (← beginError v)
      beginErrors a c look nowFound rest

/-- Begins an error in a version whose lookahead does not fit: all ways to reduce what has been read
are kept below it. -/
def handleError (a : Automaton) (index : Nat) (look : Lookahead) : Reading Unit := do
  let before ← versionCount
  let _ ← allReductions a index none
  let after ← versionCount
  if let some v ← version? index then
    let made := (List.range after).drop before
    beginErrors a v.here look false (index :: made)
    for _ in made do
      let _ ← mergeVersions a index before
    changeVersion index fun v => { v with milestones := v.stack.milestones }
    recover a index look

end Session

end ModelAtlas.Source.Parse
