import ModelAtlas.Source.Grammar.Expressions
import ModelAtlas.Source.Parse.Recovery

/-!
# Reading a source

Rounds of reading: every version reads on until it has passed the place that the ones before have
reached, then versions are put in order, merged and given up. Reading ends when the best tree cannot
be outdone any more.
-/

namespace ModelAtlas.Source.Parse

open Grammar (Automaton Terminal)
open Grammar.Automaton (Action)

namespace Session

/-! ### One version -/

/-- What came of the actions on a lookahead. -/
inductive Outcome where
  /-- The lookahead has been dealt with. -/
  | done
  /-- Only reductions; the first version made by the last of them, if there is one. -/
  | reduced (source : Option Nat)
  /-- There was no action. -/
  | stuck

/-- What a version may do on a lookahead. -/
def actionsOn (a : Automaton) (v : Version) (look : Lookahead) : List Action :=
  match look.label with
  | .symbol t => a.actions v.state t
  | _ => []

/-- Does the actions in turn; reading the lookahead comes last. -/
def perform (a : Automaton) (index : Nat) (look : Lookahead) (v : Version) :
    List Action → Outcome → Reading Outcome
  | [], outcome => return outcome
  | action :: rest, outcome => do
    match action with
    | .repeating _ => perform a index look v rest outcome
    | .shift state =>
      let read ← push a v (Tree.leaf look false) state
      setVersion index { read with layout := look.layout.getD v.layout }
      return .done
    | .pass =>
      let read ← push a v (Tree.leaf look true) v.state
      setVersion index { read with layout := look.layout.getD v.layout }
      return .done
    | .reduce w =>
      let made ← reduce a index w
      let earlier := match outcome with
        | .reduced source => source
        | _ => none
      perform a index look v rest (.reduced (made.or earlier))
    | .accept =>
      accept a index look
      return .done
    | .recover =>
      recover a index look
      return .done

/-- Reduces and then reads a lookahead. A keyword that does not fit is read as a name if that fits;
otherwise the version pauses. -/
def readOn (a : Automaton) (index : Nat) : Nat → Lookahead → Reading Unit
  | 0, _ => changeVersion index (·.halt)
  | fuel + 1, look => do
    match ← version? index with
    | none => return
    | some v =>
      match ← perform a index look v (actionsOn a v look) .stuck with
      | .done => return
      | .reduced (some source) =>
        replaceVersion index source
        readOn a index fuel look
      | .reduced none => changeVersion index (·.halt)
      | .stuck =>
        let name := Terminal.identifier.number
        if look.keyword && look.label != .symbol name && v.state != Automaton.errorState &&
            !(a.actions v.state name).isEmpty then
          readOn a index fuel { look with label := .symbol name }
        else if v.state == Automaton.errorState then recover a index look
        else setVersion index { v with status := .paused look }

def advance (a : Automaton) (fuel index : Nat) : Reading Unit := do
  if let some v ← version? index then
    readOn a index stepLimit (Lookahead.look a fuel v.state v.hasAdvanced v.layout v.here)

/-! ### Rounds -/

/-- Lets a version read until it has passed a place. The answer is the place reached. -/
def advancePast (a : Automaton) (size index : Nat) : Nat → Nat → Reading Nat
  | 0, reached => return reached
  | fuel + 1, reached => do
    match ← version? index with
    | none => return reached
    | some v =>
      if v.isActive then
        advance a size index
        let here := ((← version? index).map (·.here.offset)).getD 0
        if reached < here || (0 < index && here == reached) then return here
        else advancePast a size index fuel reached
      else return reached

/-- Lets every version read on, those that are made on the way included; `limit` bounds the steps of
each. -/
def advanceAll (a : Automaton) (size limit : Nat) : Nat → Nat → Nat → Reading Nat
  | 0, _, reached => return reached
  | fuel + 1, index, reached => do
    if index < (← versionCount) then
      let reached ← advancePast a size index limit reached
      advanceAll a size limit fuel (index + 1) reached
    else return reached

/-- Puts the versions in order and gives up what is not worth keeping. If the best of them has
paused, it goes into its error. The answer is the least cost of a version that is in none. -/
def condense (a : Automaton) : Reading (Option Nat) := do
  let live := (((← get).versions.filter (!·.isHalted)).map (·.settle)).toList
  let least := ((live.map Standing.ofVersion).filter (!·.inError)).map (·.cost) |>.min?
  let ordered := (live.foldl (Version.place a.grammar) []).take versionLimit
  modify fun s => { s with versions := ordered.toArray }
  let dropPaused := modify fun s => { s with versions := s.versions.filter (!·.isPaused) }
  match ordered.head? with
  | some v =>
    match v.status with
    | .paused look =>
      if (← get).accepted < versionLimit then
        setVersion 0 { v with status := .active }
        handleError a 0 look
        dropPaused
        return some v.cost
      else
        dropPaused
        return least
    | _ =>
      dropPaused
      return least
  | none => return least

/-- Reads in rounds. -/
def rounds (a : Automaton) (size limit : Nat) : Nat → Nat → Reading Unit
  | 0, _ => return
  | fuel + 1, reached => do
    let reached ← advanceAll a size limit stepLimit 0 reached
    let least ← condense a
    let s ← get
    let settled := s.finished.any fun t => least.all (t.cost < ·)
    unless settled || s.versions.isEmpty do rounds a size limit fuel reached

end Session

/-- The tree of a source. -/
def treeOf (a : Automaton) (source : List Char) : Tree :=
  let start := Cursor.ofText source
  let size := source.length + 2
  let initial : Session :=
    { versions := #[{ stack := Stack.bottom a.startState start }] }
  let limit := 8 * size + 1000
  let (_, s) := (Session.rounds a size limit limit 0).run initial
  s.finished.getD (Tree.emptyError start)

/-- The automaton of source files. Comments and joints may stand anywhere. -/
def sourceAutomaton : Automaton := Automaton.ofRules Grammar.sourceRules [.comment, .joint]

end ModelAtlas.Source.Parse
