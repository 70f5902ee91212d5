import Std.Data.HashMap
import ModelAtlas.Source.Grammar.Production

/-!
# Automata

The automaton of a grammar reads symbols from left to right. A state is a list of items, productions
read up to a dot, each with the terminals that may follow it (`Item.after`); states that differ in
those terminals are kept apart. `Automaton.actions` says what to do in a state on a terminal: one
action where the grammar decides, several where it leaves a choice open.

What a state leads to follows from its items alone (`Tables.entry`). What has been found out is
remembered: `Memo` for functions of numbers, `Automaton.known` for the states that the grammar
reaches.

Sets of terminals and of nonterminals are numbers: `n` belongs to a set if bit `n` is on.
-/

namespace ModelAtlas.Source.Grammar

/-! ### What is remembered -/

/-- The first values of a function. -/
structure Memo {α : Type} (f : Nat → α) where
  values : Array α
  sound : ∀ (i : Nat) (h : i < values.size), values[i] = f i

namespace Memo

variable {α : Type} {f : Nat → α}

def upTo (n : Nat) (f : Nat → α) : Memo f where
  values := Array.ofFn fun i : Fin n => f i
  sound := by simp

def get (m : Memo f) (i : Nat) : α := if h : i < m.values.size then m.values[i] else f i

theorem get_eq (m : Memo f) : m.get = f := by
  funext i
  unfold get
  split
  · exact m.sound i _
  · rfl

end Memo

/-! ### First terminals and followers -/

namespace Productions

/-- The nonterminals among some symbols. -/
def nonterminalsOf (symbols : List Nat) : Nat :=
  symbols.foldl (fun set s =>
    if s < Terminal.count then set else set ||| 1 <<< (s - Terminal.count)) 0

/-- The terminals among some symbols. -/
def terminalsOf (symbols : List Nat) : Nat :=
  symbols.foldl (fun set s => if s < Terminal.count then set ||| 1 <<< s else set) 0

/-- By nonterminal, the symbols that its productions start with. -/
def heads (g : Productions) : List (List Nat) :=
  g.rows.toList.map (·.filterMap fun p => p.steps.head?.map (·.symbol))

/-- By nonterminal, the symbols that it can consist of. -/
def alones (g : Productions) : List (List Nat) :=
  g.rows.toList.map (·.filterMap fun p =>
    match p.steps with
    | [s] => some s.symbol
    | _ => none)

/-- Adds what the members of a set lead to, given by nonterminal. -/
def spread (edges : List Nat) (set : Nat) : Nat :=
  edges.zipIdx.foldl (fun set (targets, n) =>
    if set.testBit n then set ||| targets else set) set

def grow (edges : List Nat) : Nat → Nat → Nat
  | 0, set => set
  | fuel + 1, set =>
    let next := spread edges set
    if next = set then set else grow edges fuel next

/-- The nonterminals that are expected where one is, itself included. -/
def expectedWith (g : Productions) (n : Nat) : Nat :=
  grow (g.heads.map nonterminalsOf) g.rows.size (1 <<< n)

/-- Those of them that are followed by what follows the first. -/
def heirs (g : Productions) (n : Nat) : Nat :=
  grow (g.alones.map nonterminalsOf) g.rows.size (1 <<< n)

/-- The terminals that some nonterminals start with. -/
def firstsIn (g : Productions) (set : Nat) : Nat :=
  g.heads.zipIdx.foldl (fun all (symbols, n) =>
    if set.testBit n then all ||| terminalsOf symbols else all) 0

/-- The terminals that a symbol can start with. -/
def firsts (g : Productions) (symbol : Nat) : Nat :=
  if symbol < Terminal.count then 1 <<< symbol
  else g.firstsIn (g.expectedWith (symbol - Terminal.count))

/-- The nonterminals at the start of a production that goes on: the one that is made, the one at the
start, and the symbol behind it. -/
def openings (g : Productions) : List (Nat × Nat × Nat) :=
  g.rows.toList.zipIdx.flatMap fun (ps, n) => ps.filterMap fun p =>
    match p.steps with
    | s :: next :: _ =>
      if s.symbol < Terminal.count then none
      else some (n, s.symbol - Terminal.count, next.symbol)
    | _ => none

/-- What follows a nonterminal at the start of a production, behind the nonterminal that is made. -/
def followed (g : Productions) (m : Nat) : List (Nat × Nat) :=
  g.openings.filterMap fun (n, first, next) => if first = m then some (n, next) else none

/-- The productions in order. -/
def ways (g : Productions) : List (Way × Production) :=
  g.rows.toList.zipIdx.flatMap fun (ps, n) => ps.zipIdx.map fun (p, i) => (⟨n, i⟩, p)

/-- The symbols that productions start with, each with its production. -/
def starts (g : Productions) : List (Nat × Way) :=
  g.ways.filterMap fun (w, p) => p.steps.head?.map fun s => (s.symbol, w)

/-- The productions that start with a symbol. -/
def starting (g : Productions) (symbol : Nat) : List Way :=
  g.starts.filterMap fun (s, w) => if s = symbol then some w else none

/-- The productions that make something from nothing. -/
def empties (g : Productions) : List Way :=
  g.ways.filterMap fun (w, p) => if p.steps.isEmpty then some w else none

end Productions

/-! ### Tables -/

/-- What the construction of states looks up. -/
structure Tables where
  grammar : Productions
  /-- The terminals that a symbol can start with. -/
  firsts : Nat → Nat
  /-- The productions that start with a symbol. -/
  starting : Nat → List Way
  /-- The productions that make something from nothing. -/
  empties : List Way
  /-- The nonterminals that are expected where one is, and followed by what follows that. -/
  heirs : Nat → Nat
  /-- The terminals that may follow a nonterminal that is expected where another one is, as far as
  they do not follow that. -/
  followers : Nat → Nat → Nat
  /-- Terminals that may stand anywhere. -/
  extras : Nat

namespace Tables

/-- Of some nonterminals that are expected together, those that one of them goes on behind, with the
terminals that it goes on with. -/
def seeds (g : Productions) (firsts : Nat → Nat) (within : Nat) : List (Nat × Nat) :=
  (List.range g.rows.size).filterMap fun m =>
    if within.testBit m then
      let set := (g.followed m).foldl (fun set (n, next) =>
        if within.testBit n then set ||| firsts next else set) 0
      if set = 0 then none else some (m, set)
    else none

def followersIn (heirs : Nat → Nat) (seeds : List (Nat × Nat)) (m : Nat) : Nat :=
  seeds.foldl (fun set (n, after) => if (heirs n).testBit m then set ||| after else set) 0

def ofProductions (g : Productions) (anywhere : List Terminal) : Tables where
  grammar := g
  firsts := g.firsts
  starting := g.starting
  empties := g.empties
  heirs := g.heirs
  followers := fun n => followersIn g.heirs (seeds g g.firsts (g.expectedWith n))
  extras := anywhere.foldl (fun set t => set ||| 1 <<< t.number) 0

/-- The tables of a grammar with their first values remembered. -/
def remember (g : Productions) (anywhere : List Terminal) :
    { t : Tables // t = ofProductions g anywhere } :=
  let size := g.rows.size
  let firsts := Memo.upTo g.symbolCount g.firsts
  let starting := Memo.upTo g.symbolCount g.starting
  let heirs := Memo.upTo size g.heirs
  let followers := Memo.upTo size fun n =>
    (⟨_, Memo.upTo size (followersIn heirs.get (seeds g firsts.get (g.expectedWith n)))⟩ :
      (f : Nat → Nat) × Memo f)
  ⟨{ ofProductions g anywhere with
      firsts := firsts.get
      starting := starting.get
      heirs := heirs.get
      followers := fun n => (followers.get n).2.get }, by
    simp only [Memo.get_eq]
    rfl⟩

end Tables

/-! ### States -/

structure Item where
  way : Way
  /-- How many steps have been read. -/
  dot : Nat
  /-- The terminals that may follow the production. -/
  after : Nat
deriving DecidableEq, Hashable, Repr

namespace Item

/-- Moves an item over its next symbol. -/
def advance (item : Item) : Item := { item with dot := item.dot + 1 }

/-- Puts an item in front of the first whose production is listed behind. -/
def insert (item : Item) : List Item → List Item
  | [] => [item]
  | other :: rest =>
    if item.way.le other.way then item :: other :: rest else other :: item.insert rest

end Item

/-- The items that a state is entered with. The empty list is no state of a grammar: it is where
reading goes on after an error. -/
abbrev State := List Item

/-- What there is to do in a state. -/
structure Entry where
  /-- The items that are read to the end, in the order of their productions. -/
  complete : List Item
  /-- By symbol, the state it leads to; empty where it leads nowhere. -/
  targets : Array State
  /-- The terminals that can be read here. -/
  expected : Nat

namespace Tables

variable (t : Tables)

def startState : State := [⟨t.grammar.startWay, 0, 1⟩]

def nextStep? (item : Item) : Option Step := t.grammar.stepAt? item.way item.dot

/-- The terminals that may follow the next symbol of an item. -/
def behind (item : Item) : Nat :=
  match t.grammar.stepAt? item.way (item.dot + 1) with
  | none => item.after
  | some next => t.firsts next.symbol

/-- The symbols that come next in a state, each with its item behind it. -/
def moves (state : State) : List (Nat × Item) :=
  state.filterMap fun item => (t.nextStep? item).map fun s => (s.symbol, item.advance)

/-- The nonterminals that come next in a state, each with the terminals that may follow it. -/
def wanted (state : State) : List (Nat × Nat) :=
  state.filterMap fun item =>
    match t.nextStep? item with
    | none => none
    | some s =>
      if s.symbol < Terminal.count then none
      else some (s.symbol - Terminal.count, t.behind item)

/-- The terminals that may follow a nonterminal where others are wanted. -/
def after (wanted : List (Nat × Nat)) (n : Nat) : Nat :=
  wanted.foldl (fun set (m, behind) =>
    set ||| t.followers m n ||| if (t.heirs m).testBit n then behind else 0) 0

/-- The items of some productions, read up to a dot, as far as their nonterminals are wanted. -/
def opened (after : Nat → Nat) (dot : Nat) (ways : List Way) : List Item :=
  ways.filterMap fun w => if after w.nonterminal = 0 then none else some ⟨w, dot, after w.nonterminal⟩

/-- The state behind a symbol. -/
def target (moves : List (Nat × Item)) (after : Nat → Nat) (symbol : Nat) : State :=
  (moves.filterMap fun (s, item) => if s = symbol then some item else none) ++
    opened after 1 (t.starting symbol)

/-- The items of a state that are read to the end. -/
def complete (state : State) (after : Nat → Nat) : List Item :=
  (opened after 0 t.empties ++ state.filter fun i => (t.nextStep? i).isNone).foldr Item.insert []

/-- The terminals that can be read in a state: those that may come next, and those that may follow
what is complete. -/
def expected (moves : List (Nat × Item)) (complete : List Item) : Nat :=
  complete.foldl (fun set item => set ||| item.after)
    (moves.foldl (fun set (s, _) => set ||| t.firsts s) t.extras)

/-- What there is to do in a state. -/
def entry (state : State) : Entry :=
  let moves := t.moves state
  let after := Memo.upTo t.grammar.rows.size (t.after (t.wanted state))
  let complete := t.complete state after.get
  { complete := complete
    targets := Array.ofFn fun symbol : Fin t.grammar.symbolCount =>
      t.target moves after.get symbol
    expected := t.expected moves complete }

end Tables

/-- The tables of a grammar, and the entries of some states. -/
structure Automaton where
  tables : Tables
  known : Std.HashMap State Entry := ∅
  sound : ∀ state entry, known[state]? = some entry → entry = tables.entry state

namespace Automaton

def errorState : State := []

def grammar (a : Automaton) : Productions := a.tables.grammar

def startState (a : Automaton) : State := a.tables.startState

def entry (a : Automaton) (state : State) : Entry := (a.known[state]?).getD (a.tables.entry state)

theorem entry_eq (a : Automaton) (state : State) : a.entry state = a.tables.entry state := by
  unfold entry
  cases found : a.known[state]? with
  | none => rfl
  | some e => exact a.sound state e found

def ofTables (t : Tables) : Automaton where
  tables := t
  sound := by simp

/-- Remembers the entry of a state. -/
def learn (a : Automaton) (state : State) : Automaton where
  tables := a.tables
  known := a.known.insert state (a.tables.entry state)
  sound := by
    intro s e found
    rw [Std.HashMap.getElem?_insert] at found
    split at found
    case isTrue same =>
      rw [← eq_of_beq same]
      exact (Option.some.inj found).symm
    case isFalse => exact a.sound s e found

/-- Remembers the entries of some states and of those that they lead to. -/
def explore : Nat → List State → Automaton → Automaton
  | 0, _, a => a
  | _ + 1, [], a => a
  | fuel + 1, state :: rest, a =>
    if a.known.contains state then explore fuel rest a
    else
      let a := a.learn state
      explore fuel ((a.entry state).targets.foldl (fun rest s =>
        if s.isEmpty || a.known.contains s then rest else s :: rest) rest) a

theorem tables_explore (fuel : Nat) (states : List State) (a : Automaton) :
    (explore fuel states a).tables = a.tables := by
  fun_induction explore with
  | case1 | case2 => rfl
  | case3 _ _ _ _ _ ih => exact ih
  | case4 _ _ _ _ _ a ih => exact ih.trans rfl

/-- How many states are looked at in advance. -/
def exploreLimit : Nat := 1000000

/-- The automaton of a grammar in which the given terminals may stand anywhere. -/
def ofRules (rules : RuleBook) (anywhere : List Terminal) : Automaton :=
  let a := ofTables (Tables.remember (Productions.ofRules rules) anywhere)
  explore exploreLimit [a.startState] a

theorem tables_ofRules (rules : RuleBook) (anywhere : List Terminal) :
    (ofRules rules anywhere).tables = Tables.ofProductions (Productions.ofRules rules) anywhere :=
  (tables_explore ..).trans (Tables.remember ..).2

/-! ### Actions -/

inductive Action where
  | shift (state : State)
  /-- Reads a terminal that may stand anywhere, and stays. -/
  | pass
  /-- Would go on with a repetition that is reduced first. -/
  | repeating (state : State)
  | reduce (way : Way)
  | accept
  /-- Looks for a way back after an error. -/
  | recover
deriving DecidableEq, Repr

def contains (set symbol : Nat) : Bool := set.testBit symbol

/-- Whether reducing two productions makes the same tree. -/
def sameReduction (g : Productions) (a b : Way) : Bool :=
  match g.production? a, g.production? b with
  | some p, some q =>
    a.nonterminal == b.nonterminal && p.dynamic == q.dynamic &&
      p.steps.map (fun s => (s.guise, s.field)) == q.steps.map (fun s => (s.guise, s.field))
  | _, _ => false

/-- Reductions in question: their level, and the sides that they bind to. -/
structure Contest where
  reductions : List Way := []
  level : Int := 0
  left : Bool := false
  right : Bool := false
  neither : Bool := false
deriving Repr

namespace Contest

/-- Takes a complete item into account; only the highest level stays. -/
def add (g : Productions) (c : Contest) (item : Item) : Contest :=
  let last := g.stepAt? item.way (item.dot - 1)
  let level := (last.bind (·.level)).getD 0
  let side := last.bind (·.side)
  let enter (c : Contest) : Contest := { c with
    level := level
    left := c.left || side == some .left
    right := c.right || side == some .right
    neither := c.neither || side == none }
  if c.reductions.isEmpty then enter { reductions := [item.way] }
  else if c.reductions.any (sameReduction g item.way) then enter c
  else if c.level < level then enter { reductions := [item.way] }
  else if c.level = level then enter { c with reductions := c.reductions ++ [item.way] }
  else c

end Contest

/-- Reads on or reduces, where both are possible: by level, then by side; else both. -/
def resolve (t : Tables) (state : State) (complete : List Item) (terminal : Nat) (target : State)
    (c : Contest) : List Action :=
  let reading := state.filter fun i =>
    0 < i.dot && (t.nextStep? i).any fun s => contains (t.firsts s.symbol) terminal
  let owners := (reading ++ complete.filter fun i => contains i.after terminal).map
    (·.way.nonterminal)
  let reductions := c.reductions.map Action.reduce
  if owners.all (fun o => owners.head? == some o) &&
      owners.head?.any (fun o => t.grammar.isRepeated (Terminal.count + o)) then
    reductions ++ [.repeating target]
  else
    let levels := reading.map fun i => ((t.grammar.stepAt? i.way (i.dot - 1)).bind (·.level)).getD 0
    let higher := levels.any (c.level < ·)
    let lower := levels.any (· < c.level)
    if higher && !lower then [.shift target]
    else if lower && !higher then reductions
    else if !higher && !lower && c.left && !c.right && !c.neither then reductions
    else if !higher && !lower && c.right && !c.left && !c.neither then [.shift target]
    else reductions ++ [.shift target]

/-- What to do in a state on a terminal that leads to another state, reductions first. -/
def choose (t : Tables) (state : State) (complete : List Item) (terminal : Nat) (target : State) :
    List Action :=
  let contest := (complete.filter fun i => contains i.after terminal).foldl
    (Contest.add t.grammar) {}
  if contest.reductions == [t.grammar.startWay] then [.accept]
  else if contest.reductions.isEmpty then
    if target != errorState then [.shift target]
    else if contains t.extras terminal then [.pass]
    else []
  else if target = errorState then contest.reductions.map .reduce
  else resolve t state complete terminal target contest

/-- What to do in a state on a terminal. -/
def actions (a : Automaton) (state : State) (terminal : Nat) : List Action :=
  if state = errorState then [.recover]
  else
    let entry := a.entry state
    choose a.tables state entry.complete terminal (entry.targets.getD terminal errorState)

/-- The state behind a terminal, that of errors if it cannot be read. -/
def afterTerminal (a : Automaton) (state : State) (terminal : Nat) : State :=
  match (a.actions state terminal).getLast? with
  | some (.shift s) | some (.repeating s) => s
  | some .pass => state
  | _ => errorState

/-- The state behind a nonterminal. -/
def afterNonterminal (a : Automaton) (state : State) (symbol : Nat) : State :=
  (a.entry state).targets.getD symbol errorState

/-- The terminals that can be read in a state. -/
def expected (a : Automaton) (state : State) : Nat := (a.entry state).expected

end Automaton

end ModelAtlas.Source.Grammar
