import ModelAtlas.Proofs.Source.Grammar.States

/-!
# Phrases

What the grammar makes of a run of terminals can be worked out without a source: symbols stand for
trees, and numbered slots for what is not known of them, their nodes and their places. `feedAll`
reads terminals this way where the grammar leaves no choice.
-/

namespace ModelAtlas.Source.Grammar

/-! ### Forests -/

/-- Nodes side by side: those of a slot, or a node over others that starts where one slot starts and
stops where another one stops. -/
inductive Forest where
  | nil
  | slot (index : Nat) (field : Option Field) (rest : Forest)
  | node (symbol : Nat) (field : Option Field) (first last : Nat) (below rest : Forest)
deriving DecidableEq, Repr

namespace Forest

/-- Gives a field name to all nodes without one. -/
def under (f : Option Field) : Forest → Forest
  | .nil => .nil
  | .slot i own rest => .slot i (own.or f) (rest.under f)
  | .node symbol own first last below rest =>
    .node symbol (own.or f) first last below (rest.under f)

def append : Forest → Forest → Forest
  | .nil, other => other
  | .slot i own rest, other => .slot i own (rest.append other)
  | .node symbol own first last below rest, other =>
    .node symbol own first last below (rest.append other)

end Forest

/-- What is known of a tree: its symbol and its nodes, and the slots that it starts and stops with. -/
structure Piece where
  symbol : Nat
  forest : Forest
  first : Nat
  last : Nat
deriving DecidableEq, Repr

namespace Piece

def ofSlot (symbol index : Nat) : Piece := ⟨symbol, .slot index none .nil, index, index⟩

/-- The nodes of some pieces under the field names of their steps. There is no answer where a step
changes the kind of a node. -/
def below : List Step → List Piece → Option Forest
  | [], [] => some .nil
  | s :: steps, p :: pieces =>
    match s.guise, below steps pieces with
    | none, some rest => some ((p.forest.under s.field).append rest)
    | _, _ => none
  | _, _ => none

/-- Makes one piece of some others. -/
def reduce (g : Productions) (w : Way) (p : Production) (pieces : List Piece) : Option Piece :=
  match pieces.head?, pieces.getLast?, below p.steps pieces with
  | some first, some last, some forest =>
    some {
      symbol := w.symbol
      forest :=
        if g.isShown w.symbol then .node w.symbol none first.first last.last forest .nil else forest
      first := first.first
      last := last.last }
  | _, _, _ => none

end Piece

/-! ### Reading terminals -/

/-- Pieces that have been read, the last one first, each with the state behind it. -/
abbrev Reached := List (State × Piece)

def topOf (base : State) : Reached → State
  | [] => base
  | (s, _) :: _ => s

/-- Goes on with a number that has been worked out. -/
def forceNat {α : Type} (n : Nat) (f : Nat → α) : α :=
  match n with
  | 0 => f 0
  | k + 1 => f (k + 1)

/-- Goes on with a state that has been worked out, so that nothing in it is worked out twice. -/
def force {α : Type} : State → (State → α) → α
  | [], f => f []
  | ⟨⟨n, c⟩, d, a⟩ :: rest, f =>
    forceNat n fun n => forceNat c fun c => forceNat d fun d => forceNat a fun a =>
      force rest fun rest => f (⟨⟨n, c⟩, d, a⟩ :: rest)

theorem forceNat_eq {α : Type} (n : Nat) (f : Nat → α) : forceNat n f = f n := by
  cases n <;> rfl

theorem force_eq {α : Type} (s : State) (f : State → α) : force s f = f s := by
  induction s generalizing f with
  | nil => rfl
  | cons item rest ih => simp only [force, forceNat_eq, ih]

/-- How many pieces a production may take. -/
def reductionLimit : Nat := 1000

/-- Reduces a production. -/
def reduceTop (t : Tables) (base : State) (w : Way) (stack : Reached) : Option Reached :=
  match t.grammar.production? w with
  | none => none
  | some p =>
    let n := p.steps.length
    if n < reductionLimit then
      match Piece.reduce t.grammar w p ((stack.take n).map (·.2)).reverse with
      | none => none
      | some piece =>
        force (t.goto (topOf base (stack.drop n)) w.symbol) fun s => some ((s, piece) :: stack.drop n)
    else none

/-- Reduces as far as it goes in front of a terminal, and reads it into a slot. -/
def feed (t : Tables) (base : State) (terminal : Terminal) (slot : Nat) :
    Nat → Reached → Option Reached
  | 0, _ => none
  | fuel + 1, stack =>
    if (topOf base stack).isEmpty then none
    else match t.actionsIn (topOf base stack) terminal.number with
      | [.shift s] => force s fun s => some ((s, .ofSlot terminal.number slot) :: stack)
      | .reduce w :: rest =>
        match reduceTop t base w stack with
        | none => none
        | some stack => if rest.all isRepeating then feed t base terminal slot fuel stack else none
      | _ => none

/-- Whether a terminal is looked for and nothing else is that would be found in its place, given the
terminals that can be read. -/
def fits (terminal : Terminal) (expected : Nat) : Bool :=
  let has (t : Terminal) := expected.testBit t.number
  match terminal with
  | .stringStart => has .stringStart
  | .stringText | .stringEnd => has .stringText && !has .indent
  | .newline => has .newline && !has .dedent && !(has .stringText && has .indent)
  | .indent => has .indent
  | .dedent => has .dedent
  | .identifier | .classWord | .endOfSource => has terminal && !has .formatText && !has .newline
  | _ => has terminal && !has .formatText

/-- Whether a state leads to itself. -/
def stays (t : Tables) (state : State) (terminal : Nat) : Bool :=
  match (t.actionsIn state terminal).getLast? with
  | some (.shift s) | some (.repeating s) => s == state
  | some .pass => true
  | _ => false

/-- Whether a terminal is seen from a state. -/
def seen (t : Tables) (state : State) (terminal : Terminal) : Bool :=
  fits terminal (t.expectedIn state) &&
    !(terminal == .newline && stays t state Terminal.newline.number)

/-- How many productions may be reduced in front of a terminal. -/
def feedLimit : Nat := 20

/-- Reads terminals into slots from a number on. -/
def feedAll (t : Tables) (base : State) : Nat → Reached → List Terminal → Option Reached
  | _, stack, [] => some stack
  | slot, stack, terminal :: rest =>
    if seen t (topOf base stack) terminal then
      match feed t base terminal slot feedLimit stack with
      | some stack => feedAll t base (slot + 1) stack rest
      | none => none
    else none

/-- Symbols put on top of a state, each with a slot of its own from a number on. -/
def putAll (t : Tables) (base : State) : Nat → Reached → List Nat → Reached
  | _, stack, [] => stack
  | slot, stack, symbol :: rest =>
    force (t.goto (topOf base stack) symbol) fun s =>
      putAll t base (slot + 1) ((s, .ofSlot symbol slot) :: stack) rest

/-- The state behind some symbols. -/
def stateAfter (t : Tables) (base : State) : List Nat → State
  | [] => base
  | symbol :: rest => force (t.goto base symbol) fun s => stateAfter t s rest

/-- Terminals read behind some symbols of which no slots are kept and some of which they are, and what
becomes of these and the terminals. -/
structure Phrase where
  base : List Nat
  stack : List Nat
  terminals : List Terminal
  result : List Piece

namespace Phrase

/-- What becomes of the slots of a phrase. -/
def outcome (p : Phrase) (t : Tables) : Option (List Piece) :=
  force (stateAfter t t.startState p.base) fun base =>
    (feedAll t base p.stack.length (putAll t base 0 [] p.stack) p.terminals).map fun r =>
      (r.map (·.2)).reverse

end Phrase

/-- The one piece that has been read, if it shows. -/
def whole (g : Productions) : Reached → Option Piece
  | [(_, piece)] => if g.isShown piece.symbol then some piece else none
  | _ => none

/-- Reduces as far as it goes in front of the end of the source. The answer is the piece that is then
left. -/
def close (t : Tables) (base : State) : Nat → Reached → Option Piece
  | 0, _ => none
  | fuel + 1, stack =>
    if (topOf base stack).isEmpty then none
    else match t.actionsIn (topOf base stack) Terminal.endOfSource.number with
      | [.accept] => whole t.grammar stack
      | .reduce w :: rest =>
        match reduceTop t base w stack with
        | none => none
        | some stack => if rest.all isRepeating then close t base fuel stack else none
      | _ => none

end ModelAtlas.Source.Grammar
