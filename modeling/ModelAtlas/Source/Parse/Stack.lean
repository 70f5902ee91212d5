import ModelAtlas.Source.Parse.Tree

/-!
# Stacks

A stack holds the trees read so far, and below each the state it was read in. Readings that meet in
one state share their top: below it the stack goes on along several links, and what is taken off
comes once for each way down (`Stack.pop`).
-/

namespace ModelAtlas.Source.Parse

open Grammar (Productions State)

inductive Stack where
  /-- The links to what lies below, each with the tree between; a link without a tree is where an
  error began. `cost`, `weight` and `dynamic` are those of all trees down to the bottom. -/
  | node (id : Nat) (state : State) (here : Cursor) (cost weight : Nat) (dynamic : Int)
      (links : List (Option Tree × Stack))

namespace Stack

def id : Stack → Nat
  | .node id _ _ _ _ _ _ => id

def state : Stack → State
  | .node _ state _ _ _ _ _ => state

def here : Stack → Cursor
  | .node _ _ here _ _ _ _ => here

def cost : Stack → Nat
  | .node _ _ _ cost _ _ _ => cost

def weight : Stack → Nat
  | .node _ _ _ _ weight _ _ => weight

def dynamic : Stack → Int
  | .node _ _ _ _ _ dynamic _ => dynamic

def links : Stack → List (Option Tree × Stack)
  | .node _ _ _ _ _ _ links => links

def bottom (state : State) (here : Cursor) : Stack := .node 0 state here 0 0 0 []

/-- Puts a tree on top. -/
def push (g : Productions) (s : Stack) (id : Nat) (tree : Tree) (state : State) : Stack :=
  .node id state tree.stop (s.cost + tree.cost) (s.weight + tree.weight g)
    (s.dynamic + tree.dynamic) [(some tree, s)]

/-- Marks where an error begins. -/
def pushError (s : Stack) (id : Nat) : Stack :=
  .node id Grammar.Automaton.errorState s.here s.cost s.weight s.dynamic [(none, s)]

/-! ### Ways down -/

/-- A way down: where it has come to, the trees taken off, lowest first, and how many of them
count. -/
structure Path where
  stack : Stack
  trees : List Tree := []
  count : Nat := 0

namespace Path

def follow (p : Path) (link : Option Tree × Stack) : Path :=
  match link.1 with
  | none => { p with stack := link.2, count := p.count + 1 }
  | some t =>
    { stack := link.2, trees := t :: p.trees, count := if t.extra then p.count else p.count + 1 }

/-- How many ways are followed at once. -/
def limit : Nat := 64

/-- Follows the first link of each way, and then the others, as far as the limit allows. -/
def followAll (paths : List Path) : List Path :=
  let first := paths.filterMap fun p => p.stack.links.head?.map p.follow
  let others := paths.flatMap fun p => p.stack.links.tail.map p.follow
  first ++ others.take (limit - paths.length)

/-- Goes down along all ways until `done`. -/
def descend (done : Path → Bool) : Nat → List Path → List Path
  | 0, _ => []
  | _ + 1, [] => []
  | fuel + 1, paths =>
    paths.filter done ++ descend done fuel (followAll (paths.filter (!done ·)))

end Path

/-- How far down a stack is followed. -/
def depthLimit : Nat := 1000000

/-- The ways of taking off a number of trees, not counting those that may stand anywhere. -/
def pop (s : Stack) (count : Nat) : List Path :=
  Path.descend (fun p => p.count == count) depthLimit [{ stack := s }]

/-- The ways of taking off everything. -/
def popAll (s : Stack) : List Path :=
  Path.descend (fun p => p.stack.links.isEmpty) depthLimit [{ stack := s }]

/-- Groups ways by where they have come to. -/
def groupByStack : List Path → List (Stack × List (List Tree))
  | paths => (paths.foldl (fun groups p =>
      if groups.any fun g => g.1.id == p.stack.id then
        groups.map fun g => if g.1.id == p.stack.id then (g.1, p.trees :: g.2) else g
      else groups ++ [(p.stack, [p.trees])]) []).map fun g => (g.1, g.2.reverse)

/-- Takes off an error on top: its trees, and what lies below. -/
def popError (s : Stack) : Option (List Tree × Stack) :=
  s.links.findSome? fun (tree, below) =>
    tree.bind fun t => if t.label == .error then some (t.children, below) else none

/-! ### Milestones -/

/-- A state on the way down: where it was left, and how many trees lie above. -/
structure Milestone where
  here : Cursor
  depth : Nat
  state : State

namespace Milestone

/-- How many trees down milestones are looked for. -/
def limit : Nat := 16

/-- Adds the end of a way to the milestones, which stand last first, if it is new at its depth. -/
def note (found : List Milestone) (p : Path) : List Milestone :=
  let known := (found.takeWhile fun m => p.count ≤ m.depth).any fun m =>
    m.depth == p.count && m.state == p.stack.state
  if known then found else ⟨p.stack.here, p.count, p.stack.state⟩ :: found

def collect : Nat → List Path → List Milestone → List Milestone
  | 0, _, found => found
  | _ + 1, [], found => found
  | fuel + 1, paths, found =>
    let near := paths.filter fun p => p.count ≤ limit
    collect fuel (Path.followAll near) (near.foldl note found)

end Milestone

/-- The states down from the top, nearest first. -/
def milestones (s : Stack) : List Milestone :=
  (Milestone.collect depthLimit [{ stack := s }] []).reverse

/-! ### Meeting -/

/-- How many links a stack may have. -/
def linkLimit : Nat := 8

/-- How far down stacks are joined. -/
def joinLimit : Nat := 1000

def linkAlike : Option Tree → Option Tree → Bool
  | none, none => true
  | some a, some b => a.alike b
  | _, _ => false

def dynamicOf (link : Option Tree × Stack) : Int :=
  link.2.dynamic + (link.1.map (·.dynamic)).getD 0

def weightOf (g : Productions) (link : Option Tree × Stack) : Nat :=
  link.2.weight + (link.1.map (·.weight g)).getD 0

/-- Whether two stacks can be joined below alike trees. -/
def meets (a b : Stack) : Bool :=
  a.state == b.state && a.here.offset == b.here.offset && a.cost == b.cost

/-- Gives a stack another link. A link alike to one it has is joined with that: over the same stack
the tree with the higher dynamic level stays, over stacks that meet the links below are joined. -/
def addLink (g : Productions) : Nat → Stack → Option Tree × Stack → Stack
  | 0, s, _ => s
  | fuel + 1, .node id state here cost weight dynamic links, link =>
    let isAlike (l : Option Tree × Stack) : Bool :=
      linkAlike l.1 link.1 && (l.2.id == link.2.id || l.2.meets link.2)
    if link.2.id == id then .node id state here cost weight dynamic links
    else match links.findIdx? isAlike, links.find? isAlike with
    | some i, some old =>
      if old.2.id == link.2.id then
        let prefer := (old.1.map (·.dynamic)).getD 0 < (link.1.map (·.dynamic)).getD 0
        if prefer then .node id state here cost weight (dynamicOf link) (links.set i link)
        else .node id state here cost weight dynamic links
      else
        let below := link.2.links.foldl (addLink g fuel) old.2
        .node id state here cost weight (max dynamic (dynamicOf link)) (links.set i (old.1, below))
    | _, _ =>
      if linkLimit ≤ links.length then .node id state here cost weight dynamic links
      else .node id state here cost (max weight (weightOf g link)) (max dynamic (dynamicOf link))
        (links ++ [link])

/-- Joins a stack with another that it meets. -/
def join (g : Productions) (a b : Stack) : Stack := b.links.foldl (addLink g joinLimit) a

end Stack

end ModelAtlas.Source.Parse
