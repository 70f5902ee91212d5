import ModelAtlas.Source.Parse.Tree

/-!
# Nodes

What shows of a tree: nodes with a kind, a field name and a place in the source. Trees that do not
show give their nodes to the tree above them, and with them their field name.
-/

namespace ModelAtlas.Source

open Grammar (Productions Guise Step Way)
open Parse (Tree)

inductive Node where
  | mk (kind : String) (named : Bool) (field : Option String) (start : Cursor) (stop : Mark)
      (children : List Node)

namespace Node

def kind : Node → String
  | .mk kind _ _ _ _ _ => kind

/-- Whether the node has a kind of its own, as opposed to a keyword or a sign. -/
def named : Node → Bool
  | .mk _ named _ _ _ _ => named

/-- What the node is to the one above it. -/
def field : Node → Option String
  | .mk _ _ field _ _ _ => field

def start : Node → Cursor
  | .mk _ _ _ start _ _ => start

def stop : Node → Mark
  | .mk _ _ _ _ stop _ => stop

def children : Node → List Node
  | .mk _ _ _ _ _ children => children

def span (n : Node) : Span := ⟨n.start.mark, n.stop⟩
def range (n : Node) : Range := n.span.range

/-- The source of a node. -/
def text (n : Node) : String := n.start.textUpTo n.stop

def is (n : Node) (kind : String) : Bool := n.named && n.kind == kind

/-- The first child with a field name. -/
def child? (n : Node) (field : String) : Option Node :=
  n.children.find? (·.field == some field)

def namedChildren (n : Node) : List Node := n.children.filter (·.named)

/-- The named children without comments. -/
def parts (n : Node) : List Node := n.namedChildren.filter (!·.is "comment")

mutual
/-- How deep the nodes below a node are nested. -/
def depth : Node → Nat
  | .mk _ _ _ _ _ children => depthOf children + 1
/-- The greatest depth of some nodes. -/
def depthOf : List Node → Nat
  | [] => 0
  | n :: rest => max (depth n) (depthOf rest)
end

/-! ### From trees -/

/-- The kind of a tree, and whether it is named. -/
def titleOf (g : Productions) : Parse.Label → String × Bool
  | .symbol n => (g.kindOf n, Productions.isNamed n)
  | .error => ("ERROR", true)
  | .skipped => ("", false)

def stepsOf (g : Productions) (production : Option Way) : List Step :=
  ((production.bind g.production?).map (·.steps)).getD []

mutual
/-- The node of a tree that shows, in another guise if there is one. -/
def ofTree (g : Productions) (guise : Option Guise) (field : Option String) : Tree → Node
  | .node label production facts children =>
    let (kind, named) :=
      match guise with
      | some a => (a.kind, a.named)
      | none => titleOf g label
    .mk kind named field facts.start facts.stop.mark
      (nodesOf g (stepsOf g production) none children [])
/-- The nodes of a tree that does not show, in front of others. -/
def nodesIn (g : Productions) (field : Option String) : Tree → List Node → List Node
  | .node _ production _ children, others =>
    nodesOf g (stepsOf g production) field children others
/-- The nodes of some trees, the steps of their production beside them, in front of others. `above`
is the field name of the tree that holds them. -/
def nodesOf (g : Productions) (steps : List Step) (above : Option String) :
    List Tree → List Node → List Node
  | [], others => others
  | t :: rest, others =>
    let step := if t.extra then none else steps.head?
    let field := ((step.bind (·.field)).map (·.text)).or (if t.extra then none else above)
    let guise := step.bind (·.guise)
    let after := nodesOf g (if t.extra then steps else steps.tail) above rest others
    if guise.isSome || Tree.isShown g t.label then ofTree g guise field t :: after
    else nodesIn g field t after
end

end Node

end ModelAtlas.Source
