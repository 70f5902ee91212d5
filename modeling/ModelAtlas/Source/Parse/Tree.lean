import ModelAtlas.Source.Parse.Lookahead

/-!
# Trees

A tree keeps everything that was read, also what does not show: layout, repetitions and grouping
rules. It knows what it costs: a source read without errors costs nothing, and of two readings the
cheaper one is kept (`Tree.yieldsTo`).
-/

namespace ModelAtlas.Source.Parse

open Grammar (Productions Way Terminal)

structure Facts where
  /-- Where the tree before ended. -/
  lead : Cursor
  start : Cursor
  stop : Cursor
  /-- Whether it may stand anywhere, as comments do. -/
  extra : Bool := false
  cost : Nat := 0
  dynamic : Int := 0
  /-- How many nodes show below it. -/
  shownBelow : Nat := 0
  /-- How many nodes show directly below it. -/
  shownChildren : Nat := 0
  /-- The layout behind the last terminal in it that was read from the layout. -/
  layout : Option Layout := none

inductive Tree where
  | node (label : Label) (production : Option Way) (facts : Facts) (children : List Tree)

namespace Tree

def label : Tree → Label
  | .node label _ _ _ => label

def production : Tree → Option Way
  | .node _ production _ _ => production

def facts : Tree → Facts
  | .node _ _ facts _ => facts

def children : Tree → List Tree
  | .node _ _ _ children => children

def extra (t : Tree) : Bool := t.facts.extra
def cost (t : Tree) : Nat := t.facts.cost
def dynamic (t : Tree) : Int := t.facts.dynamic
def stop (t : Tree) : Cursor := t.facts.stop

/-! ### Costs -/

/-- A stretch that could not be read. -/
def errorCost : Nat := 500

/-- A tree in such a stretch. -/
def skippedTreeCost : Nat := 100

/-- A line break in such a stretch; a character costs one for each byte. -/
def skippedLineCost : Nat := 30

/-- A terminal that is not in the source. -/
def missingCost : Nat := 610

/-- What it costs to pass over the source between two cursors. -/
def distance (start stop : Cursor) : Nat :=
  (stop.offset - start.offset) + skippedLineCost * (stop.mark.line - start.mark.line)

/-! ### Construction -/

/-- A terminal. -/
def leaf (look : Lookahead) (extra : Bool) : Tree :=
  .node look.label none
    { lead := look.lead, start := look.start, stop := look.stop, extra := extra
      layout := look.layout } []

/-- A terminal that is not in the source. -/
def missing (symbol : Nat) (c : Cursor) : Tree :=
  .node (.symbol symbol) none { lead := c, start := c, stop := c, cost := missingCost } []

/-- An error that holds nothing. -/
def emptyError (c : Cursor) : Tree :=
  .node .error none { lead := c, start := c, stop := c, cost := errorCost } []

def isShown (g : Productions) : Label → Bool
  | .symbol n => g.isShown n
  | .error => true
  | .skipped => false

/-- What a tree adds to the cost of the error around it. -/
def skippedCost (g : Productions) (t : Tree) : Nat :=
  if t.extra || (t.label == .error && t.children.isEmpty) then 0
  else if isShown g t.label then skippedTreeCost
  else if t.children.isEmpty then 0
  else skippedTreeCost * t.facts.shownChildren

/-- Takes a child into account; `inGuise` tells whether it appears under another kind. -/
def Facts.add (g : Productions) (isError inGuise : Bool) (f : Facts) (t : Tree) : Facts :=
  let shown := inGuise || isShown g t.label
  { f with
    stop := t.stop
    cost := f.cost + (if t.label == .skipped then 0 else t.cost) +
      (if isError then skippedCost g t else 0)
    dynamic := f.dynamic + t.dynamic
    shownBelow := f.shownBelow + t.facts.shownBelow + (if shown then 1 else 0)
    shownChildren := f.shownChildren +
      (if shown then 1 else if t.children.isEmpty then 0 else t.facts.shownChildren)
    layout := t.facts.layout.or f.layout }

/-- Takes children into account, the steps of their production beside them; trees that may stand
anywhere take no step. -/
def addChildren (g : Productions) (isError : Bool) :
    List Grammar.Step → Facts → List Tree → Facts
  | _, f, [] => f
  | steps, f, t :: rest =>
    let inGuise := !t.extra && t.label != .symbol Terminal.endOfSource.number &&
      steps.head?.any (·.guise.isSome)
    addChildren g isError (if t.extra then steps else steps.tail) (Facts.add g isError inGuise f t)
      rest

/-- A tree over some others, which stands at `c` if there are none. -/
def ofChildren (g : Productions) (label : Label) (production : Option Way) (c : Cursor)
    (children : List Tree) : Tree :=
  let isError := label == .error || label == .skipped
  let steps := ((production.bind g.production?).map (·.steps)).getD []
  let initial : Facts :=
    match children with
    | [] => { lead := c, start := c, stop := c }
    | t :: _ => { lead := t.facts.lead, start := t.facts.start, stop := t.stop }
  let f := addChildren g isError steps initial children
  .node label production
    { f with cost := f.cost + if isError then errorCost + distance f.start f.stop else 0 } children

def asExtra : Tree → Tree
  | .node label production facts children =>
    .node label production { facts with extra := true } children

def raiseDynamic (level : Int) : Tree → Tree
  | .node label production facts children =>
    .node label production { facts with dynamic := facts.dynamic + level } children

/-- How many nodes a tree counts for. -/
def weight (g : Productions) (t : Tree) : Nat :=
  t.facts.shownBelow + (if isShown g t.label || t.label == .skipped then 1 else 0)

/-! ### Choosing between readings -/

/-- Errors come last. -/
def rank (symbolCount : Nat) : Label → Nat
  | .symbol n => n
  | .error => symbolCount
  | .skipped => symbolCount + 1

mutual
/-- Compares labels, then numbers of children, then the children. -/
def compare (symbolCount : Nat) : Tree → Tree → Ordering
  | .node a _ _ as, .node b _ _ bs =>
    ((Ord.compare (rank symbolCount a) (rank symbolCount b)).then
      (Ord.compare as.length bs.length)).then (compareAll symbolCount as bs)
/-- Compares trees one by one. -/
def compareAll (symbolCount : Nat) : List Tree → List Tree → Ordering
  | a :: as, b :: bs => (compare symbolCount a b).then (compareAll symbolCount as bs)
  | _, _ => .eq
end

/-- Whether another reading of the same source is kept in place of this one: the cheaper, then the
one with the higher dynamic level; of two with errors the later, else the smaller. -/
def yieldsTo (g : Productions) (t other : Tree) : Bool :=
  if other.cost != t.cost then other.cost < t.cost
  else if other.dynamic != t.dynamic then t.dynamic < other.dynamic
  else 0 < t.cost || compare g.symbolCount t other == .gt

/-- Splits off the trees at the end that may stand anywhere. -/
def splitExtras (trees : List Tree) : List Tree × List Tree :=
  let extras := (trees.reverse.takeWhile (·.extra)).reverse
  (trees.take (trees.length - extras.length), extras)

/-- Whether two trees can be told apart only by what they are made of. -/
def alike (a b : Tree) : Bool :=
  a.label == b.label &&
    ((0 < a.cost && 0 < b.cost) ||
      (a.facts.start.offset - a.facts.lead.offset == b.facts.start.offset - b.facts.lead.offset &&
        a.stop.offset - a.facts.start.offset == b.stop.offset - b.facts.start.offset &&
        a.children.length == b.children.length && a.extra == b.extra &&
        a.facts.layout == b.facts.layout))

end Tree

end ModelAtlas.Source.Parse
