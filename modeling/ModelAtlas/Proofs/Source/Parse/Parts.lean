import Mathlib.Data.List.Forall2
import ModelAtlas.Source.Node
import ModelAtlas.Source.Parse.Lookahead

/-!
# Parts

Most of what a tree holds does not matter to what is read behind it. A `Part` is what does: its symbol,
the nodes that it shows and where it stands. A production makes a part of parts (`isPart_ofChildren`).
-/

namespace ModelAtlas.Source

open Grammar Parse

/-! ### Nodes under field names -/

namespace Node

/-- A node under a field name, unless it has one. -/
def under (field : Option String) : Node → Node
  | .mk kind named own start stop children => .mk kind named (own.or field) start stop children

@[simp] theorem under_none (n : Node) : n.under none = n := by
  cases n
  simp [under]

@[simp] theorem map_under_none (nodes : List Node) : nodes.map (under none) = nodes := by
  rw [show under none = id from funext under_none, List.map_id]

theorem under_under (n : Node) (f g : Option String) : (n.under f).under g = n.under (f.or g) := by
  cases n
  simp [under, Option.or_assoc]

end Node

/-! ### Parts -/

/-- What a tree on the stack is to the reader. -/
structure Part where
  symbol : Nat
  nodes : List Node
  start : Cursor
  stop : Cursor
deriving Inhabited

/-- A terminal that stands in a source. -/
structure Token where
  terminal : Terminal
  start : Cursor
  stop : Cursor

namespace Part

/-- A terminal that has been read. -/
def ofToken (g : Productions) (t : Token) : Part where
  symbol := t.terminal.number
  nodes :=
    if g.isShown t.terminal.number then
      [.mk (g.kindOf t.terminal.number) (Productions.isNamed t.terminal.number) none t.start
        t.stop.mark []]
    else []
  start := t.start
  stop := t.stop

/-- The nodes of some parts, each under the field name that its step gives. -/
def nodesBeside (steps : List Step) (parts : List Part) : List Node :=
  (steps.zip parts).flatMap fun (s, p) => p.nodes.map (.under (s.field.map (·.text)))

/-- A part over others. Where there are none it stands at `c`. -/
def spanning (g : Productions) (w : Way) (steps : List Step) (c : Cursor) (parts : List Part) : Part :=
  let start := (parts.head?.map (·.start)).getD c
  let stop := (parts.getLast?.map (·.stop)).getD c
  let below := nodesBeside steps parts
  { symbol := w.symbol
    nodes :=
      if g.isShown w.symbol then
        [.mk (g.kindOf w.symbol) (Productions.isNamed w.symbol) none start stop.mark below]
      else below
    start := start
    stop := stop }

end Part

/-! ### Trees of parts -/

/-- The nodes that a tree gives under a field name, in front of others. -/
def nodesAs (g : Productions) (field : Option String) (t : Tree) (others : List Node) : List Node :=
  if Tree.isShown g t.label then Node.ofTree g none field t :: others
  else Node.nodesIn g field t others

/-- A tree that was read without errors. -/
structure IsPart (g : Productions) (p : Part) (t : Tree) : Prop where
  label : t.label = .symbol p.symbol
  required : t.extra = false
  cost : t.cost = 0
  start : t.facts.start = p.start
  stop : t.stop = p.stop
  nodes : ∀ field others, nodesAs g field t others = p.nodes.map (.under field) ++ others

section Over

variable {g : Productions} {parts : List Part} {trees : List Tree}

theorem nodesOf_parts {steps : List Step} (are : List.Forall₂ (IsPart g) parts trees)
    (plain : ∀ s ∈ steps, s.guise = none) (above : Option String) (others : List Node)
    (same : steps.length = parts.length) :
    Node.nodesOf g steps above trees others =
      (Part.nodesBeside steps parts).map (.under above) ++ others := by
  induction are generalizing steps with
  | nil => simp [Part.nodesBeside, Node.nodesOf]
  | @cons p t parts trees is _ ih =>
    obtain ⟨s, steps, rfl⟩ := List.exists_cons_of_length_eq_add_one same
    rw [List.forall_mem_cons] at plain
    have first := is.nodes ((s.field.map (·.text)).or above)
    have rest := ih plain.2 (Nat.succ.inj same)
    simp only [Node.nodesOf, is.required, plain.1, List.head?_cons, List.tail_cons,
      Bool.false_eq_true, if_false, Option.bind_some, Option.isSome_none, Bool.false_or, rest]
    refine (first _).trans ?_
    simp [Part.nodesBeside, Node.under_under, Function.comp_def]

theorem required_of_parts (are : List.Forall₂ (IsPart g) parts trees) :
    ∀ t ∈ trees, t.extra = false := by
  induction are with
  | nil => nofun
  | cons is _ ih => exact List.forall_mem_cons.mpr ⟨is.required, ih⟩

theorem cost_addChildren (are : List.Forall₂ (IsPart g) parts trees) (steps : List Step) (f : Facts) :
    (Tree.addChildren g false steps f trees).cost = f.cost := by
  induction are generalizing steps f with
  | nil => rfl
  | cons is _ ih =>
    rw [Tree.addChildren, ih]
    simp [Tree.Facts.add, is.cost]

theorem start_addChildren (steps : List Step) (f : Facts) (trees : List Tree) :
    (Tree.addChildren g false steps f trees).start = f.start ∧
      (Tree.addChildren g false steps f trees).extra = f.extra := by
  induction trees generalizing steps f with
  | nil => exact ⟨rfl, rfl⟩
  | cons t trees ih => exact ih _ _

theorem stop_addChildren (are : List.Forall₂ (IsPart g) parts trees) (steps : List Step) (f : Facts) :
    (Tree.addChildren g false steps f trees).stop =
      (parts.getLast?.map (·.stop)).getD f.stop := by
  induction are generalizing steps f with
  | nil => rfl
  | @cons p t parts trees is _ ih =>
    rw [Tree.addChildren, ih]
    cases parts with
    | nil => exact is.stop
    | cons q parts => simp [List.getLast?_cons]

/-- What a tree over some parts shows. -/
theorem nodesAs_spanning {w : Way} {p : Production} (found : g.production? w = some p)
    (plain : ∀ s ∈ p.steps, s.guise = none) (same : p.steps.length = parts.length) (c : Cursor)
    (are : List.Forall₂ (IsPart g) parts trees) {facts : Facts}
    (start : facts.start = (Part.spanning g w p.steps c parts).start)
    (stop : facts.stop = (Part.spanning g w p.steps c parts).stop) (field : Option String)
    (others : List Node) :
    nodesAs g field (.node (.symbol w.symbol) (some w) facts trees) others =
      (Part.spanning g w p.steps c parts).nodes.map (.under field) ++ others := by
  have steps : Node.stepsOf g (some w) = p.steps := by
    rw [Node.stepsOf, Option.bind_some, found]
    rfl
  have below := nodesOf_parts are plain none [] same
  rw [List.append_nil, Node.map_under_none] at below
  rw [nodesAs, Node.ofTree, Node.nodesIn, steps, below, nodesOf_parts are plain field others same,
    start, stop]
  simp only [Tree.label, Tree.isShown, Node.titleOf, Part.spanning]
  by_cases shown : g.isShown w.symbol = true <;> simp [shown, Node.under]

/-- A production makes a part of parts. -/
theorem isPart_ofChildren {w : Way} {p : Production} (found : g.production? w = some p)
    (plain : ∀ s ∈ p.steps, s.guise = none) (same : p.steps.length = parts.length) (c : Cursor)
    (are : List.Forall₂ (IsPart g) parts trees) (dynamic : Int) :
    IsPart g (.spanning g w p.steps c parts)
      ((Tree.ofChildren g (.symbol w.symbol) (some w) c trees).raiseDynamic dynamic) := by
  obtain ⟨initial, made, first, last⟩ : ∃ initial : Facts,
      (Tree.ofChildren g (.symbol w.symbol) (some w) c trees).raiseDynamic dynamic =
        .node (.symbol w.symbol) (some w)
          { Tree.addChildren g false p.steps initial trees with
            dynamic := (Tree.addChildren g false p.steps initial trees).dynamic + dynamic } trees ∧
      (initial.start = (Part.spanning g w p.steps c parts).start ∧ initial.cost = 0 ∧
        initial.extra = false) ∧
      (parts.getLast?.map (·.stop)).getD initial.stop = (Part.spanning g w p.steps c parts).stop := by
    simp only [Tree.ofChildren, Option.bind_some, found]
    cases are with
    | nil => exact ⟨{ lead := c, start := c, stop := c }, rfl, ⟨rfl, rfl, rfl⟩, rfl⟩
    | @cons _ t _ _ is _ =>
      refine ⟨{ lead := t.facts.lead, start := t.facts.start, stop := t.stop }, rfl,
        ⟨is.start, rfl, rfl⟩, ?_⟩
      simp [Part.spanning, List.getLast?_cons]
  obtain ⟨start, extra⟩ := start_addChildren p.steps initial trees (g := g)
  have cost := cost_addChildren are p.steps initial
  have stop := stop_addChildren are p.steps initial
  rw [made]
  exact ⟨rfl, extra.trans first.2.2, cost.trans first.2.1, start.trans first.1, stop.trans last,
    nodesAs_spanning found plain same c are (start.trans first.1) (stop.trans last)⟩

end Over

/-- What a lookahead tells about the terminal in front of a reader and the layout behind it. -/
structure Sees (look : Lookahead) (token : Token) (before after : Layout) : Prop where
  label : look.label = .symbol token.terminal.number
  start : look.start = token.start
  stop : look.stop = token.stop
  layout : look.layout.getD before = after

theorem isPart_leaf (g : Productions) {look : Lookahead} {token : Token} {before after : Layout}
    (sees : Sees look token before after) : IsPart g (.ofToken g token) (.leaf look false) := by
  refine ⟨sees.label, rfl, rfl, sees.start, sees.stop, fun field others => ?_⟩
  rw [nodesAs, Tree.leaf, Tree.label, sees.label, Part.ofToken, Node.ofTree, Node.nodesIn, sees.start,
    sees.stop]
  by_cases shown : g.isShown token.terminal.number = true <;>
    simp [Tree.isShown, Node.titleOf, Node.nodesOf, Node.under, shown]

end ModelAtlas.Source
