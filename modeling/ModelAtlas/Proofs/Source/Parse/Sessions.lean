import ModelAtlas.Proofs.Source.Grammar.States
import ModelAtlas.Proofs.Source.Parse.Parts
import ModelAtlas.Source.Parse.Run

/-!
# Sessions without errors

As long as a source is read without errors and without a choice, a session has one version, and its
stack has one way down: it is known by the parts that have been read (`Reads`). What follows from the
actions of the grammar is said of parts here: they are reduced (`Reads.reduce`), and a terminal is read
(`Reads.shift`).
-/

namespace ModelAtlas.Source

open Grammar Parse

/-! ### Stacks -/

/-- The state behind some parts, the last read first. -/
def stateBehind (t : Tables) (base : State) : List Part → State
  | [] => base
  | p :: rest => t.goto (stateBehind t base rest) p.symbol

/-- Where some parts have been read up to, the last one first. -/
def hereBehind (start : Cursor) : List Part → Cursor
  | [] => start
  | p :: _ => p.stop

/-- A stack with one way down, which leads over the trees of some parts. -/
inductive Stands (t : Tables) (base : State) (start : Cursor) : List Part → Stack → Prop
  | bottom : Stands t base start [] (.bottom base start)
  | push {parts stack part tree} (id : Nat) : Stands t base start parts stack →
      IsPart t.grammar part tree →
      Stands t base start (part :: parts)
        (stack.push t.grammar id tree (t.goto (stateBehind t base parts) part.symbol))

namespace Stands

variable {t : Tables} {base : State} {start : Cursor} {parts : List Part} {stack : Stack}

theorem state (stands : Stands t base start parts stack) : stack.state = stateBehind t base parts := by
  cases stands <;> rfl

theorem here (stands : Stands t base start parts stack) : stack.here = hereBehind start parts := by
  cases stands with
  | bottom => rfl
  | push _ _ is => exact is.stop

theorem cost (stands : Stands t base start parts stack) : stack.cost = 0 := by
  induction stands with
  | bottom => rfl
  | push _ _ is ih =>
    show Stack.cost _ + Tree.cost _ = 0
    rw [ih, is.cost]

/-- Going down over a tree that does not stand just anywhere. -/
theorem followAll_push (g : Productions) (stack : Stack) (id : Nat) {tree : Tree}
    (required : tree.extra = false) (state : State) (taken : List Tree) (count : Nat) :
    Stack.Path.followAll [⟨stack.push g id tree state, taken, count⟩] =
      [⟨stack, tree :: taken, count + 1⟩] := by
  simp [Stack.Path.followAll, Stack.push, Stack.links, Stack.Path.follow, required]

/-- Going down from a place where some trees have been taken off. -/
theorem descend {top : List Part} (stands : Stands t base start (top ++ parts) stack) (fuel count : Nat)
    (taken : List Tree) :
    ∃ below trees, Stands t base start parts below ∧
      List.Forall₂ (IsPart t.grammar) top.reverse trees ∧
      Stack.Path.descend (fun p => p.count == count + top.length) (fuel + top.length + 1)
        [⟨stack, taken, count⟩] = [⟨below, trees ++ taken, count + top.length⟩] := by
  -- on the parts that are taken off; `taken` holds the trees of those above
  induction top generalizing stack count taken with
  | nil =>
    refine ⟨stack, [], stands, .nil, ?_⟩
    cases fuel <;> simp [Stack.Path.descend, Stack.Path.followAll]
  | cons part top ih =>
    cases stands with
    | @push _ above _ tree id stands is =>
      obtain ⟨below, trees, stands, are, descends⟩ := ih stands (count + 1) (tree :: taken)
      have total : count + 1 + top.length = count + (part :: top).length := by
        rw [List.length_cons]
        omega
      refine ⟨below, trees ++ [tree], stands, ?_, ?_⟩
      · rw [List.reverse_cons]
        exact List.rel_append are (.cons is .nil)
      · rw [total] at descends
        rw [Stack.Path.descend, List.filter_cons_of_neg (by simp), List.filter_nil,
          List.nil_append, List.filter_cons_of_pos (by simp), List.filter_nil,
          followAll_push _ _ _ is.required, List.append_assoc, List.singleton_append]
        · exact descends
        · nofun

/-- Taking off some trees. -/
theorem pop {top : List Part} (stands : Stands t base start (top ++ parts) stack)
    (few : top.length < Stack.depthLimit) :
    ∃ below trees, Stands t base start parts below ∧
      List.Forall₂ (IsPart t.grammar) top.reverse trees ∧
      stack.pop top.length = [⟨below, trees, top.length⟩] := by
  obtain ⟨below, trees, stands, are, descends⟩ :=
    stands.descend (Stack.depthLimit - top.length - 1) 0 []
  refine ⟨below, trees, stands, are, ?_⟩
  rw [Nat.zero_add, List.append_nil] at descends
  have enough : Stack.depthLimit - top.length - 1 + top.length + 1 = Stack.depthLimit := by omega
  rw [enough] at descends
  exact descends

end Stands

/-! ### Sessions -/

/-- A session that has read some parts without errors: it has one version, which may read on. -/
structure Reads (a : Automaton) (size : Nat) (start : Cursor) (parts : List Part) (layout : Layout)
    (s : Session) : Prop where
  version : ∃ v, s.versions = #[v] ∧ v.status = .active ∧ v.weightAtError = 0 ∧ v.layout = layout ∧
    Stands a.tables a.startState start parts v.stack
  unfinished : s.finished = none
  room : (hereBehind start parts).rest.length + 2 ≤ size

open Session

section Sessions

variable {a : Automaton} {size : Nat} {start : Cursor} {layout : Layout} {s : Session}
variable {parts : List Part}

theorem pure_apply {α : Type} (x : α) (s : Session) : (StateT.pure x : Reading α) s = (x, s) := rfl

/-- What comes first is done first. -/
theorem run_bind {α β : Type} {x : Reading α} {f : α → Reading β} {a : α} {s s' : Session}
    (first : x.run s = (a, s')) : (x >>= f).run s = (f a).run s' := by
  rw [StateT.run_bind, first]
  rfl

theorem run_version {v : Version} (versions : s.versions = #[v]) :
    (version? 0).run s = (some v, s) := by
  simp [version?, versions]
  rfl

theorem run_reduce {v : Version} {w : Way} {p : Production} {below : Stack}
    {trees : List Tree} {n : Nat} (versions : s.versions = #[v]) (active : v.status = .active)
    (found : a.grammar.production? w = some p)
    (popped : v.stack.pop p.steps.length = [⟨below, trees, n⟩])
    (required : ∀ t ∈ trees, t.extra = false) :
    (reduce a 0 w).run s = (some 1, { s with
      versions := #[v, { v with
        stack := below.push a.grammar s.fresh
          ((Tree.ofChildren a.grammar (.symbol w.symbol) (some w) below.here
            trees).raiseDynamic p.dynamic)
          (a.afterNonterminal below.state w.symbol)
        milestones := [] }]
      fresh := s.fresh + 1 }) := by
  have inside : Tree.splitExtras trees = (trees, []) := by
    have none : trees.reverse.takeWhile (·.extra) = [] := by
      cases order : trees.reverse with
      | nil => rfl
      | cons t rest =>
        have member : t ∈ trees := List.mem_reverse.mp (order ▸ List.mem_cons_self)
        rw [List.takeWhile_cons, if_neg (by simp [required t member])]
    simp [Tree.splitExtras, none]
  have notHalted : v.isHalted = false := by simp [Version.isHalted, active]
  simp [reduce, version?, versions, found, versionCount, popped, notHalted, Stack.groupByStack,
    reduceEach, inside, treeOver, pushAll, push, freshId, addVersion, mergeIntoFirst, StateT.run,
    bind, StateT.bind, StateT.get, get, getThe, MonadStateOf.get, pure, pure_apply, modify,
    modifyGet, MonadStateOf.modifyGet, StateT.modifyGet, versionLimit, versionOverflow, active]

theorem run_replaceVersion {old new : Version} (versions : s.versions = #[old, new]) :
    (replaceVersion 0 1).run s = ((), { s with versions := #[{ new with
      milestones := if new.milestones.isEmpty then old.milestones else new.milestones }] }) := by
  simp [replaceVersion, version?, versions, setVersion, removeVersion, StateT.run, bind, StateT.bind,
    StateT.get, get, getThe, MonadStateOf.get, pure, pure_apply, modify, modifyGet,
    MonadStateOf.modifyGet, StateT.modifyGet]

theorem perform_repeating {rest : List Automaton.Action} (only : rest.all isRepeating) (index : Nat)
    (look : Lookahead) (v : Version) (outcome : Outcome) (s : Session) :
    (perform a index look v rest outcome).run s = (outcome, s) := by
  induction rest with
  | nil => rfl
  | cons a rest ih =>
    rw [List.all_cons, Bool.and_eq_true] at only
    cases a with
    | repeating _ => exact ih only.2
    | _ => cases only.1

theorem run_readOn_reduce {v : Version} {look : Lookahead} {w : Way} {rest : List Automaton.Action}
    {s' : Session} (versions : s.versions = #[v]) (actions : actionsOn a v look = .reduce w :: rest)
    (only : rest.all isRepeating) (reduces : (reduce a 0 w).run s = (some 1, s')) (fuel : Nat) :
    (readOn a 0 (fuel + 1) look).run s =
      (readOn a 0 fuel look).run ((replaceVersion 0 1).run s').2 := by
  have performs : (perform a 0 look v (.reduce w :: rest) .stuck).run s =
      (.reduced (some 1), s') := by
    rw [perform, run_bind reduces]
    · exact perform_repeating only 0 look v _ s'
    · nofun
  have replaces : (replaceVersion 0 1).run s' = ((), ((replaceVersion 0 1).run s').2) := rfl
  rw [readOn, run_bind (run_version versions)]
  dsimp only
  rw [actions, run_bind performs]
  dsimp only
  rw [run_bind replaces]

variable {look : Lookahead} {terminal : Nat}

/-- The state that a session has reached. -/
abbrev reachedState (a : Automaton) (parts : List Part) : State :=
  stateBehind a.tables a.startState parts

theorem actionsOn_eq {v : Version} (stands : Stands a.tables a.startState start parts v.stack)
    (label : look.label = .symbol terminal) :
    actionsOn a v look = a.actions (reachedState a parts) terminal := by
  rw [actionsOn, label]
  show a.actions v.stack.state terminal = _
  rw [stands.state]

/-- Where the grammar reduces, the parts on top become one. -/
theorem Reads.reduce {children : List Part}
    (reads : Reads a size start (children.reverse ++ parts) layout s) {w : Way} {p : Production}
    (found : a.grammar.production? w = some p) (plain : ∀ s ∈ p.steps, s.guise = none)
    (same : p.steps.length = children.length) (few : p.steps.length < Stack.depthLimit)
    (label : look.label = .symbol terminal) {rest : List Automaton.Action}
    (actions : a.actions (reachedState a (children.reverse ++ parts)) terminal =
      .reduce w :: rest)
    (only : rest.all isRepeating) (fuel : Nat) :
    ∃ s', Reads a size start
        (.spanning a.grammar w p.steps (hereBehind start parts) children :: parts) layout s' ∧
      (readOn a 0 (fuel + 1) look).run s = (readOn a 0 fuel look).run s' := by
  obtain ⟨⟨v, versions, active, weight, layouts, stands⟩, unfinished, room⟩ := reads
  have length : p.steps.length = children.reverse.length := by rw [same, List.length_reverse]
  obtain ⟨below, trees, standsBelow, are, popped⟩ := stands.pop (length ▸ few)
  rw [List.reverse_reverse] at are
  rw [← length] at popped
  have reduces := run_reduce versions active found popped (required_of_parts are)
  have here := (actionsOn_eq stands label).trans actions
  rw [run_readOn_reduce versions here only reduces, run_replaceVersion rfl]
  refine ⟨_, ?_, rfl⟩
  refine ⟨⟨_, rfl, active, weight, layouts, ?_⟩, unfinished, ?_⟩
  · rw [a.afterNonterminal_eq (Productions.symbol_lt_of_production? found),
      standsBelow.state, standsBelow.here]
    exact .push _ standsBelow (isPart_ofChildren found plain same _ are _)
  · -- what is read ends where the last of the children does
    rcases List.eq_nil_or_concat children with rfl | ⟨others, last, rfl⟩
    · exact room
    · simpa [Part.spanning, hereBehind] using room

/-- Where the grammar reads on, the terminal is put on top. -/
theorem Reads.shift (reads : Reads a size start parts layout s) {token : Token} {after : Layout}
    (sees : Sees look token layout after) {state : State}
    (actions : a.actions (reachedState a parts) token.terminal.number = [.shift state])
    (target : state = a.tables.goto (reachedState a parts) token.terminal.number)
    (within : token.stop.rest.length + 2 ≤ size) (fuel : Nat) :
    ∃ s', Reads a size start (.ofToken a.grammar token :: parts) after s' ∧
      (readOn a 0 (fuel + 1) look).run s = ((), s') := by
  obtain ⟨⟨v, versions, active, weight, layouts, stands⟩, unfinished, _⟩ := reads
  have here := (actionsOn_eq stands sees.label).trans actions
  let read : Session := { s with
    versions := #[{ v with
      stack := v.stack.push a.grammar s.fresh (.leaf look false) state
      layout := look.layout.getD v.layout }]
    fresh := s.fresh + 1 }
  have performs : (perform a 0 look v [.shift state] .stuck).run s = (.done, read) := by
    simp [perform, push, freshId, setVersion, versions, StateT.run, bind, StateT.bind, pure,
      pure_apply, modify, modifyGet, MonadStateOf.modifyGet, StateT.modifyGet, read]
  refine ⟨read, ⟨⟨_, rfl, active, weight, ?_, ?_⟩, unfinished, within⟩, ?_⟩
  · rw [← sees.layout, ← layouts]
  · rw [target]
    exact .push _ stands (isPart_leaf _ sees)
  · rw [readOn, run_bind (run_version versions)]
    dsimp only
    rw [here, run_bind performs]
    rfl

end Sessions

end ModelAtlas.Source
