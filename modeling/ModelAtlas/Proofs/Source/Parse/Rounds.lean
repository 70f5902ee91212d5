import ModelAtlas.Proofs.Source.Parse.Pieces

/-!
# Rounds of a session

A session that reads a source without errors takes one step for each token (`Leads`), until the last
step takes the end of the source into its tree (`Reads.accept`). The rounds of `treeOf` come to this
step, so the tree that it finds is the tree of the source (`treeOf_finds`).
-/

namespace ModelAtlas.Source

open Grammar Parse Session

/-! ### Steps -/

section Steps

variable {a : Automaton} {size : Nat} {start : Cursor} {parts : List Part} {before : Layout}
variable {s : Session}

/-- The next step of a session looks for a token behind what has been read. -/
theorem Reads.run_advance (reads : Reads a size start parts before s) :
    (advance a size 0).run s = (readOn a 0 stepLimit (Lookahead.look a size (reachedState a parts)
      true before (hereBehind start parts))).run s := by
  obtain ⟨⟨v, versions, _, _, layouts, stands⟩, _, _⟩ := reads
  have advanced : v.hasAdvanced = true := by rw [Version.hasAdvanced, stands.cost]; rfl
  have state : v.state = reachedState a parts := stands.state
  have here : v.here = hereBehind start parts := stands.here
  rw [advance, run_bind (run_version versions)]
  dsimp only
  rw [advanced, state, here, layouts]

/-- Steps of a session that reads without errors. -/
inductive Leads (a : Automaton) (size : Nat) (start : Cursor) : Nat → Session → Session → Prop
  | refl (s : Session) : Leads a size start 0 s s
  | step {n : Nat} {s s' s'' : Session} {parts : List Part} {layout : Layout} :
    Reads a size start parts layout s → (advance a size 0).run s = ((), s') →
    Leads a size start n s' s'' → Leads a size start (n + 1) s s''

theorem Leads.trans {m n : Nat} {s s' s'' : Session} (first : Leads a size start m s s')
    (second : Leads a size start n s' s'') : Leads a size start (m + n) s s'' := by
  induction first with
  | refl => rwa [Nat.zero_add]
  | step reads advances _ ih =>
    rw [Nat.add_right_comm]
    exact .step reads advances (ih second)

end Steps

/-! ### The end of the source -/

section Ends

variable {a : Automaton} {size : Nat} {start : Cursor} {part : Part} {layout : Layout}
variable {look : Lookahead} {s : Session}

/-- The tree of a whole source: the end of the source is taken into it. -/
def rootTree (g : Productions) (start : Cursor) (tree : Tree) (look : Lookahead) : Tree :=
  .ofChildren g tree.label tree.production start (tree.children ++ [.leaf look true])

/-- A session that has found its tree. -/
structure Ended (s : Session) (root : Tree) : Prop where
  halted : ∃ v, s.versions = #[v] ∧ v.status = .halted
  finished : s.finished = some root

theorem popAll_ended (g h : Productions) (base : State) (start : Cursor) (i j : Nat)
    (look : Lookahead) {tree : Tree} (required : tree.extra = false) (state state' : State) :
    (((Stack.bottom base start).push g i tree state).push h j (.leaf look true) state').popAll =
      [⟨.bottom base start, [tree, .leaf look true], 1⟩] := by
  have enough : Stack.depthLimit = 999997 + 3 := rfl
  have skipped : (Tree.leaf look true).extra = true := rfl
  simp [Stack.popAll, enough, Stack.Path.descend, Stack.Path.followAll, Stack.Path.follow, Stack.push,
    Stack.links, Stack.bottom, required, skipped]

theorem rootOf_ended (base : State) {tree : Tree} (required : tree.extra = false) :
    rootOf a ⟨.bottom base start, [tree, .leaf look true], 1⟩ =
      some (rootTree a.grammar start tree look) := by
  have skipped : (Tree.leaf look true).extra = true := rfl
  simp [rootOf, rootTree, required, skipped, Stack.bottom, Stack.here]

/-- Where one part is left, the source ends with its tree. -/
theorem Reads.accept (reads : Reads a size start [part] layout s) {terminal : Nat}
    (label : look.label = .symbol terminal)
    (actions : a.actions (reachedState a [part]) terminal = [.accept]) (fuel : Nat) :
    ∃ tree s', IsPart a.grammar part tree ∧ Ended s' (rootTree a.grammar start tree look) ∧
      (readOn a 0 (fuel + 1) look).run s = ((), s') := by
  obtain ⟨⟨v, versions, active, weight, layouts, stands⟩, unfinished, _⟩ := reads
  have here := (actionsOn_eq stands label).trans actions
  generalize isStack : v.stack = stack at stands
  cases stands with
  | @push _ _ _ tree id below is =>
    cases below
    have popped := popAll_ended a.tables.grammar a.grammar a.startState start id s.fresh look is.required
      (a.tables.goto (stateBehind a.tables a.startState []) part.symbol) a.startState
    let ended : Session := {
      versions := #[{ v with
        stack := v.stack.push a.grammar s.fresh (.leaf look true) a.startState
        status := .halted }]
      finished := some (rootTree a.grammar start tree look)
      accepted := s.accepted + 1
      fresh := s.fresh + 1 }
    have performs : (perform a 0 look v [.accept] .stuck).run s = (.done, ended) := by
      simp [perform, Session.accept, version?, versions, push, freshId, setVersion, isStack, popped,
        rootOf_ended _ is.required, finish, unfinished, Version.halt, StateT.run, bind, StateT.bind,
        pure, pure_apply, modify, modifyGet, MonadStateOf.modifyGet, StateT.modifyGet, StateT.get,
        get, getThe, MonadStateOf.get, ended]
    refine ⟨tree, ended, is, ⟨⟨_, rfl, rfl⟩, rfl⟩, ?_⟩
    rw [readOn, run_bind (run_version versions)]
    dsimp only
    rw [here, run_bind performs]
    rfl

/-- Closing a source among pieces is closing it among the parts that they stand for. -/
theorem reads_close {slots : Nat → Part} {fuel : Nat} {r : Reached} {piece : Piece}
    (closes : close a.tables a.startState fuel r = some piece)
    (coherent : Coherent a.tables a.startState r)
    (reads : Reads a size start (Part.ofReached a.grammar slots r) layout s)
    (label : look.label = .symbol Terminal.endOfSource.number) (more : Nat) :
    a.grammar.isShown piece.symbol = true ∧
    ∃ tree s', IsPart a.grammar (.ofPiece a.grammar slots piece) tree ∧
      Ended s' (rootTree a.grammar start tree look) ∧
      (readOn a 0 (fuel + more) look).run s = ((), s') := by
  -- on the reductions in front of the end; the last step accepts
  induction fuel generalizing r s with
  | zero => cases closes
  | succ fuel ih =>
    have state : reachedState a (Part.ofReached a.grammar slots r) = topOf a.startState r := by
      rw [← List.append_nil (Part.ofReached a.grammar slots r)]
      exact stateBehind_ofReached slots rfl coherent
    rw [close] at closes
    split at closes
    case isTrue => cases closes
    case isFalse some =>
      have proper : topOf a.startState r ≠ Automaton.errorState := fun none =>
        some (by rw [none]; rfl)
      have actions := a.actions_eq proper (Productions.number_lt_symbolCount .endOfSource)
      split at closes
      case h_1 isAccept =>
        unfold whole at closes
        split at closes
        case h_2 => cases closes
        case h_1 top piece =>
          split at closes
          case isFalse => cases closes
          case isTrue shown =>
            obtain rfl := Option.some.inj closes
            obtain ⟨tree, s', is, ended, runs⟩ := reads.accept label
              ((congrArg (a.actions · _) state).trans (actions.trans isAccept)) (fuel + more)
            rw [Nat.add_right_comm]
            exact ⟨shown, tree, s', is, ended, runs⟩
      case h_2 w rest isReduce =>
        split at closes
        case h_1 => cases closes
        case h_2 top reduces =>
          split at closes
          case isFalse => cases closes
          case isTrue only =>
            rw [← List.append_nil (Part.ofReached a.grammar slots r)] at reads
            obtain ⟨coherent, s', reads, runs⟩ := reads_reduceTop reduces rfl coherent reads label
              (actions.trans isReduce) only (fuel + more)
            rw [List.append_nil] at reads
            rw [Nat.add_right_comm, runs]
            exact ih closes coherent reads
      case h_3 => cases closes

theorem nodesOf_concat {g : Productions} (hidden : nodesAs g none (.leaf look true) [] = [])
    (steps : List Step) (trees : List Tree) :
    Node.nodesOf g steps none (trees ++ [.leaf look true]) [] = Node.nodesOf g steps none trees [] := by
  induction trees generalizing steps with
  | nil => exact hidden
  | cons t trees ih => simp only [List.cons_append, Node.nodesOf, ih]

/-- The node of a whole source is made of what the node of its last part is made of. -/
theorem ofTree_rootTree (start : Cursor) {g : Productions} {tree : Tree} (is : IsPart g part tree)
    (shown : g.isShown part.symbol = true)
    (label : look.label = .symbol Terminal.endOfSource.number) :
    part.nodes = [Node.ofTree g none none tree] ∧
    (Node.ofTree g none none (rootTree g start tree look)).kind =
      (Node.ofTree g none none tree).kind ∧
    (Node.ofTree g none none (rootTree g start tree look)).named =
      (Node.ofTree g none none tree).named ∧
    (Node.ofTree g none none (rootTree g start tree look)).children =
      (Node.ofTree g none none tree).children := by
  have nodes := is.nodes none []
  have none_under : Node.under none = id := funext Node.under_none
  rw [nodesAs, is.label, Tree.isShown, if_pos shown, List.append_nil, none_under, List.map_id] at nodes
  have hidden : nodesAs g none (.leaf look true) [] = [] := by
    simp only [nodesAs, Tree.leaf, Tree.label, label, Tree.isShown]
    rfl
  refine ⟨nodes.symm, ?_⟩
  cases tree with
  | node label production facts children =>
    refine ⟨rfl, rfl, ?_⟩
    exact nodesOf_concat hidden (Node.stepsOf g production) children

end Ends

/-! ### Rounds -/

section Rounds

variable {a : Automaton} {size : Nat} {start : Cursor} {root : Tree} {s : Session}

/-- A session that finds a tree in a number of steps. -/
inductive Finds (a : Automaton) (size : Nat) (start : Cursor) (root : Tree) : Nat → Session → Prop
  | last {s s' : Session} {parts : List Part} {layout : Layout} :
    Reads a size start parts layout s → (advance a size 0).run s = ((), s') → Ended s' root →
    Finds a size start root 1 s
  | step {n : Nat} {s s' : Session} {parts : List Part} {layout : Layout} :
    Reads a size start parts layout s → (advance a size 0).run s = ((), s') →
    Finds a size start root n s' → Finds a size start root (n + 1) s

theorem Leads.finds {m n : Nat} {s s' : Session} (leads : Leads a size start m s s')
    (finds : Finds a size start root n s') : Finds a size start root (m + n) s := by
  induction leads with
  | refl => rwa [Nat.zero_add]
  | step reads advances _ ih =>
    rw [Nat.add_right_comm]
    exact .step reads advances (ih finds)

/-- What a session comes to that finds a tree in at most some steps. -/
def ComesTo (a : Automaton) (size : Nat) (start : Cursor) (root : Tree) (n : Nat) (s : Session) : Prop :=
  Ended s root ∨ ∃ k ≤ n, Finds a size start root k s

theorem Finds.reads {n : Nat} (finds : Finds a size start root n s) :
    ∃ parts layout s' , Reads a size start parts layout s ∧ (advance a size 0).run s = ((), s') ∧
      0 < n ∧ ComesTo a size start root (n - 1) s' := by
  cases finds with
  | last reads advances ended => exact ⟨_, _, _, reads, advances, Nat.one_pos, .inl ended⟩
  | step reads advances finds =>
    exact ⟨_, _, _, reads, advances, Nat.succ_pos _, .inr ⟨_, Nat.le_refl _, finds⟩⟩

/-- Nothing more is read once the tree has been found. -/
theorem advancePast_ended (ended : Ended s root) (fuel reached : Nat) :
    (advancePast a size 0 fuel reached).run s = (reached, s) := by
  obtain ⟨⟨v, versions, halted⟩, _⟩ := ended
  cases fuel with
  | zero => rfl
  | succ fuel =>
    have inactive : v.isActive = false := by rw [Version.isActive, halted]
    rw [advancePast, run_bind (run_version versions)]
    simp only [inactive]
    rfl

/-- After a step the place has been passed, or reading goes on. -/
theorem Reads.run_advancePast {parts : List Part} {layout : Layout} {s' : Session}
    (reads : Reads a size start parts layout s) (advances : (advance a size 0).run s = ((), s'))
    (fuel reached : Nat) :
    (∃ here, (advancePast a size 0 (fuel + 1) reached).run s = (here, s')) ∨
      (advancePast a size 0 (fuel + 1) reached).run s =
        (advancePast a size 0 fuel reached).run s' := by
  obtain ⟨⟨v, versions, active, _⟩, _, _⟩ := reads
  have isActive : v.isActive = true := by rw [Version.isActive, active]
  have next : (version? 0).run s' = (s'.versions[0]?, s') := rfl
  rw [advancePast, run_bind (run_version versions)]
  simp only [isActive, if_true]
  rw [run_bind advances, run_bind next]
  split
  · exact .inl ⟨_, rfl⟩
  · exact .inr rfl

/-- Reading past a place takes one step or more. -/
theorem advancePast_finds {n : Nat} (finds : Finds a size start root n s) (fuel reached : Nat) :
    ∃ reached' s', (advancePast a size 0 (fuel + 1) reached).run s = (reached', s') ∧
      ComesTo a size start root (n - 1) s' := by
  -- a token may be empty, so one step need not pass the place; the steps that are left do
  induction fuel generalizing n s reached with
  | zero =>
    obtain ⟨parts, layout, s₁, reads, advances, _, comes⟩ := finds.reads
    rcases reads.run_advancePast advances 0 reached with ⟨here, runs⟩ | runs
    · exact ⟨here, s₁, runs, comes⟩
    · exact ⟨reached, s₁, runs, comes⟩
  | succ fuel ih =>
    obtain ⟨parts, layout, s₁, reads, advances, _, comes⟩ := finds.reads
    rcases reads.run_advancePast advances (fuel + 1) reached with ⟨here, runs⟩ | runs
    · exact ⟨here, s₁, runs, comes⟩
    · rw [runs]
      rcases comes with ended | ⟨k, few, finds⟩
      · exact ⟨reached, s₁, advancePast_ended ended _ _, .inl ended⟩
      · obtain ⟨reached', s', runs, comes⟩ := ih finds reached
        refine ⟨reached', s', runs, comes.imp id ?_⟩
        rintro ⟨j, fewer, finds⟩
        exact ⟨j, by omega, finds⟩

theorem ComesTo.versions_size {n : Nat} (comes : ComesTo a size start root n s) :
    s.versions.size = 1 := by
  rcases comes with ⟨⟨v, versions, _⟩, _⟩ | ⟨k, _, finds⟩
  · rw [versions]
    rfl
  · obtain ⟨_, _, _, reads, _⟩ := finds.reads
    obtain ⟨⟨v, versions, _⟩, _, _⟩ := reads
    rw [versions]
    rfl

theorem advanceAll_finds {n : Nat} (finds : Finds a size start root n s) (limit fuel reached : Nat) :
    ∃ reached' s', (advanceAll a size (limit + 1) (fuel + 2) 0 reached).run s = (reached', s') ∧
      ComesTo a size start root (n - 1) s' := by
  obtain ⟨reached', s', runs, comes⟩ := advancePast_finds finds limit reached
  obtain ⟨_, _, _, reads, _⟩ := finds.reads
  obtain ⟨⟨v, versions, _⟩, _, _⟩ := reads
  have count : versionCount.run s = (1, s) := by
    simp [versionCount, versions]
    rfl
  have count' : versionCount.run s' = (1, s') := by
    rw [← comes.versions_size]
    rfl
  refine ⟨reached', s', ?_, comes⟩
  rw [advanceAll, run_bind count]
  simp only [Nat.one_pos, if_true]
  rw [run_bind runs, advanceAll, run_bind count']
  rfl

/-- A single version that reads on is kept as it is. -/
theorem condense_reads {parts : List Part} {layout : Layout}
    (reads : Reads a size start parts layout s) :
    ((condense a).run s).2 = s := by
  obtain ⟨⟨v, versions, active, weight, _⟩, _, _⟩ := reads
  obtain ⟨_, _, _, _⟩ := s
  obtain rfl : _ = #[v] := versions
  have settled : v.settle = v := by
    simp only [Version.settle, weight, Nat.zero_min]
    rw [← weight]
  have notHalted : v.isHalted = false := by simp [Version.isHalted, active]
  have notPaused : v.isPaused = false := by simp [Version.isPaused, active]
  simp [condense, settled, notHalted, notPaused, Version.place, active, StateT.run, bind, StateT.bind,
    StateT.get, get, getThe, MonadStateOf.get, pure, pure_apply, modify, modifyGet,
    MonadStateOf.modifyGet, StateT.modifyGet, versionLimit]

/-- Without versions that read on nothing is left to compare the tree with. -/
theorem condense_ended (ended : Ended s root) :
    (condense a).run s = (none, { s with versions := #[] }) := by
  obtain ⟨⟨v, versions, halted⟩, _⟩ := ended
  have isHalted : v.isHalted = true := by simp [Version.isHalted, halted]
  simp [condense, versions, isHalted, StateT.run, bind, StateT.bind, StateT.get, get, getThe,
    MonadStateOf.get, pure, pure_apply, modify, modifyGet, MonadStateOf.modifyGet, StateT.modifyGet]

/-- Rounds of reading find the tree. -/
theorem rounds_finds {n : Nat} (finds : Finds a size start root n s) (limit fuel reached : Nat)
    (enough : n ≤ fuel) :
    ((rounds a size (limit + 1) fuel reached).run s).2.finished = some root := by
  -- every round takes a step or more, so there are rounds enough for the steps that are left
  induction fuel generalizing n s reached with
  | zero =>
    obtain ⟨_, _, _, _, _, some, _⟩ := finds.reads
    omega
  | succ fuel ih =>
    obtain ⟨reached', s', all, comes⟩ := advanceAll_finds finds limit 999998 reached
    have steps : stepLimit = 999998 + 2 := rfl
    rw [← steps] at all
    rw [rounds, run_bind all]
    rcases comes with ended | ⟨k, fewer, finds⟩
    · rw [run_bind (condense_ended ended)]
      have gets : (get : Reading Session).run { s' with versions := #[] } =
          ({ s' with versions := #[] }, { s' with versions := #[] }) := rfl
      rw [run_bind gets]
      simp only [ended.finished]
      rfl
    · obtain ⟨_, _, _, reads, _⟩ := finds.reads
      have kept : (condense a).run s' = (((condense a).run s').1, s') :=
        Prod.ext rfl (condense_reads reads)
      have gets : (get : Reading Session).run s' = (s', s') := rfl
      obtain ⟨⟨v, versions, _⟩, unfinished, _⟩ := reads
      have more : (s'.versions.isEmpty) = false := by rw [versions]; rfl
      rw [run_bind kept, run_bind gets]
      simp only [unfinished, more]
      exact ih finds reached' (by omega)

/-- The tree of a source is the one that its session finds. -/
theorem treeOf_finds {source : List Char} {n : Nat}
    (finds : Finds a (source.length + 2) (.ofText source) root n
      { versions := #[{ stack := Stack.bottom a.startState (.ofText source) }] })
    (few : n ≤ 8 * (source.length + 2) + 1000) : treeOf a source = root := by
  have found := rounds_finds finds (8 * (source.length + 2) + 999) _ 0 few
  rw [treeOf]
  generalize (rounds a (source.length + 2) (8 * (source.length + 2) + 1000) _ 0).run _ = result at found
  obtain ⟨_, s⟩ := result
  exact congrArg (Option.getD · _) found

end Rounds

end ModelAtlas.Source
