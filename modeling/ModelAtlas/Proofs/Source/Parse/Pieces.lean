import ModelAtlas.Proofs.Source.Grammar.Phrases
import ModelAtlas.Proofs.Source.Parse.Sessions

/-!
# Pieces of a source

A session does to parts what `feed` does to pieces. So a run of terminals that has been worked out
among pieces is known for every source in which these terminals stand, whatever the slots hold.
-/

namespace ModelAtlas.Source

open Grammar Parse Session

/-! ### What pieces stand for -/

section Pieces

/-- The nodes of a forest, given the parts in its slots. -/
def forestNodes (g : Productions) (slots : Nat → Part) : Forest → List Node
  | .nil => []
  | .slot i field rest =>
    (slots i).nodes.map (.under (field.map (·.text))) ++ forestNodes g slots rest
  | .node symbol field first last below rest =>
    .mk (g.kindOf symbol) (Productions.isNamed symbol) (field.map (·.text)) (slots first).start
      (slots last).stop.mark (forestNodes g slots below) :: forestNodes g slots rest

namespace Part

/-- What a piece stands for. -/
def ofPiece (g : Productions) (slots : Nat → Part) (p : Piece) : Part where
  symbol := p.symbol
  nodes := forestNodes g slots p.forest
  start := (slots p.first).start
  stop := (slots p.last).stop

/-- What some pieces stand for. -/
def ofReached (g : Productions) (slots : Nat → Part) (r : Reached) : List Part :=
  r.map fun (_, p) => ofPiece g slots p

end Part

variable (g : Productions) (slots : Nat → Part)

theorem ofPiece_ofSlot {symbol i : Nat} (same : (slots i).symbol = symbol) :
    Part.ofPiece g slots (.ofSlot symbol i) = slots i := by
  subst same
  have kept : (slots i).nodes.map (.under none) = (slots i).nodes := by
    rw [show Node.under none = id from funext Node.under_none, List.map_id]
  simp [Part.ofPiece, Piece.ofSlot, forestNodes, kept]

theorem forestNodes_under (f : Option Field) (forest : Forest) :
    forestNodes g slots (forest.under f) =
      (forestNodes g slots forest).map (.under (f.map (·.text))) := by
  induction forest with
  | nil => rfl
  | slot i own rest ih =>
    simp only [Forest.under, forestNodes, ih, List.map_append, List.map_map]
    congr 2
    funext n
    simp only [Function.comp, Node.under_under]
    cases own <;> cases f <;> rfl
  | node symbol own first last below rest _ ih =>
    simp only [Forest.under, forestNodes, ih, List.map_cons, Node.under]
    cases own <;> cases f <;> rfl

theorem forestNodes_append (a b : Forest) :
    forestNodes g slots (a.append b) = forestNodes g slots a ++ forestNodes g slots b := by
  induction a with
  | nil => rfl
  | slot i own rest ih => simp only [Forest.append, forestNodes, ih, List.append_assoc]
  | node symbol own first last below rest _ ih =>
    simp only [Forest.append, forestNodes, ih, List.cons_append]

theorem forestNodes_below {steps : List Step} {pieces : List Piece} {forest : Forest}
    (below : Piece.below steps pieces = some forest) :
    (∀ s ∈ steps, s.guise = none) ∧ steps.length = pieces.length ∧
      forestNodes g slots forest = Part.nodesBeside steps (pieces.map (.ofPiece g slots)) := by
  induction steps generalizing pieces forest with
  | nil =>
    cases pieces with
    | nil =>
      obtain rfl := Option.some.inj below
      exact ⟨List.forall_mem_nil _, rfl, rfl⟩
    | cons p pieces => cases below
  | cons s steps ih =>
    cases pieces with
    | nil => cases below
    | cons p pieces =>
      rw [Piece.below] at below
      split at below
      case h_1 rest plain others =>
        obtain rfl := Option.some.inj below
        obtain ⟨all, same, nodes⟩ := ih others
        refine ⟨List.forall_mem_cons.mpr ⟨plain, all⟩, congrArg Nat.succ same, ?_⟩
        rw [forestNodes_append, forestNodes_under, nodes]
        rfl
      case h_2 => cases below

theorem ofPiece_reduce {w : Way} {p : Production} {pieces : List Piece} {piece : Piece}
    (reduces : Piece.reduce g w p pieces = some piece) (c : Cursor) :
    (∀ s ∈ p.steps, s.guise = none) ∧ p.steps.length = pieces.length ∧
      Part.ofPiece g slots piece = .spanning g w p.steps c (pieces.map (.ofPiece g slots)) := by
  rw [Piece.reduce] at reduces
  split at reduces
  case h_1 first last forest isFirst isLast below =>
    obtain rfl := Option.some.inj reduces
    obtain ⟨plain, same, nodes⟩ := forestNodes_below g slots below
    refine ⟨plain, same, ?_⟩
    simp only [Part.spanning, List.head?_map, isFirst, List.getLast?_map, isLast, ← nodes]
    by_cases shown : g.isShown w.symbol = true <;> simp [Part.ofPiece, forestNodes, shown]
  case h_2 => cases reduces

/-- Every state is the one that its piece leads to. -/
def Coherent (t : Tables) (base : State) : Reached → Prop
  | [] => True
  | (s, p) :: rest => s = t.goto (topOf base rest) p.symbol ∧ Coherent t base rest

theorem Coherent.drop {t : Tables} {base : State} {r : Reached} (coherent : Coherent t base r)
    (n : Nat) : Coherent t base (r.drop n) := by
  induction n generalizing r with
  | zero => exact coherent
  | succ n ih =>
    cases r with
    | nil => trivial
    | cons _ r => exact ih coherent.2

theorem stateBehind_ofReached {t : Tables} {start base : State} {parts : List Part}
    (isBase : stateBehind t start parts = base) {r : Reached} (coherent : Coherent t base r) :
    stateBehind t start (Part.ofReached t.grammar slots r ++ parts) = topOf base r := by
  induction r with
  | nil => exact isBase
  | cons entry r ih =>
    obtain ⟨s, p⟩ := entry
    have below := ih coherent.2
    rw [topOf, coherent.1, ← below]
    rfl

variable {a : Automaton} {size : Nat} {start : Cursor} {before after : Layout}
variable {parts : List Part} {base : State} {slots}

/-- A reduction of pieces is one of the parts that they stand for. -/
theorem reads_reduceTop {r r' : Reached} {w : Way}
    (reduces : reduceTop a.tables base w r = some r')
    (isBase : reachedState a parts = base) (coherent : Coherent a.tables base r) {s : Session}
    (reads : Reads a size start (Part.ofReached a.grammar slots r ++ parts) before s)
    {look : Lookahead} {terminal : Nat} (label : look.label = .symbol terminal)
    {rest : List Automaton.Action}
    (actions : a.actions (topOf base r) terminal = .reduce w :: rest)
    (only : rest.all isRepeating) (fuel : Nat) :
    Coherent a.tables base r' ∧
    ∃ s', Reads a size start (Part.ofReached a.grammar slots r' ++ parts) before s' ∧
      (readOn a 0 (fuel + 1) look).run s = (readOn a 0 fuel look).run s' := by
  rw [reduceTop] at reduces
  split at reduces
  case h_1 => cases reduces
  case h_2 p found =>
    dsimp only at reduces
    split at reduces
    case isFalse => cases reduces
    case isTrue few =>
      split at reduces
      case h_1 => cases reduces
      case h_2 piece isPiece =>
        rw [force_eq] at reduces
        obtain rfl := Option.some.inj reduces
        generalize isPieces : ((r.take p.steps.length).map (·.2)).reverse = pieces at isPiece
        let children := pieces.map (Part.ofPiece a.grammar slots)
        let below := Part.ofReached a.grammar slots (r.drop p.steps.length) ++ parts
        obtain ⟨plain, same, spans⟩ :=
          ofPiece_reduce a.grammar slots isPiece (hereBehind start below)
        have symbol : piece.symbol = w.symbol := congrArg Part.symbol spans
        -- the parts that are reduced, and what stands below them
        have split : Part.ofReached a.grammar slots r ++ parts =
            children.reverse ++ below := by
          have top : children.reverse =
              Part.ofReached a.grammar slots (r.take p.steps.length) := by
            simp only [children, ← isPieces, ← List.map_reverse, List.reverse_reverse, List.map_map]
            rfl
          rw [top, ← List.append_assoc]
          simp only [Part.ofReached, ← List.map_append, List.take_append_drop]
        have state : reachedState a (children.reverse ++ below) = topOf base r := by
          rw [← split]
          exact stateBehind_ofReached slots isBase coherent
        rw [split] at reads
        rw [← state] at actions
        obtain ⟨s', reads, runs⟩ := reads.reduce found plain (by rw [same, List.length_map])
          (Nat.lt_of_lt_of_le few (by decide)) label actions only fuel
        refine ⟨⟨by rw [symbol], coherent.drop _⟩, s', ?_, runs⟩
        rw [← spans] at reads
        exact reads

/-- Reading a terminal among pieces is reading it among the parts that they stand for. -/
theorem reads_feed {token : Token} {slot fuel : Nat} {r r' : Reached}
    (feeds : feed a.tables base token.terminal slot fuel r = some r')
    (isBase : reachedState a parts = base) (coherent : Coherent a.tables base r)
    (isSlot : slots slot = .ofToken a.grammar token) {s : Session}
    (reads : Reads a size start (Part.ofReached a.grammar slots r ++ parts) before s)
    {look : Lookahead} (sees : Sees look token before after)
    (within : token.stop.rest.length + 2 ≤ size)
    (more : Nat) :
    Coherent a.tables base r' ∧
    ∃ s', Reads a size start (Part.ofReached a.grammar slots r' ++ parts) after s' ∧
      (readOn a 0 (fuel + more) look).run s = ((), s') := by
  -- on the reductions in front of the terminal; the last step reads it
  induction fuel generalizing r s with
  | zero => cases feeds
  | succ fuel ih =>
    have state : reachedState a (Part.ofReached a.grammar slots r ++ parts) = topOf base r :=
      stateBehind_ofReached slots isBase coherent
    rw [feed] at feeds
    split at feeds
    case isTrue => cases feeds
    case isFalse proper =>
      have known := Productions.number_lt_symbolCount token.terminal (g := a.grammar)
      have proper : topOf base r ≠ Automaton.errorState := fun none => proper (by rw [none]; rfl)
      have actions := a.actions_eq proper known
      split at feeds
      case h_1 target isShift =>
        rw [force_eq] at feeds
        obtain rfl := Option.some.inj feeds
        have isTarget := Automaton.eq_of_shift_mem_choose (isShift ▸ List.mem_singleton_self _)
        have isPart : Part.ofPiece a.grammar slots
            (.ofSlot token.terminal.number slot) = .ofToken a.grammar token := by
          rw [← isSlot]
          exact ofPiece_ofSlot _ _ (by rw [isSlot]; rfl)
        refine ⟨⟨isTarget, coherent⟩, ?_⟩
        obtain ⟨s', reads, runs⟩ := reads.shift sees (by rw [state, actions, isShift])
          (by rw [state, isTarget]) within (fuel + more)
        rw [Nat.add_right_comm, runs]
        rw [← isPart] at reads
        exact ⟨s', reads, rfl⟩
      case h_2 w rest isReduce =>
        split at feeds
        case h_1 => cases feeds
        case h_2 top reduces =>
          split at feeds
          case isFalse => cases feeds
          case isTrue only =>
            obtain ⟨coherent, s', reads, runs⟩ := reads_reduceTop reduces isBase coherent reads
              sees.label (actions.trans isReduce) only (fuel + more)
            rw [Nat.add_right_comm, runs]
            exact ih feeds coherent reads
      case h_3 => cases feeds

end Pieces

end ModelAtlas.Source
