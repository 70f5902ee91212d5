import ModelAtlas.Proofs.Source.Parse.Rounds
import ModelAtlas.Proofs.Source.Plain.Tokens

/-!
# Passages

A phrase that the grammar reads in one way is a passage of every session that comes to it: where its
terminals stand in the source, the session takes one step for each and reaches the parts that the
pieces of the phrase stand for (`covers_phrase`).
-/

namespace ModelAtlas.Source

open Grammar Parse Session

/-! ### Chains of tokens -/

/-- Tokens that stand one behind the other, and the layout behind them. -/
inductive Chain : Layout → Cursor → List Token → Layout → Cursor → Prop
  | nil {layout : Layout} {c : Cursor} : Chain layout c [] layout c
  | cons {before between after : Layout} {c stop : Cursor} {token : Token} {tokens : List Token} :
    Spelled before c token between → Chain between token.stop tokens after stop →
    Chain before c (token :: tokens) after stop

section Steps

variable {a : Automaton} {size : Nat} {start : Cursor} {parts : List Part} {before after : Layout}
variable {base : Grammar.State} {slots : Nat → Part} {s : Session}

theorem actions_ne_nil_of_feed {terminal : Terminal} {slot fuel : Nat} {r r' : Reached}
    (feeds : feed a.tables base terminal slot fuel r = some r') :
    topOf base r ≠ Automaton.errorState ∧ a.actions (topOf base r) terminal.number ≠ [] := by
  cases fuel with
  | zero => cases feeds
  | succ fuel =>
    rw [feed] at feeds
    split at feeds
    case isTrue => cases feeds
    case isFalse some =>
      have proper : topOf base r ≠ Automaton.errorState := fun none => some (by rw [none]; rfl)
      refine ⟨proper, ?_⟩
      rw [a.actions_eq proper (Productions.number_lt_symbolCount terminal)]
      intro none
      rw [none] at feeds
      cases feeds

/-- What has been read last stands on top. -/
theorem head_of_feed {t : Tables} {terminal : Terminal} {slot fuel : Nat} {r r' : Reached}
    (feeds : feed t base terminal slot fuel r = some r') :
    ∃ state rest, r' = (state, .ofSlot terminal.number slot) :: rest := by
  induction fuel generalizing r with
  | zero => cases feeds
  | succ fuel ih =>
    rw [feed] at feeds
    split at feeds
    case isTrue => cases feeds
    case isFalse =>
      split at feeds
      case h_1 state _ =>
        rw [force_eq] at feeds
        exact ⟨state, r, (Option.some.inj feeds).symm⟩
      case h_2 =>
        split at feeds
        case h_1 => cases feeds
        case h_2 =>
          split at feeds
          case isTrue => exact ih feeds
          case isFalse => cases feeds
      case h_3 => cases feeds

/-- A step of a session reads the token that is spelled behind what has been read. -/
theorem reads_token {token : Token} {slot : Nat} {r r' : Reached}
    (isSeen : seen a.tables (topOf base r) token.terminal)
    (feeds : feed a.tables base token.terminal slot feedLimit r = some r')
    (isBase : reachedState a parts = base) (coherent : Coherent a.tables base r)
    (isSlot : slots slot = .ofToken a.grammar token)
    (reads : Reads a size start (Part.ofReached a.grammar slots r ++ parts) before s)
    (spelled : Spelled before (hereBehind start (Part.ofReached a.grammar slots r ++ parts)) token
      after) :
    Coherent a.tables base r' ∧
    ∃ s', Reads a size start (Part.ofReached a.grammar slots r' ++ parts) after s' ∧
      (advance a size 0).run s = ((), s') := by
  have state : reachedState a (Part.ofReached a.grammar slots r ++ parts) = topOf base r :=
    stateBehind_ofReached slots isBase coherent
  obtain ⟨proper, canRead⟩ := actions_ne_nil_of_feed feeds
  have sees := sees_of_spelled spelled proper isSeen canRead reads.room
  have within : token.stop.rest.length + 2 ≤ size :=
    Nat.le_trans (Nat.add_le_add_right spelled.length_le 2) reads.room
  have steps : feedLimit + (stepLimit - feedLimit) = stepLimit := by decide
  rw [reads.run_advance, state, ← steps]
  exact reads_feed feeds isBase coherent isSlot reads sees within _

/-- Reading tokens among pieces is reading them among the parts that they stand for. -/
theorem reads_feedAll {tokens : List Token} {slot : Nat} {r r' : Reached} {stop : Cursor}
    (feeds : feedAll a.tables base slot r (tokens.map (·.terminal)) = some r')
    (isBase : reachedState a parts = base) (coherent : Coherent a.tables base r)
    (areSlots : ∀ i (inside : i < tokens.length), slots (slot + i) = .ofToken a.grammar tokens[i])
    (reads : Reads a size start (Part.ofReached a.grammar slots r ++ parts) before s)
    (chain : Chain before (hereBehind start (Part.ofReached a.grammar slots r ++ parts)) tokens after
      stop) :
    ∃ s', Reads a size start (Part.ofReached a.grammar slots r' ++ parts) after s' ∧
      Leads a size start tokens.length s s' := by
  -- on the tokens, each of which goes into the next slot
  induction tokens generalizing slot r before s with
  | nil =>
    cases chain
    obtain rfl := Option.some.inj feeds
    exact ⟨s, reads, .refl s⟩
  | cons token tokens ih =>
    cases chain with
    | cons spelled chain =>
    rw [List.map_cons, feedAll] at feeds
    split at feeds
    case isFalse => cases feeds
    case isTrue isSeen =>
      split at feeds
      case h_2 => cases feeds
      case h_1 top isTop =>
        obtain ⟨coherent, s₁, readsTop, advances⟩ := reads_token isSeen isTop isBase coherent
          (areSlots 0 (Nat.succ_pos _)) reads spelled
        have here : hereBehind start (Part.ofReached a.grammar slots top ++ parts) = token.stop := by
          obtain ⟨state, rest, rfl⟩ := head_of_feed isTop
          have isSlot : slots slot = .ofToken a.grammar token := areSlots 0 (Nat.succ_pos _)
          show (Part.ofPiece a.grammar slots (.ofSlot token.terminal.number slot)).stop = _
          rw [ofPiece_ofSlot _ _ (by rw [isSlot]; rfl), isSlot]
          rfl
        rw [← here] at chain
        obtain ⟨s', readsAll, leads⟩ := ih feeds coherent (fun i inside => by
          rw [Nat.add_assoc, Nat.add_comm 1]
          exact areSlots (i + 1) (Nat.succ_lt_succ inside)) readsTop chain
        exact ⟨s', readsAll, .step reads advances leads⟩

end Steps

/-! ### Passages -/

section Passages

variable {a : Automaton} {start : Cursor} {before between after : Layout}
variable {parts parts' parts'' : List Part}

/-- From some parts every session comes to others in at most so many steps. -/
def Covers (a : Automaton) (start : Cursor) (n : Nat) (parts : List Part) (before : Layout)
    (parts' : List Part) (after : Layout) : Prop :=
  ∀ size s, Reads a size start parts before s →
    ∃ k ≤ n, ∃ s', Reads a size start parts' after s' ∧ Leads a size start k s s'

namespace Covers

theorem refl (parts : List Part) (layout : Layout) : Covers a start 0 parts layout parts layout :=
  fun _ s reads => ⟨0, Nat.le_refl 0, s, reads, .refl s⟩

theorem trans {m n : Nat} (first : Covers a start m parts before parts' between)
    (second : Covers a start n parts' between parts'' after) :
    Covers a start (m + n) parts before parts'' after := by
  intro size s reads
  obtain ⟨j, few, s', reads, leads⟩ := first size s reads
  obtain ⟨k, fewer, s'', reads, more⟩ := second size s' reads
  exact ⟨j + k, Nat.add_le_add few fewer, s'', reads, leads.trans more⟩

theorem mono {m n : Nat} (covers : Covers a start m parts before parts' after) (le : m ≤ n) :
    Covers a start n parts before parts' after := by
  intro size s reads
  obtain ⟨k, few, found⟩ := covers size s reads
  exact ⟨k, Nat.le_trans few le, found⟩

end Covers

/-! ### States -/

theorem stateAfter_append (t : Tables) (base : Grammar.State) (first second : List Nat) :
    stateAfter t base (first ++ second) = stateAfter t (stateAfter t base first) second := by
  induction first generalizing base with
  | nil => rfl
  | cons symbol first ih => simp only [List.cons_append, stateAfter, force_eq, ih]

/-- The state behind some parts is that behind their symbols. -/
theorem reachedState_append (top parts : List Part) :
    reachedState a (top ++ parts) =
      stateAfter a.tables (reachedState a parts) (top.reverse.map (·.symbol)) := by
  induction top with
  | nil => rfl
  | cons part top ih =>
    rw [List.reverse_cons, List.map_append, stateAfter_append, ← ih]
    simp only [List.map_cons, List.map_nil, stateAfter, force_eq]
    rfl

/-! ### Phrases -/

/-- The slots of a phrase: what is on the stack, and the tokens. -/
def slotsOf (g : Productions) (stacked : List Part) (tokens : List Token) (i : Nat) : Part :=
  ((stacked ++ tokens.map (.ofToken g))[i]?).getD default

theorem slotsOf_token (g : Productions) (stacked : List Part) {tokens : List Token} {i : Nat}
    {token : Token} (found : tokens[i]? = some token) :
    slotsOf g stacked tokens (stacked.length + i) = .ofToken g token := by
  rw [slotsOf, List.getElem?_append_right (Nat.le_add_right _ _), Nat.add_sub_cancel_left,
    List.getElem?_map, found]
  rfl

theorem slotsOf_stacked {g : Productions} {stacked : List Part} {tokens : List Token} {i : Nat}
    {part : Part} (found : stacked[i]? = some part) : slotsOf g stacked tokens i = part := by
  rw [slotsOf, List.getElem?_append_left (List.getElem?_eq_some_iff.mp found).1, found]
  rfl

/-- The first slots are those of the stack. -/
theorem map_slotsOf_range (g : Productions) (stacked : List Part) (tokens : List Token) :
    (List.range stacked.length).map (slotsOf g stacked tokens) = stacked := by
  refine List.ext_getElem (by simp) fun i _ inside => ?_
  simp [slotsOf_stacked (List.getElem?_eq_getElem inside)]

/-- Symbols that are put on a state stand for the parts in their slots. -/
theorem ofReached_putAll {base : Grammar.State} {slots : Nat → Part} {stacked : List Part}
    {slot : Nat} {r : Reached} (coherent : Coherent a.tables base r)
    (areSlots : ∀ i (inside : i < stacked.length), slots (slot + i) = stacked[i]) :
    Coherent a.tables base (putAll a.tables base slot r (stacked.map (·.symbol))) ∧
    Part.ofReached a.grammar slots (putAll a.tables base slot r (stacked.map (·.symbol))) =
      stacked.reverse ++ Part.ofReached a.grammar slots r := by
  induction stacked generalizing slot r with
  | nil => exact ⟨coherent, rfl⟩
  | cons part stacked ih =>
    have isSlot : slots slot = part := areSlots 0 (Nat.succ_pos _)
    rw [List.map_cons, putAll, force_eq]
    obtain ⟨coherent, reached⟩ := @ih (slot + 1)
      ((a.tables.goto (topOf base r) part.symbol, .ofSlot part.symbol slot) :: r)
      ⟨rfl, coherent⟩ fun i inside => by
        rw [Nat.add_assoc, Nat.add_comm 1]
        exact areSlots (i + 1) (Nat.succ_lt_succ inside)
    refine ⟨coherent, reached.trans ?_⟩
    rw [List.reverse_cons, List.append_assoc]
    congr 1
    show Part.ofPiece a.grammar slots (.ofSlot part.symbol slot) :: _ = _
    rw [ofPiece_ofSlot _ _ (by rw [isSlot]), isSlot]
    rfl

/-- What is on the stack of a phrase stands for the parts that are there. -/
theorem reached_stack (a : Automaton) (base : Grammar.State) (stacked : List Part)
    (tokens : List Token) :
    Coherent a.tables base (putAll a.tables base 0 [] (stacked.map (·.symbol))) ∧
    Part.ofReached a.grammar (slotsOf a.grammar stacked tokens)
      (putAll a.tables base 0 [] (stacked.map (·.symbol))) = stacked.reverse := by
  obtain ⟨coherent, reached⟩ := @ofReached_putAll a base (slotsOf a.grammar stacked tokens) stacked
    0 [] trivial fun i inside => by
      rw [Nat.zero_add]
      exact slotsOf_stacked (List.getElem?_eq_getElem inside)
  exact ⟨coherent, reached.trans (List.append_nil _)⟩

/-- Where the terminals of a phrase stand, a session reads the phrase. -/
theorem covers_phrase {p : Phrase} (holds : p.outcome a.tables = some p.result)
    {stacked under : List Part} {tokens : List Token} {stop : Cursor}
    (isBase : reachedState a under = stateAfter a.tables a.startState p.base)
    (isStack : stacked.map (·.symbol) = p.stack) (areTokens : tokens.map (·.terminal) = p.terminals)
    (chain : Chain before (hereBehind start (stacked.reverse ++ under)) tokens after stop) :
    Covers a start tokens.length (stacked.reverse ++ under) before
      ((p.result.map (.ofPiece a.grammar (slotsOf a.grammar stacked tokens))).reverse ++ under)
      after := by
  intro size s reads
  rw [Phrase.outcome, force_eq] at holds
  obtain ⟨r, feeds, result⟩ := Option.map_eq_some_iff.mp holds
  obtain ⟨coherent, stack⟩ :=
    reached_stack a (stateAfter a.tables a.startState p.base) stacked tokens
  rw [isStack] at coherent stack
  rw [← areTokens] at feeds
  rw [← stack] at reads chain
  obtain ⟨s', reads, leads⟩ := reads_feedAll feeds isBase coherent (fun i inside => by
    rw [← isStack, List.length_map]
    exact slotsOf_token a.grammar stacked (List.getElem?_eq_getElem inside)) reads chain
  refine ⟨tokens.length, Nat.le_refl _, s', ?_, leads⟩
  have same : Part.ofReached a.grammar (slotsOf a.grammar stacked tokens) r =
      (p.result.map (.ofPiece a.grammar (slotsOf a.grammar stacked tokens))).reverse := by
    rw [← result, ← List.map_reverse, List.reverse_reverse, List.map_map]
    rfl
  rw [← same]
  exact reads

end Passages

end ModelAtlas.Source
