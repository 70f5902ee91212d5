import ModelAtlas.Source.Grammar.Automaton
import ModelAtlas.Source.Grammar.Expressions

/-!
# States

An automaton remembers what it has found out, but what it does in a state follows from the tables of
its grammar alone: `Tables.goto`, `Tables.actionsIn` and `Tables.expectedIn` say it without memory.
-/

namespace ModelAtlas.Source.Grammar

/-! ### Production table -/

namespace Productions

variable {g : Productions} {w : Way} {p : Production}

theorem symbol_lt_of_production? (found : g.production? w = some p) : w.symbol < g.symbolCount := by
  unfold production? at found
  obtain ⟨row, isRow, _⟩ := Option.bind_eq_some_iff.mp found
  obtain ⟨inside, _⟩ := Array.getElem?_eq_some_iff.mp isRow
  exact Nat.add_lt_add_left inside _

theorem number_lt_symbolCount (terminal : Terminal) : terminal.number < g.symbolCount :=
  Nat.lt_of_lt_of_le (by cases terminal <;> exact Nat.le_of_ble_eq_true rfl) (Nat.le_add_right ..)

end Productions

/-- The grammar of source files defines every rule once, in the order of the numbers. -/
theorem number_definitions :
    sourceRules.definitions.map (·.name.number) = List.range' Terminal.count RuleName.count := by
  decide +kernel

namespace Tables

variable (t : Tables) (state : State)

/-- The state behind a symbol. -/
def goto (symbol : Nat) : State := t.target (t.moves state) (t.after (t.wanted state)) symbol

/-- The items of a state that are read to the end. -/
def completeIn : List Item := t.complete state (t.after (t.wanted state))

/-- What to do in a state on a terminal. -/
def actionsIn (terminal : Nat) : List Automaton.Action :=
  Automaton.choose t state (t.completeIn state) terminal (t.goto state terminal)

/-- The terminals that can be read in a state. -/
def expectedIn : Nat := t.expected (t.moves state) (t.completeIn state)

theorem entry_eq : t.entry state = {
    complete := t.completeIn state
    targets := Array.ofFn fun symbol : Fin t.grammar.symbolCount => t.goto state symbol
    expected := t.expectedIn state } := by
  simp only [entry, Memo.get_eq]
  rfl

theorem getD_targets_entry {symbol : Nat} (known : symbol < t.grammar.symbolCount) :
    (t.entry state).targets.getD symbol Automaton.errorState = t.goto state symbol := by
  rw [entry_eq, Array.getD_eq_getD_getElem?, Array.getElem?_ofFn, dif_pos known,
    Option.getD_some]

end Tables

def isRepeating : Automaton.Action → Bool
  | .repeating _ => true
  | _ => false

namespace Automaton

variable (a : Automaton) {state : State} {symbol : Nat}

theorem actions_eq (proper : state ≠ errorState) (known : symbol < a.grammar.symbolCount) :
    a.actions state symbol = a.tables.actionsIn state symbol := by
  rw [actions, if_neg proper]
  dsimp only
  rw [entry_eq, Tables.getD_targets_entry _ _ known, Tables.entry_eq]
  rfl

theorem afterNonterminal_eq (known : symbol < a.grammar.symbolCount) :
    a.afterNonterminal state symbol = a.tables.goto state symbol := by
  rw [afterNonterminal, entry_eq, Tables.getD_targets_entry _ _ known]

theorem expected_eq (state : State) : a.expected state = a.tables.expectedIn state := by
  rw [expected, entry_eq, Tables.entry_eq]

/-- Reading on leads to one state only. -/
theorem eq_of_shift_mem_resolve {t : Tables} {state target s : State} {complete : List Item}
    {terminal : Nat} {c : Contest} (read : .shift s ∈ resolve t state complete terminal target c) :
    s = target := by
  have reducing : .shift s ∉ c.reductions.map Action.reduce := by simp
  have onward : .shift s ∈ [Action.shift target] → s = target := by simp
  have contested : .shift s ∈ c.reductions.map Action.reduce ++ [.shift target] → s = target := by
    simp
  have repeated : .shift s ∉ c.reductions.map Action.reduce ++ [Action.repeating target] := by simp
  dsimp only [resolve] at read
  -- the tests play no part: every branch is one of the four lists above
  split at read
  · exact absurd read repeated
  · split at read
    · exact onward read
    · split at read
      · exact absurd read reducing
      · split at read
        · exact absurd read reducing
        · split at read
          · exact onward read
          · exact contested read

theorem eq_of_shift_mem_choose {t : Tables} {state target s : State} {complete : List Item}
    {terminal : Nat} (read : .shift s ∈ choose t state complete terminal target) : s = target := by
  dsimp only [choose] at read
  repeat' split at read
  case isFalse.isFalse.isFalse => exact eq_of_shift_mem_resolve read
  all_goals simp_all

end Automaton

end ModelAtlas.Source.Grammar
