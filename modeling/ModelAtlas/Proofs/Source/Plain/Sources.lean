import ModelAtlas.Proofs.Source.Plain.Classes
import ModelAtlas.Source.File

/-!
# Reading plain sources

A source that spells plain classes is read as a module that declares these classes and nothing else:
the session comes to the last class, takes the end of the source and accepts (`isModule_treeOf`).
-/

namespace ModelAtlas.Source

open Grammar (Terminal RuleName Automaton Forest)
open Grammar.Plain
open Parse Plain Session

section Sources

variable {a : Automaton} {size : Nat} {start : Cursor} {s : Session} {look : Lookahead}

/-- The tree of a module that declares some classes and nothing else. -/
def IsModule (a : Automaton) (classes : List ClassDecl) (root : Tree) : Prop :=
  (Node.ofTree a.grammar none none root).is "module" ∧
    Declare (Node.ofTree a.grammar none none root).children classes

/-- A part that shows as a module is the tree of one, with the end of the source taken into it. -/
theorem isModule_rootTree (isSource : a.tables = sourceTables) (start : Cursor) {part : Part}
    {tree : Tree} (is : IsPart a.grammar part tree) (shown : a.grammar.isShown part.symbol = true)
    (label : look.label = .symbol Terminal.endOfSource.number) {nodes : List Node} {field : Option String}
    {first : Cursor} {last : Mark}
    (shows : part.nodes = [.mk (a.grammar.kindOf RuleName.source.number) true field first last nodes])
    {classes : List ClassDecl} (declare : Declare nodes classes) :
    IsModule a classes (rootTree a.grammar start tree look) := by
  obtain ⟨same, kind, named, children⟩ := ofTree_rootTree start is shown label
  have node := (List.cons.inj (same.symm.trans shows)).1
  have isModule : ruleKind .source = "module" := by decide
  rw [node] at kind named children
  refine ⟨?_, ?_⟩
  · rw [Node.is, named, kind, Node.kind, kindOf_rule (grammar_eq isSource), isModule]
    rfl
  · rw [children]
    exact declare

/-- Behind the last class a session sees the end of the source. -/
theorem sees_endOfSource {parts : List Part} (reads : Reads a size start parts {} s)
    (ends : (hereBehind start parts).rest = [] ∨ (hereBehind start parts).rest = ['\n'])
    (proper : reachedState a parts ≠ Automaton.errorState)
    (isSeen : Grammar.seen a.tables (reachedState a parts) .endOfSource)
    (canRead : a.actions (reachedState a parts) Terminal.endOfSource.number ≠ []) :
    (Lookahead.look a size (reachedState a parts) true {} (hereBehind start parts)).label =
      .symbol Terminal.endOfSource.number :=
  (sees_of_spelled (.endOfSource rfl rfl ends) proper isSeen canRead reads.room).label

theorem actions_ne_nil_of_close {base : Grammar.State} {fuel : Nat} {r : Grammar.Reached}
    {piece : Grammar.Piece} (closes : Grammar.close a.tables base fuel r = some piece) :
    Grammar.topOf base r ≠ Automaton.errorState ∧
      a.actions (Grammar.topOf base r) Terminal.endOfSource.number ≠ [] := by
  cases fuel with
  | zero => cases closes
  | succ fuel =>
    rw [Grammar.close] at closes
    split at closes
    case isTrue => cases closes
    case isFalse some =>
      have proper : Grammar.topOf base r ≠ Automaton.errorState := fun none => some (by rw [none]; rfl)
      refine ⟨proper, fun none => ?_⟩
      rw [a.actions_eq proper (Grammar.Productions.number_lt_symbolCount .endOfSource)] at none
      rw [none] at closes
      cases closes

/-- A source without classes is a module. -/
theorem finds_empty (isSource : a.tables = sourceTables) (reads : Reads a size start [] {} s)
    (ends : start.rest = []) : ∃ root, IsModule a [] root ∧ Finds a size start root 1 s := by
  have mayBe := plain_phrases.2.2.1
  rw [← isSource, mayBeEmpty, Bool.and_eq_true, Bool.and_eq_true, Bool.not_eq_true',
    List.isEmpty_eq_false_iff] at mayBe
  obtain ⟨⟨proper, isSeen⟩, reduces⟩ := mayBe
  split at reduces
  case h_2 => cases reduces
  case h_1 w isReduce =>
    simp only [Bool.and_eq_true, beq_iff_eq, Option.any_eq_true, Bool.not_eq_true',
      List.isEmpty_eq_false_iff, List.isEmpty_iff] at reduces
    -- a source is made of nothing by one reduction, and then accepted
    obtain ⟨⟨⟨⟨symbol, shown⟩, p, found, noSteps⟩, after⟩, accepts⟩ := reduces
    have known := Grammar.Productions.number_lt_symbolCount .endOfSource (g := a.grammar)
    have actions := (a.actions_eq proper known).trans isReduce
    have label := sees_endOfSource reads (.inl ends) proper isSeen (by
      rw [show reachedState a [] = a.tables.startState from rfl, actions]
      exact List.cons_ne_nil _ _)
    have advances := reads.run_advance
    generalize Lookahead.look a size _ true {} _ = look at label advances
    have steps : stepLimit = stepLimit - 2 + 1 + 1 := by decide
    rw [steps] at advances
    have reads' : Reads a size start (([] : List Part).reverse ++ []) {} s := reads
    obtain ⟨s₁, within, reduced⟩ := reads'.reduce found
      (by rw [noSteps]; exact List.forall_mem_nil _)
      (by rw [noSteps]; rfl) (by rw [noSteps]; decide) label actions rfl (stepLimit - 2 + 1)
    obtain ⟨tree, s', is, ended, runs⟩ :=
      within.accept label ((a.actions_eq after known).trans accepts) (stepLimit - 2)
    have shows : (Part.spanning a.grammar w p.steps start []).nodes =
        [.mk (a.grammar.kindOf RuleName.source.number) true none start start.mark []] := by
      rw [Part.spanning, symbol, if_pos (symbol ▸ shown), isNamed_rule, noSteps]
      rfl
    exact ⟨_, isModule_rootTree isSource start is shown label shows ⟨rfl, rfl⟩,
      .last reads (advances.trans (reduced.trans runs)) ended⟩

/-- A source that ends behind a class is a module. -/
theorem finds_classes (isSource : a.tables = sourceTables) {any : Bool} {classes : List ClassDecl}
    {done : List Part} (areClasses : AreClasses a any classes done)
    (ends : (hereBehind start done.reverse).rest = ['\n'])
    (reads : Reads a size start done.reverse {} s) :
    ∃ root, IsModule a classes root ∧ Finds a size start root 1 s := by
  obtain ⟨symbols, nodes, declare, areNodes⟩ := areClasses
  have closes := plain_phrases.2.1 any
  rw [← isSource, closed] at closes
  obtain ⟨coherent, reached⟩ := reached_stack a a.tables.startState done []
  rw [symbols] at coherent reached
  generalize Grammar.putAll _ _ 0 [] (earlier any ++ wholeClass) = r at closes coherent reached
  have state : reachedState a done.reverse = Grammar.topOf a.startState r := by
    rw [← reached, ← List.append_nil (Part.ofReached _ _ r)]
    exact stateBehind_ofReached (slotsOf a.grammar done []) rfl coherent
  split at closes
  case isFalse => cases closes
  case isTrue isSeen =>
    obtain ⟨proper, canRead⟩ := actions_ne_nil_of_close closes
    have label := sees_endOfSource reads (.inr ends) (by rwa [state]) (by rwa [state]) (by rwa [state])
    have steps : stepLimit = Grammar.feedLimit + (stepLimit - Grammar.feedLimit) := by decide
    have advances := reads.run_advance
    rw [steps] at advances
    generalize Lookahead.look a size _ true {} _ = look at label advances
    have within := reads
    rw [← reached] at within
    obtain ⟨shown, tree, s', is, ended, runs⟩ :=
      reads_close closes coherent within label (stepLimit - Grammar.feedLimit)
    have shows := @forestNodes_ofRule a.grammar (slotsOf a.grammar done []) .source none 0
      (any.toNat + 6) (firstSlots any.toNat ++ [Grammar.Plain.classNode any.toNat])
    rw [← forestNodes_concat, areNodes] at shows
    exact ⟨_, isModule_rootTree isSource start is shown label shows declare,
      .last reads (advances.trans runs) ended⟩

/-- The tree of a plain source is that of a module of its classes. -/
theorem isModule_treeOf (isSource : a.tables = sourceTables) {cs : List Plain.Class}
    (plain : cs.all Class.isPlain) :
    IsModule a (Plain.declare {} cs) (treeOf a (Plain.spell cs)) := by
  let initial : Session :=
    { versions := #[{ stack := Stack.bottom a.startState (.ofText (Plain.spell cs)) }] }
  have reads : Reads a ((Plain.spell cs).length + 2) (.ofText (Plain.spell cs)) [] {} initial :=
    ⟨⟨_, rfl, rfl, rfl, rfl, .bottom⟩, rfl, Nat.le_refl _⟩
  -- a step for each token and one for the end are no more than there are characters, and one
  suffices ∃ root n, IsModule a (Plain.declare {} cs) root ∧ n ≤ (Plain.spell cs).length + 1 ∧
      Finds a ((Plain.spell cs).length + 2) (.ofText (Plain.spell cs)) root n initial by
    obtain ⟨root, n, isModule, few, finds⟩ := this
    rwa [treeOf_finds finds (by omega)]
  cases cs with
  | nil =>
    obtain ⟨root, isModule, finds⟩ := finds_empty isSource reads rfl
    exact ⟨root, 1, isModule, Nat.le_refl 1, finds⟩
  | cons c cs =>
    rw [List.all_cons, Bool.and_eq_true, List.all_eq_true] at plain
    have text : Plain.spell (c :: cs) = c.spell ++ Plain.spell cs := List.flatMap_cons
    generalize Plain.spell (c :: cs) = source at text reads
    have here : Cursor.ofText source = ⟨{}, c.spell ++ Plain.spell cs⟩ := congrArg (Cursor.mk {}) text
    have noClasses : Declare [] [] := ⟨rfl, rfl⟩
    have isBefore : ([] : List Part).map (·.symbol) = earlier false := rfl
    have keyword : Covers a (.ofText source) 1 ([] : List Part).reverse {} _ {} :=
      covers_firstKeyword isSource here
    obtain ⟨done, areClasses, here, first⟩ :=
      covers_classBehind isSource plain.1 isBefore noClasses keyword
    obtain ⟨any, done', areClasses, ends, more⟩ := covers_classes isSource plain.2 areClasses here
    obtain ⟨k, few, s', reads, leads⟩ := first.trans more _ _ reads
    obtain ⟨root, isModule, finds⟩ := finds_classes isSource areClasses ends reads
    refine ⟨root, k + 1, ?_, ?_, leads.finds finds⟩
    · rw [past_class] at isModule
      exact isModule
    · rw [text, List.length_append]
      exact Nat.succ_le_succ few

end Sources

/-- A source that spells plain classes declares just these classes. -/
theorem ofSource_spell {cs : List Plain.Class} (plain : cs.all Class.isPlain) :
    Contents.ofSource (Plain.spell cs) = { classes := Plain.declare {} cs } := by
  obtain ⟨isModule, classes, entries⟩ :=
    @isModule_treeOf sourceAutomaton (Automaton.tables_ofRules ..) cs plain
  rw [Contents.ofSource, Contents.ofNode, if_pos isModule, classes, entries]

end ModelAtlas.Source
