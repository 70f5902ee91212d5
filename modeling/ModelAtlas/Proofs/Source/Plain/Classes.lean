import ModelAtlas.Proofs.Source.Plain.Headings

/-!
# Reading plain classes

A plain source is read class by class: the keyword, the header, the body. What has been read is the
last class and, in front of it, the others as one part (`AreClasses`).
-/

namespace ModelAtlas.Source

open Grammar (Terminal RuleName Automaton Forest)
open Grammar.Plain
open Parse Plain

/-! ### Spelling -/

namespace Plain

theorem rows_eq (as : List Assignment) (more : List Char) :
    '\n' :: (as.flatMap fun x => '\t' :: x.spell ++ ['\n']) ++ more = rows as more := by
  induction as with
  | nil => rfl
  | cons x as ih =>
    rw [rows, ← ih]
    simp

theorem Class.spell_eq (c : Plain.Class) (more : List Char) :
    c.spell ++ more = "class ".toList ++ (c.heading ++ rows c.assignments more) := by
  delta Class.spell
  rw [← rows_eq, List.append_assoc, List.append_assoc]

/-- Behind the header of a class stand its rows and the other classes. -/
theorem spell_cons (c : Plain.Class) (cs : List Plain.Class) :
    Plain.spell (c :: cs) =
      "class ".toList ++ (c.heading ++ rows c.assignments (Plain.spell cs)) := by
  rw [← Class.spell_eq]
  exact List.flatMap_cons

end Plain

section Classes

variable {a : Automaton} {start : Cursor} {m : Mark} {more : List Char} {prior : List Part}
variable {any : Bool} {c : Plain.Class}

/-! ### Whole classes -/

/-- A class that is plain, in parts. -/
theorem parts_of_isPlain (plain : c.isPlain) : isName c.name ∧ isName c.qualifier ∧ isName c.base ∧
    c.assignments ≠ [] ∧ ∀ x ∈ c.assignments, IsPlainRow x := by
  simp only [Class.isPlain, Bool.and_eq_true, Bool.not_eq_true', List.isEmpty_eq_false_iff,
    List.all_eq_true] at plain
  obtain ⟨⟨⟨⟨name, qualifier⟩, base⟩, assigns⟩, rows⟩ := plain
  exact ⟨name, qualifier, base, assigns, rows⟩

/-- The parts of a class at a mark that has been read, in front of a text. -/
inductive IsClass (c : Plain.Class) (m : Mark) (more : List Char) : List Part → Prop
  | mk {keyword name superclasses colon indent before dedent : Part} :
    IsHeader c m keyword name superclasses colon indent →
    before.nodes ++ dedent.nodes =
      rowNodes (past (past m "class ".toList) c.heading) more c.assignments →
    dedent.stop = ⟨endOfRows (past (past m "class ".toList) c.heading) c.assignments, '\n' :: more⟩ →
    [keyword, name, superclasses, colon, indent, before, dedent].map (·.symbol) = wholeClass →
    IsClass c m more [keyword, name, superclasses, colon, indent, before, dedent]

/-- Reading a class behind its keyword. -/
theorem covers_class (isSource : a.tables = sourceTables) (start : Cursor)
    (isBase : reachedState a
      (.ofToken a.grammar (keywordToken m c (rows c.assignments more)) :: prior) =
        Grammar.stateAfter a.tables a.startState [Terminal.classWord.number])
    (plain : c.isPlain) (ends : NextRow ('\n' :: more) 0) :
    ∃ top : List Part, IsClass c m more top ∧
      Covers a start ((rows c.assignments []).length + 8)
        (.ofToken a.grammar (keywordToken m c (rows c.assignments more)) :: prior) {}
        (top.reverse ++ prior) {} := by
  obtain ⟨isName, isQualifier, isBase', assigns, areRows⟩ := parts_of_isPlain plain
  obtain ⟨x, as, isCons⟩ := List.exists_cons_of_ne_nil assigns
  have next : NextRow (rows c.assignments more) 8 := by
    rw [isCons]
    exact nextRow_rows (areRows x (isCons ▸ List.mem_cons_self)) as
  let keyword := Part.ofToken a.grammar (keywordToken m c (rows c.assignments more))
  obtain ⟨name, superclasses, colon, indent, symbols, header, stop, reads⟩ :=
    covers_heading isSource isBase isName isQualifier isBase' next
  have state : reachedState a ([indent, colon, superclasses, name] ++ keyword :: prior) =
      Grammar.stateAfter a.tables a.startState opening := by
    rw [reachedState_append, isBase, ← stateAfter_append]
    exact congrArg (fun more => Grammar.stateAfter _ _ (_ :: more)) symbols
  obtain ⟨before, dedent, symbols', nodes, stop', covers⟩ :=
    covers_body isSource state assigns areRows ends stop
  refine ⟨_, .mk header nodes stop' ?_, ?_⟩
  · exact congrArg₂ (fun heading body => Terminal.classWord.number :: (heading ++ body)) symbols symbols'
  · rw [Nat.add_comm]
    exact reads.trans covers

theorem forestNodes_classNode (isSource : a.tables = sourceTables) {top : List Part}
    (isClass : IsClass c m more top) :
    ∃ n : Node, n.classDecl? = some (c.declare m) ∧ n.entries = [] ∧
      ∀ (slots : Nat → Part) (k : Nat), (∀ i (inside : i < top.length), slots (k + i) = top[i]) →
        forestNodes a.grammar slots (Grammar.Plain.classNode k) = [n] := by
  cases isClass with
  | @mk keyword name superclasses colon indent before dedent header body stop _ =>
  refine ⟨classNode keyword name superclasses colon indent before dedent, ?_, rfl, ?_⟩
  · have isDefinition : (classNode keyword name superclasses colon indent before dedent).is
        "class_definition" = true := rfl
    rw [Node.classDecl?, if_pos isDefinition,
      classDecl_classNode header body (congrArg Cursor.mark stop)]
  · intro slots k areSlots
    have kinds := kindOf_rule (grammar_eq isSource)
    have slot (i : Nat) (inside : i < 7) := areSlots i inside
    have keywordSlot := slot 0 (by decide)
    rw [Nat.add_zero] at keywordSlot
    simp only [Grammar.Plain.classNode, forestNodes_ofRule, List.flatMap_cons, List.flatMap_nil,
      List.append_nil, forestNodes_ofSlot, Option.map_none, Node.map_under_none, kinds, keywordSlot,
      slot 1 (by decide), slot 2 (by decide), slot 3 (by decide), slot 4 (by decide),
      slot 5 (by decide), slot 6 (by decide)]
    rfl

/-! ### Classes in a row -/

/-- Nodes that declare classes and nothing else. -/
def Declare (nodes : List Node) (classes : List ClassDecl) : Prop :=
  nodes.filterMap Node.classDecl? = classes ∧ nodes.flatMap Node.entries = []

/-- Classes that have been read. Those in front of the last one, if there are some, are one part. -/
structure AreClasses (a : Automaton) (any : Bool) (classes : List ClassDecl) (done : List Part) :
    Prop where
  symbols : done.map (·.symbol) = earlier any ++ wholeClass
  nodes : ∃ nodes, Declare nodes classes ∧ ∀ tokens,
    forestNodes a.grammar (slotsOf a.grammar done tokens)
      (.concat (firstSlots any.toNat ++ [Grammar.Plain.classNode any.toNat])) = nodes

/-- One class more. -/
theorem areClasses_append (isSource : a.tables = sourceTables) {before : List Part}
    (isBefore : before.map (·.symbol) = earlier any) {classes : List ClassDecl}
    (declare : Declare (before.flatMap (·.nodes)) classes) {top : List Part}
    (isClass : IsClass c m more top) :
    AreClasses a any (classes ++ [c.declare m]) (before ++ top) := by
  have length : before.length = any.toNat := by
    rw [← List.length_map (f := Part.symbol), isBefore]
    cases any <;> rfl
  have symbols : top.map (·.symbol) = wholeClass := by
    cases isClass
    assumption
  have slot (tokens : List Token) (i : Nat) (inside : i < top.length) :
      slotsOf a.grammar (before ++ top) tokens (any.toNat + i) = top[i] := by
    apply slotsOf_stacked
    rw [← length, List.getElem?_append_right (Nat.le_add_right _ _), Nat.add_sub_cancel_left,
      List.getElem?_eq_getElem inside]
  have first (tokens : List Token) :
      (List.range any.toNat).flatMap (fun i => (slotsOf a.grammar (before ++ top) tokens i).nodes) =
        before.flatMap (·.nodes) := by
    cases any with
    | false =>
      obtain rfl := List.length_eq_zero_iff.mp length
      rfl
    | true =>
      obtain ⟨part, rfl⟩ := List.length_eq_one_iff.mp length
      rfl
  refine ⟨by rw [List.map_append, isBefore, symbols], ?_⟩
  obtain ⟨n, isDecl, noEntries, nodes⟩ := forestNodes_classNode isSource isClass
  refine ⟨before.flatMap (·.nodes) ++ [n], ⟨?_, ?_⟩, fun tokens => ?_⟩
  · rw [List.filterMap_append, declare.1, List.filterMap_cons_some isDecl]
    rfl
  · rw [List.flatMap_append, declare.2, List.flatMap_singleton, noEntries]
    rfl
  · rw [firstSlots, forestNodes_slots, first, nodes _ _ (slot tokens)]

/-! ### Keywords -/

/-- The tokens at the start of a class. -/
def keywordLexeme (gap : Gap) : Lexeme := ⟨gap, .classWord, "class".toList⟩

theorem spell_keywordLexeme (gap : Gap) (c : Plain.Class) (more : List Char) :
    Lexeme.spell [keywordLexeme gap] (' ' :: (c.heading ++ rows c.assignments more)) =
      gap.chars ++ (c.spell ++ more) := by
  rw [Class.spell_eq]
  rfl

theorem stand_keyword {gap : Gap} (kept : gap.Keeps {}) (rest : List Char) :
    Lexeme.Stand {} [keywordLexeme gap] (' ' :: rest) {} :=
  Lexeme.Stand.cons (fun _ => .nil) fun _ => .word rfl kept (.inr ⟨rfl, rfl⟩) (by decide)

/-- Reading the keyword of the first class. -/
theorem covers_firstKeyword (isSource : a.tables = sourceTables)
    (here : start = ⟨m, c.spell ++ more⟩) :
    Covers a start 1 [] {} [.ofToken a.grammar (keywordToken m c (rows c.assignments more))] {} := by
  have listed : firstClass ∈ phrases := by simp [phrases]
  have text : hereBehind start [] = ⟨m, Lexeme.spell [keywordLexeme .none]
      (' ' :: (c.heading ++ rows c.assignments more))⟩ := by
    rw [spell_keywordLexeme]
    exact here
  have kept : Gap.none.Keeps {} := fun isLine => absurd isLine Bool.false_ne_true
  exact (stand_keyword kept _).covers start (holds_of_mem isSource listed) rfl rfl [] rfl m text rfl
    (Nat.le_refl 1)

/-- Reading the keyword of another class. -/
theorem covers_nextKeyword (isSource : a.tables = sourceTables) {classes : List ClassDecl}
    {done : List Part} (areClasses : AreClasses a any classes done)
    (here : hereBehind start done.reverse = ⟨m, '\n' :: (c.spell ++ more)⟩) :
    ∃ before : Part, before.symbol = statements ∧ Declare before.nodes classes ∧
      Covers a start 1 done.reverse {}
        [.ofToken a.grammar (keywordToken (past m ['\n']) c (rows c.assignments more)), before] {} := by
  obtain ⟨symbols, nodes, declare, areNodes⟩ := areClasses
  have listed : nextClass any ∈ phrases := by cases any <;> simp [phrases]
  have text : hereBehind start (done.reverse ++ []) = ⟨m, Lexeme.spell [keywordLexeme (.line false)]
      (' ' :: (c.heading ++ rows c.assignments more))⟩ := by
    rw [spell_keywordLexeme, List.append_nil]
    exact here
  let token := keywordToken (past m ['\n']) c (rows c.assignments more)
  have slot := slotsOf_token a.grammar done (show [token][0]? = some token from rfl)
  have length : done.length = any.toNat + 7 := by
    rw [← List.length_map (f := Part.symbol), symbols]
    cases any <;> rfl
  rw [length, Nat.add_zero] at slot
  have keyword : Part.ofPiece a.grammar (slotsOf a.grammar done [token])
      (.ofSlot Terminal.classWord.number (any.toNat + 7)) = .ofToken a.grammar token := by
    rw [ofPiece_ofSlot _ _ (by rw [slot]; rfl), slot]
  have kept : (Gap.line false).Keeps {} := fun _ => rfl
  have covers := (stand_keyword kept _).covers start (holds_of_mem isSource listed) rfl rfl done
    symbols m text (show _ = [_, _] from rfl) (Nat.le_refl 1)
  rw [List.append_nil] at covers
  refine ⟨.ofPiece a.grammar (slotsOf a.grammar done [token])
    ⟨statements, .concat (firstSlots any.toNat ++ [Grammar.Plain.classNode any.toNat]), 0,
      any.toNat + 6⟩, rfl, ?_, ?_⟩
  · exact (congrArg (Declare · classes) (areNodes [token])).mpr declare
  · rw [← keyword]
    exact covers

/-! ### Reading classes -/

theorem nextRow_spell (cs : List Plain.Class) : NextRow ('\n' :: Plain.spell cs) 0 := by
  cases cs with
  | nil => exact .last
  | cons c cs =>
    rw [spell_cons]
    exact .row false rfl

/-- Where the rows of a class end and the line is over, the class is. -/
theorem past_endOfRows (m : Mark) (as : List Assignment) :
    past (endOfRows m as) ['\n'] = past m (rows as []) := by
  induction as generalizing m with
  | nil => rfl
  | cons x as ih =>
    rw [endOfRows, ih, ← past_append, ← past_append]
    rfl

theorem past_class (m : Mark) (c : Plain.Class) :
    past (endOfRows (past (past m "class ".toList) c.heading) c.assignments) ['\n'] =
      past m c.spell := by
  rw [past_endOfRows, ← List.append_nil c.spell, Class.spell_eq, past_append, past_append]

theorem length_class (plain : c.isPlain) : (rows c.assignments []).length + 9 ≤ c.spell.length := by
  obtain ⟨name, qualifier, base, _, _⟩ := parts_of_isPlain plain
  have first := length_pos_of_isName name
  have second := length_pos_of_isName qualifier
  have third := length_pos_of_isName base
  have word : "class ".toList.length = 6 := rfl
  have ending : "):".toList.length = 2 := rfl
  rw [← List.append_nil c.spell, Class.spell_eq]
  simp only [Class.heading, List.length_append, List.length_cons, word, ending]
  omega

/-- Reading a class with its keyword, where reading the keyword leaves some parts below it. -/
theorem covers_classBehind (isSource : a.tables = sourceTables) (plain : c.isPlain)
    {cs : List Plain.Class}
    {before : List Part} (isBefore : before.map (·.symbol) = earlier any)
    {classes : List ClassDecl} (declare : Declare (before.flatMap (·.nodes)) classes)
    {done : List Part} (keyword : Covers a start 1 done.reverse {}
      (.ofToken a.grammar (keywordToken m c (rows c.assignments (Plain.spell cs))) :: before) {}) :
    ∃ done' : List Part, AreClasses a any (classes ++ [c.declare m]) done' ∧
      hereBehind start done'.reverse = ⟨endOfRows (past (past m "class ".toList) c.heading) c.assignments,
        '\n' :: Plain.spell cs⟩ ∧
      Covers a start c.spell.length done.reverse {} done'.reverse {} := by
  have isBase : reachedState a
      (.ofToken a.grammar (keywordToken m c (rows c.assignments (Plain.spell cs))) :: before) =
        Grammar.stateAfter a.tables a.startState [Terminal.classWord.number] := by
    -- behind the keyword the grammar has forgotten whether classes stand in front
    have settled := plain_phrases.2.2.2.1
    rw [← isSource] at settled
    cases any with
    | false =>
      obtain rfl := List.map_eq_nil_iff.mp isBefore
      exact reachedState_append [_] []
    | true =>
      obtain ⟨part, rfl, symbol⟩ := List.map_eq_singleton_iff.mp isBefore
      refine (reachedState_append [_, _] []).trans (Eq.trans ?_ settled)
      exact congrArg (fun n => Grammar.stateAfter _ _ [n, _]) symbol
  obtain ⟨top, isClass, covers⟩ := covers_class isSource start isBase plain (nextRow_spell cs)
  have short : before.reverse = before := by
    cases any with
    | false =>
      rw [List.map_eq_nil_iff.mp isBefore]
      rfl
    | true =>
      obtain ⟨part, rfl, _⟩ := List.map_eq_singleton_iff.mp isBefore
      rfl
  refine ⟨before ++ top, areClasses_append isSource isBefore declare isClass, ?_, ?_⟩
  · cases isClass with
    | mk _ _ stop _ =>
      rw [List.reverse_append]
      exact stop
  · rw [List.reverse_append, short]
    refine (keyword.trans covers).mono ?_
    have length := length_class plain
    omega

/-- Reading the classes that are left. -/
theorem covers_classes (isSource : a.tables = sourceTables) {cs : List Plain.Class}
    (plain : ∀ c ∈ cs, c.isPlain) {classes : List ClassDecl} {done : List Part}
    (areClasses : AreClasses a any classes done)
    (here : hereBehind start done.reverse = ⟨m, '\n' :: Plain.spell cs⟩) :
    ∃ (others : Bool) (done' : List Part),
      AreClasses a others (classes ++ Plain.declare (past m ['\n']) cs) done' ∧
      (hereBehind start done'.reverse).rest = ['\n'] ∧
      Covers a start (Plain.spell cs).length done.reverse {} done'.reverse {} := by
  -- on the classes that are left; what has been read stays a class and one part in front of it
  induction cs generalizing m any classes done with
  | nil =>
    refine ⟨any, done, ?_, congrArg Cursor.rest here, .refl _ _⟩
    rwa [Plain.declare, List.append_nil]
  | cons c cs ih =>
    rw [List.forall_mem_cons] at plain
    have text : Plain.spell (c :: cs) = c.spell ++ Plain.spell cs := List.flatMap_cons
    rw [text] at here
    obtain ⟨before, symbol, declare, reads⟩ := covers_nextKeyword isSource areClasses here
    have isBefore : [before].map (·.symbol) = earlier true := congrArg ([·]) symbol
    obtain ⟨done₁, areClasses, here, covers⟩ :=
      covers_classBehind isSource plain.1 isBefore (by rwa [List.flatMap_singleton]) reads
    obtain ⟨others, done', areClasses, ends, more⟩ := ih plain.2 areClasses here
    refine ⟨others, done', ?_, ends, ?_⟩
    · rw [past_class, List.append_assoc] at areClasses
      exact areClasses
    · rw [text, List.length_append]
      exact covers.trans more

end Classes

end ModelAtlas.Source
