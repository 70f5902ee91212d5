import ModelAtlas.Proofs.Source.Plain.Values

/-!
# Reading plain lists

A list is read string by string. What has been read of it is one of three things to what follows
(`Before`): nothing, one element, or several.
-/

namespace ModelAtlas.Source

open Grammar (Terminal RuleName Automaton Forest)
open Grammar.Plain
open Parse Plain

section Lists

variable {a : Automaton} {start : Cursor} {m : Mark} {rest : List Char} {n : Nat}
variable {under : List Part} {target sign : Part} {any : Bool}

/-! ### Elements -/

/-- The symbols in place of an element and of those in front of it. -/
theorem symbols_element (g : Grammar.Productions) (slots : Nat → Part) (before : Before)
    (text last : Bool) :
    ((element before text last).result.dropLast.map (Part.ofPiece g slots)).map (·.symbol) ++
        [Terminal.comma.number] =
      (if last then [RuleName.collectionElements.number, Terminal.comma.number]
        else before.next.symbols) := by
  cases before <;> cases last <;> rfl

/-- Their nodes. -/
theorem nodes_element {g : Grammar.Productions} {slots : Nat → Part} {before : Before}
    {text : Bool} {stacked : List Part} {node : Node}
    (stack : (List.range before.symbols.length).map slots = stacked)
    (string : forestNodes g slots (Grammar.Plain.stringNode none text before.symbols.length) = [node])
    (last : Bool) :
    ((element before text last).result.dropLast.map (Part.ofPiece g slots)).flatMap (·.nodes) =
      stacked.flatMap (·.nodes) ++ [node] := by
  -- the nodes of an element, behind those from a slot on
  have others (k : Nat) : forestNodes g slots
      (.concat (((List.range before.symbols.length).drop k).map (fun i => .ofSlot i) ++
        [Grammar.Plain.stringNode none text before.symbols.length])) =
      (stacked.drop k).flatMap (·.nodes) ++ [node] := by
    rw [forestNodes_slots, string, ← stack, ← List.map_drop, List.flatMap_map]
  cases last with
  | true => exact (List.append_nil _).trans (others 0)
  | false =>
    cases before with
    | none => exact (List.append_nil _).trans (others 0)
    | one | more =>
      have first : (Part.ofPiece g slots (.ofSlot RuleName.expression.number 0)).nodes =
          (slots 0).nodes := forestNodes_ofSlot_none 0
      refine (congrArg₂ (· ++ ·) first ((List.append_nil _).trans (others 1))).trans ?_
      rw [← stack, ← List.append_assoc]
      rfl

/-- Behind them stands the comma or the bracket. -/
theorem reverse_element {g : Grammar.Productions} {slots : Nat → Part} {token : Token}
    (before : Before) (text last : Bool)
    (behind : slots (before.symbols.length + text.toNat + 2) = .ofToken g token)
    (terminal : token.terminal = if last then .closeBracket else .comma) :
    ((element before text last).result.map (Part.ofPiece g slots)).reverse =
      .ofToken g token ::
        ((element before text last).result.dropLast.map (Part.ofPiece g slots)).reverse := by
  have isSign : Part.ofPiece g slots
      (.ofSlot (if last then Terminal.closeBracket else .comma).number
        (before.symbols.length + text.toNat + 2)) = .ofToken g token := by
    rw [ofPiece_ofSlot _ _ (by rw [behind, Part.ofToken, terminal]), behind]
  rw [← isSign]
  cases before <;> cases last <;> rfl

/-- Reading a string and the comma or bracket behind it. -/
theorem covers_element (isSource : a.tables = sourceTables)
    (isBase : reachedState a under = Grammar.stateAfter a.tables a.startState (bracketed false))
    (before : Before) {stacked : List Part} (isStack : stacked.map (·.symbol) = before.symbols)
    {gap : Gap} (inRow : gap.isLine = false) {s : List Char} (text : s.all isTextChar) (last : Bool)
    (here : hereBehind start (stacked.reverse ++ under) =
      ⟨m, gap.chars ++ (quoted s ++ (if last then ']' else ',') :: rest)⟩)
    (ends : endsSign rest) :
    ∃ top : List Part,
      top.map (·.symbol) ++ [Terminal.comma.number] =
        (if last then [RuleName.collectionElements.number, Terminal.comma.number]
          else before.next.symbols) ∧
      top.flatMap (·.nodes) = stacked.flatMap (·.nodes) ++
        [stringNode none (past m gap.chars) s ((if last then ']' else ',') :: rest)] ∧
      Covers a start ((quoted s).length + 1) (stacked.reverse ++ under) rowLayout
        (.ofToken a.grammar (.spelling (if last then .closeBracket else .comma)
          (past (past m gap.chars) (quoted s)) [if last then ']' else ','] rest) ::
          (top.reverse ++ under)) rowLayout := by
  let sign : Terminal × Char := if last then (.closeBracket, ']') else (.comma, ',')
  let ls := Lexeme.ofString gap s ++ [⟨.none, sign.1, [sign.2]⟩]
  have stands : Lexeme.Stand rowLayout ls rest rowLayout :=
    .string rfl rfl inRow text (by cases last <;> rfl) <|
    .sign sign rfl rfl (by cases last <;> decide) ends fun _ => .nil
  have listed : element before (!s.isEmpty) last ∈ phrases := by
    cases before <;> cases s.isEmpty <;> cases last <;> simp [phrases]
  have terminals : ls.map (·.terminal) = (element before (!s.isEmpty) last).terminals := by
    cases s <;> cases last <;> rfl
  have few : ls.length ≤ (quoted s).length + 1 := by
    cases s <;> simp [ls, Lexeme.ofString, quoted]
  have spelled : Lexeme.spell ls rest = gap.chars ++ (quoted s ++ sign.2 :: rest) := by
    rw [Lexeme.spell_ofString]
    rfl
  have length : stacked.length = before.symbols.length := by rw [← isStack, List.length_map]
  let slots := slotsOf a.grammar stacked (Lexeme.tokens m ls rest)
  have string := forestNodes_stringNode isSource stacked none m gap s [⟨.none, sign.1, [sign.2]⟩] rest
  have stack := map_slotsOf_range a.grammar stacked (Lexeme.tokens m ls rest)
  rw [length] at string stack
  let token : Token := .spelling sign.1 (past (past m gap.chars) (quoted s)) [sign.2] rest
  have closing : slots (before.symbols.length + (!s.isEmpty).toNat + 2) = .ofToken a.grammar token := by
    rw [← length, Nat.add_assoc]
    refine slotsOf_token a.grammar stacked ?_
    simp only [token, past_quoted]
    cases s <;> rfl
  have becomes := reverse_element before (!s.isEmpty) last closing (by cases last <;> rfl)
  refine ⟨_, symbols_element a.grammar slots before _ last,
    (nodes_element stack string last).trans (by cases last <;> rfl), ?_⟩
  have covers := stands.covers start (holds_of_mem isSource listed) terminals isBase stacked isStack m
    (here.trans (by rw [spelled]; cases last <;> rfl)) becomes few
  cases last <;> exact covers

/-- Reading strings with commas between, and the bracket behind them. -/
theorem covers_elements (isSource : a.tables = sourceTables)
    (isBase : reachedState a under = Grammar.stateAfter a.tables a.startState (bracketed false))
    {contents : List (List Char)} (proper : contents ≠ []) (text : contents.all (·.all isTextChar))
    (before : Before) {stacked : List Part} (isStack : stacked.map (·.symbol) = before.symbols)
    {gap : Gap} (inRow : gap.isLine = false) (here : hereBehind start (stacked.reverse ++ under) =
      ⟨m, gap.chars ++ (enumerated contents ++ ']' :: rest)⟩) (ends : endsSign rest) :
    ∃ elements : Part, elements.symbol = RuleName.collectionElements.number ∧
      elements.nodes = stacked.flatMap (·.nodes) ++
        elementNodes (past m gap.chars) (']' :: rest) contents ∧
      Covers a start ((enumerated contents).length + 1) (stacked.reverse ++ under) rowLayout
        (.ofToken a.grammar (.spelling .closeBracket
          (past (past m gap.chars) (enumerated contents)) [']'] rest) :: elements :: under)
        rowLayout := by
  -- on the strings that are left; `stacked` holds those that have been read, with their last comma
  induction contents using enumerated.induct generalizing before stacked gap m with
  | case1 => exact absurd rfl proper
  | case2 s =>
    rw [List.all_cons, Bool.and_eq_true] at text
    obtain ⟨top, symbols, nodes, covers⟩ :=
      covers_element isSource isBase before isStack inRow text.1 true here ends
    obtain ⟨elements, rfl⟩ : ∃ p, top = [p] := by
      have one := congrArg List.length symbols
      simp only [List.length_append, List.length_map, if_true, List.length_cons, List.length_nil] at one
      exact List.length_eq_one_iff.mp (by omega)
    refine ⟨elements, (List.cons.inj symbols).1, ?_, covers⟩
    rw [List.flatMap_singleton] at nodes
    exact nodes
  | case3 s others some ih =>
    rw [List.all_cons, Bool.and_eq_true] at text
    obtain ⟨next, others, rfl⟩ := List.exists_cons_of_ne_nil some
    have spelled : enumerated (s :: next :: others) ++ ']' :: rest =
        quoted s ++ ',' :: ' ' :: (enumerated (next :: others) ++ ']' :: rest) := by
      simp [enumerated]
    rw [spelled] at here
    obtain ⟨top, symbols, nodes, covers⟩ :=
      covers_element isSource isBase before isStack inRow text.1 false here rfl
    let comma : Token := .spelling .comma (past (past m gap.chars) (quoted s)) [',']
      (' ' :: (enumerated (next :: others) ++ ']' :: rest))
    let stacked' : List Part := top ++ [.ofToken a.grammar comma]
    have isNext : stacked'.map (·.symbol) = before.next.symbols := by
      rw [List.map_append]
      exact symbols
    have upTo : stacked'.reverse ++ under = .ofToken a.grammar comma :: (top.reverse ++ under) := by
      rw [List.reverse_append]
      rfl
    obtain ⟨elements, symbol, more, coversMore⟩ := @ih comma.stop.mark (by nofun) text.2 before.next
      stacked' isNext .space rfl (by rw [upTo]; rfl)
    refine ⟨elements, symbol, ?_, ?_⟩
    · rw [more, List.flatMap_append, nodes, List.append_assoc, List.append_assoc]
      rfl
    · rw [upTo] at coversMore
      have stop : past (past m gap.chars) (enumerated (s :: next :: others)) =
          past (past comma.stop.mark [' ']) (enumerated (next :: others)) := by
        rw [show enumerated (s :: next :: others) =
          quoted s ++ ", ".toList ++ enumerated (next :: others) from rfl, past_append, past_append]
        rfl
      rw [stop]
      refine (covers.trans coversMore).mono ?_
      simp [enumerated]
      omega

theorem endsSign_enumerated (contents : List (List Char)) (rest : List Char) :
    endsSign (enumerated contents ++ ']' :: rest) := by
  match contents with
  | [] => rfl
  | [s] => rfl
  | s :: next :: others => rfl

/-! ### Lists -/

/-- Inside a list it does not matter what stands in front of its assignment. -/
theorem reachedState_bracketed (isSource : a.tables = sourceTables)
    (isBase : reachedState a under =
      Grammar.stateAfter a.tables a.startState (opening ++ earlier any)) {bracket : Part}
    (isTarget : [target.symbol, sign.symbol] = Grammar.Plain.target)
    (isBracket : bracket.symbol = Terminal.openBracket.number) :
    reachedState a (bracket :: sign :: target :: under) =
      Grammar.stateAfter a.tables a.startState (bracketed false) := by
  have symbols : [bracket, sign, target].reverse.map (·.symbol) =
      Grammar.Plain.target ++ [Terminal.openBracket.number] := by
    rw [← isTarget, ← isBracket]
    rfl
  have state := reachedState_append (a := a) [bracket, sign, target] under
  rw [symbols, isBase, ← stateAfter_append, ← List.append_assoc] at state
  refine state.trans ?_
  have settled := plain_phrases.2.2.2.2
  rw [← isSource] at settled
  cases any with
  | false => rfl
  | true => exact settled

/-- Reading the bracket of a list. -/
theorem covers_listOpening (isSource : a.tables = sourceTables) (start : Cursor)
    (isBase : reachedState a under =
      Grammar.stateAfter a.tables a.startState (opening ++ earlier any))
    (isTarget : [target.symbol, sign.symbol] = Grammar.Plain.target)
    (here : sign.stop = ⟨m, ' ' :: '[' :: rest⟩) (ends : endsSign rest) :
    Covers a start 1 (sign :: target :: under) rowLayout
      (.ofToken a.grammar (.spelling .openBracket (past m [' ']) ['['] rest) :: sign :: target :: under)
      rowLayout := by
  let ls : List Lexeme := [⟨.space, .openBracket, ['[']⟩]
  have stands : Lexeme.Stand rowLayout ls rest rowLayout :=
    .sign (.openBracket, '[') rfl rfl (by decide) ends fun _ => .nil
  have listed : listOpening any ∈ phrases := by cases any <;> simp [phrases]
  refine stands.covers start (holds_of_mem isSource listed) rfl isBase [target, sign] isTarget m here
    (show _ = [_, _, _] from ?_) (Nat.le_refl 1)
  have first : target.symbol = RuleName.pattern.number := (List.cons.inj isTarget).1
  have second : sign.symbol = Terminal.equal.number := (List.cons.inj (List.cons.inj isTarget).2).1
  simp only [listOpening, List.map_cons, List.map_nil]
  rw [ofPiece_ofSlot _ _ first, ofPiece_ofSlot _ _ second]
  rfl

/-- Reading what stands between the brackets of a list, and the closing one. -/
theorem covers_contents (isSource : a.tables = sourceTables)
    (isBase : reachedState a under = Grammar.stateAfter a.tables a.startState (bracketed false))
    {contents : List (List Char)} (text : contents.all (·.all isTextChar))
    (here : hereBehind start under = ⟨m, enumerated contents ++ ']' :: rest⟩) (ends : endsSign rest) :
    ∃ inner : List Part,
      inner.map (·.symbol) =
        (if !contents.isEmpty then [RuleName.collectionElements.number] else []) ∧
      inner.flatMap (·.nodes) = elementNodes m (']' :: rest) contents ∧
      Covers a start ((enumerated contents).length + 1) under rowLayout
        (.ofToken a.grammar (.spelling .closeBracket (past m (enumerated contents)) [']'] rest) ::
          (inner.reverse ++ under)) rowLayout := by
  cases contents with
  | nil =>
    let ls : List Lexeme := [⟨.none, .closeBracket, [']']⟩]
    have stands : Lexeme.Stand rowLayout ls rest rowLayout :=
      .sign (.closeBracket, ']') rfl rfl (by decide) ends fun _ => .nil
    have listed : noElements ∈ phrases := by simp [phrases]
    exact ⟨[], rfl, rfl, stands.covers start (holds_of_mem isSource listed) rfl isBase [] rfl m here rfl
      (Nat.le_refl 1)⟩
  | cons s others =>
    obtain ⟨elements, symbol, nodes, covers⟩ := @covers_elements a start m rest under isSource isBase
      (s :: others) (List.cons_ne_nil s others) text .none [] rfl .none rfl here ends
    exact ⟨[elements], by rw [← symbol]; rfl, (List.append_nil _).trans nodes, covers⟩

/-- Reading the end of the line behind a list. -/
theorem covers_listClosing (isSource : a.tables = sourceTables) (start : Cursor)
    (isBase : reachedState a under =
      Grammar.stateAfter a.tables a.startState (opening ++ earlier any))
    (isTarget : [target.symbol, sign.symbol] = Grammar.Plain.target)
    {contents : List (List Char)} {inner : List Part}
    (symbols : inner.map (·.symbol) =
      if !contents.isEmpty then [RuleName.collectionElements.number] else [])
    (nodes : inner.flatMap (·.nodes) =
      elementNodes (past (past m [' ']) ['[']) (']' :: rest) contents)
    (next : NextRow rest n) (within : n ≤ 8) :
    let bracket : Token :=
      .spelling .openBracket (past m [' ']) ['['] (enumerated contents ++ ']' :: rest)
    let closing : Token :=
      .spelling .closeBracket (past bracket.stop.mark (enumerated contents)) [']'] rest
    Covers a start 1
      (.ofToken a.grammar closing :: (inner.reverse ++
        (.ofToken a.grammar bracket :: sign :: target :: under))) rowLayout
      (.ofToken a.grammar (.spelling .newline closing.stop.mark [] rest) ::
        statementPart target sign (listNode (some "right") (past m [' ']) contents rest)
          ⟨closing.stop.mark, rest⟩ :: under) rowLayout := by
  intro bracket closing
  let ls : List Lexeme := [⟨.none, .newline, []⟩]
  have stands : Lexeme.Stand rowLayout ls rest rowLayout :=
    Lexeme.Stand.cons (fun _ => .nil) fun _ => .newline rfl next within
  have listed : listClosing any (!contents.isEmpty) ∈ phrases := by
    cases any <;> cases contents.isEmpty <;> simp [phrases]
  have kinds := kindOf_rule (grammar_eq isSource)
  let stacked : List Part :=
    [target, sign, .ofToken a.grammar bracket] ++ inner ++ [.ofToken a.grammar closing]
  have isStack : stacked.map (·.symbol) = (listClosing any (!contents.isEmpty)).stack := by
    simp only [stacked, List.map_append, symbols, listClosing, ← isTarget]
    rfl
  have becomes : ((listClosing any (!contents.isEmpty)).result.map (Part.ofPiece a.grammar
      (slotsOf a.grammar stacked (Lexeme.tokens closing.stop.mark ls rest)))).reverse =
        [.ofToken a.grammar (.spelling .newline closing.stop.mark [] rest), statementPart target sign
          (listNode (some "right") (past m [' ']) contents rest) ⟨closing.stop.mark, rest⟩] := by
    cases contents with
    | nil =>
      obtain rfl := List.map_eq_nil_iff.mp symbols
      refine ofPiece_assigned isSource rfl rfl ?_ rfl rfl rfl
      simp only [forestNodes_ofRule, List.flatMap_cons, List.flatMap_nil, forestNodes_ofSlot_none, kinds]
      rfl
    | cons s others =>
      obtain ⟨elements, rfl, _⟩ := List.map_eq_singleton_iff.mp symbols
      rw [List.flatMap_singleton] at nodes
      refine ofPiece_assigned isSource rfl rfl ?_ rfl rfl rfl
      have inside : (slotsOf a.grammar stacked (Lexeme.tokens closing.stop.mark ls rest) 3).nodes =
          elementNodes bracket.stop.mark (']' :: rest) (s :: others) := nodes
      simp only [forestNodes_ofRule, List.flatMap_cons, List.flatMap_nil, forestNodes_ofSlot_none, kinds,
        inside]
      rfl
  have upTo : stacked.reverse ++ under = .ofToken a.grammar closing :: (inner.reverse ++
      (.ofToken a.grammar bracket :: sign :: target :: under)) := by
    simp only [stacked, List.reverse_append, List.append_assoc]
    rfl
  have closes := stands.covers start (holds_of_mem isSource listed) rfl isBase stacked isStack
    closing.stop.mark (by rw [upTo]; rfl) becomes (Nat.le_refl 1)
  rwa [upTo] at closes

theorem readsValue_list (isSource : a.tables = sourceTables)
    (isBase : reachedState a under =
      Grammar.stateAfter a.tables a.startState (opening ++ earlier any)) {contents : List (List Char)}
    (text : contents.all (·.all isTextChar)) (next : NextRow rest n) (within : n ≤ 8) :
    ReadsValue a start under m rest (.list contents) := by
  intro target sign isTarget here
  have spelled : (Value.list contents).spell = '[' :: (enumerated contents ++ [']']) := rfl
  rw [spelled, List.cons_append, List.append_assoc, List.singleton_append] at here
  have opens := covers_listOpening isSource start isBase isTarget here
    (endsSign_enumerated contents rest)
  let bracket : Token := .spelling .openBracket (past m [' ']) ['['] (enumerated contents ++ ']' :: rest)
  have isBracketed : reachedState a (.ofToken a.grammar bracket :: sign :: target :: under) =
      Grammar.stateAfter a.tables a.startState (bracketed false) :=
    reachedState_bracketed isSource isBase isTarget rfl
  obtain ⟨inner, symbols, nodes, reads⟩ :=
    @covers_contents a start _ rest _ isSource isBracketed contents text rfl next.endsSign
  have closes := covers_listClosing isSource start isBase isTarget symbols nodes next within
  have ends : past (past m [' ']) (Value.list contents).spell =
      past (past bracket.stop.mark (enumerated contents)) [']'] := by
    rw [spelled]
    exact past_append (past (past m [' ']) ['[']) (enumerated contents) [']']
  intro stop
  rw [show stop = _ from ends]
  refine ((opens.trans reads).trans closes).mono ?_
  simp only [spelled, List.length_cons, List.length_append, List.length_nil]
  omega

theorem readsValue_of_isPlain (isSource : a.tables = sourceTables)
    (isBase : reachedState a under =
      Grammar.stateAfter a.tables a.startState (opening ++ earlier any)) {v : Value}
    (plain : v.isPlain) (next : NextRow rest n) (within : n ≤ 8) :
    ReadsValue a start under m rest v := by
  cases v with
  | str content => exact readsValue_str isSource isBase plain next within
  | list contents => exact readsValue_list isSource isBase plain next within
  | call qualifier name =>
    rw [Value.isPlain, Bool.and_eq_true] at plain
    exact readsValue_call isSource isBase plain.1 plain.2 next within

end Lists

end ModelAtlas.Source
