import ModelAtlas.Proofs.Source.Plain.Lists

/-!
# Reading plain rows

The body of a class is read row by row: the name that is assigned to, then its value. What has been
read of a body is one statement, or others and the last one (`AreRows`); with the end of the
indentation it is whole (`covers_body`).
-/

namespace ModelAtlas.Source

open Grammar (Terminal RuleName Automaton Forest)
open Grammar.Plain
open Parse Plain

section Rows

variable {a : Automaton} {start : Cursor} {m : Mark} {rest more : List Char}
variable {body stacked : List Part} {any : Bool}

/-- The part of a name that is assigned to. -/
def targetPart (m : Mark) (s rest : List Char) : Part where
  symbol := RuleName.pattern.number
  nodes := [(Token.spelling .identifier m s rest).node]
  start := (Token.spelling .identifier m s rest).start
  stop := (Token.spelling .identifier m s rest).stop

/-- The part of an equals sign. -/
def signPart (a : Automaton) (m : Mark) (rest : List Char) : Part :=
  .ofToken a.grammar (.spelling .equal m ['='] rest)

/-- The rows of a body that have been read, and the one that has been read last. -/
def AreRows (any : Bool) (stacked : List Part) : Prop :=
  stacked.map (·.symbol) = earlier any ++ row

theorem AreRows.length_eq (areRows : AreRows any stacked) : stacked.length = any.toNat + 2 := by
  rw [← List.length_map (f := Part.symbol), areRows]
  cases any <;> rfl

/-- Rows that have been read become one part. -/
theorem nodes_rowsBefore (areRows : AreRows any stacked) (tokens : List Token) :
    (Part.ofPiece a.grammar (slotsOf a.grammar stacked tokens) (rowsBefore any)).nodes =
      stacked.flatMap (·.nodes) := by
  have nodes := forestNodes_firstSlots (g := a.grammar) stacked tokens
  rw [areRows.length_eq] at nodes
  exact nodes

/-- The tokens at the start of a row. -/
def targetLexemes (s : List Char) : List Lexeme :=
  [⟨.line true, .identifier, s⟩, ⟨.space, .equal, ['=']⟩]

theorem stand_target {s : List Char} (name : isName s) (rest : List Char) :
    Lexeme.Stand rowLayout (targetLexemes s) (' ' :: rest) rowLayout :=
  .name rfl (fun _ => rfl) name rfl (by decide) <|
  .sign (.equal, '=') rfl rfl (by decide) rfl fun _ => .nil

/-- Reading the name of the first row. -/
theorem covers_firstTarget (isSource : a.tables = sourceTables)
    (isBase : reachedState a body = Grammar.stateAfter a.tables a.startState opening)
    {s : List Char} (name : isName s) (here : hereBehind start body =
      ⟨m, '\n' :: '\t' :: (s ++ ' ' :: '=' :: ' ' :: rest)⟩) :
    Covers a start 2 body rowLayout
      (signPart a (past (past (past m ['\n', '\t']) s) [' ']) (' ' :: rest) ::
        targetPart (past m ['\n', '\t']) s (' ' :: '=' :: ' ' :: rest) :: body) rowLayout := by
  have listed : firstRow ∈ phrases := by simp [phrases]
  exact (stand_target name rest).covers start (holds_of_mem isSource listed) rfl isBase [] rfl m here
    rfl (Nat.le_refl 2)

/-- Reading the name of another row. -/
theorem covers_nextTarget (isSource : a.tables = sourceTables)
    (isBase : reachedState a body = Grammar.stateAfter a.tables a.startState opening)
    (areRows : AreRows any stacked)
    {s : List Char} (name : isName s) (here : hereBehind start (stacked.reverse ++ body) =
      ⟨m, '\n' :: '\t' :: (s ++ ' ' :: '=' :: ' ' :: rest)⟩) :
    ∃ before : Part, before.symbol = statements ∧
      before.nodes = stacked.flatMap (·.nodes) ∧
      Covers a start 2 (stacked.reverse ++ body) rowLayout
        (signPart a (past (past (past m ['\n', '\t']) s) [' ']) (' ' :: rest) ::
          targetPart (past m ['\n', '\t']) s (' ' :: '=' :: ' ' :: rest) :: before :: body)
        rowLayout := by
  have listed : nextRow any ∈ phrases := by cases any <;> simp [phrases]
  let tokens := Lexeme.tokens m (targetLexemes s) (' ' :: rest)
  refine ⟨.ofPiece a.grammar (slotsOf a.grammar stacked tokens) (rowsBefore any), rfl,
    nodes_rowsBefore areRows tokens, (stand_target name rest).covers start
      (holds_of_mem isSource listed) rfl isBase stacked areRows m here (show _ = [_, _, _] from ?_)
      (Nat.le_refl 2)⟩
  have first := slotsOf_token a.grammar stacked (show tokens[0]? = some _ from rfl)
  have second := slotsOf_token a.grammar stacked (show tokens[1]? = some _ from rfl)
  rw [areRows.length_eq] at first second
  have target : Part.ofPiece a.grammar (slotsOf a.grammar stacked tokens)
      ⟨RuleName.pattern.number, .ofSlot (any.toNat + 2), any.toNat + 2, any.toNat + 2⟩ =
        targetPart (past m ['\n', '\t']) s (' ' :: '=' :: ' ' :: rest) := by
    simp only [Part.ofPiece, forestNodes_ofSlot_none]
    rw [first]
    rfl
  have sign : Part.ofPiece a.grammar (slotsOf a.grammar stacked tokens)
      (.ofSlot Terminal.equal.number (any.toNat + 3)) =
        signPart a (past (past (past m ['\n', '\t']) s) [' ']) (' ' :: rest) := by
    rw [ofPiece_ofSlot _ _ (by rw [second]; rfl), second]
    rfl
  rw [← target, ← sign]
  rfl

/-- Reading the value of a row, behind its name. -/
theorem covers_assignment (isSource : a.tables = sourceTables) (start : Cursor) {before : List Part}
    (isBase : reachedState a (before ++ body) =
      Grammar.stateAfter a.tables a.startState (opening ++ earlier any))
    {x : Assignment} (plain : x.value.isPlain) {n : Nat} (next : NextRow rest n) (within : n ≤ 8)
    (m : Mark) :
    ∃ statement line : Part, [statement.symbol, line.symbol] = row ∧
      statement.nodes ++ line.nodes = [x.node m rest] ∧ line.stop = ⟨past m x.spell, rest⟩ ∧
      Covers a start (x.value.spell.length + 1)
        (signPart a (past (past m x.name) [' ']) (' ' :: (x.value.spell ++ rest)) ::
          targetPart m x.name (' ' :: '=' :: ' ' :: (x.value.spell ++ rest)) :: (before ++ body))
        rowLayout (line :: statement :: (before ++ body)) rowLayout := by
  let target := targetPart m x.name (' ' :: '=' :: ' ' :: (x.value.spell ++ rest))
  let sign := signPart a (past (past m x.name) [' ']) (' ' :: (x.value.spell ++ rest))
  have reads : ReadsValue a start (before ++ body) (past (past (past m x.name) [' ']) ['=']) rest
      x.value := readsValue_of_isPlain isSource isBase plain next within
  have covers := reads target sign rfl rfl
  have stop : past (past (past (past (past m x.name) [' ']) ['=']) [' ']) x.value.spell =
      past m x.spell := by
    rw [Assignment.spell, past_append, past_append]
    rfl
  rw [stop] at covers
  exact ⟨_, _, rfl, rfl, rfl, covers⟩

/-- A name and a value without peculiarities. -/
def IsPlainRow (x : Assignment) : Prop := isName x.name ∧ x.value.isPlain

theorem rows_cons (x : Assignment) (as : List Assignment) (more : List Char) :
    rows (x :: as) more =
      '\n' :: '\t' :: (x.name ++ ' ' :: '=' :: ' ' :: (x.value.spell ++ rows as more)) := by
  rw [rows, Assignment.spell, List.append_assoc, List.append_assoc]
  rfl

/-- A row takes no more steps than it has characters. -/
theorem steps_le_length (x : Assignment) (as : List Assignment) :
    2 + (x.value.spell.length + 1) + (rows as []).length ≤ (rows (x :: as) []).length := by
  have equals : " = ".toList.length = 3 := rfl
  simp only [rows, Assignment.spell, List.length_cons, List.length_append, equals]
  omega

/-- The next row of a body is indented. -/
theorem nextRow_rows {x : Assignment} (plain : IsPlainRow x) (as : List Assignment) :
    NextRow (rows (x :: as) more) 8 := by
  refine .row true ?_
  have word : isWord x.name := (Bool.and_eq_true _ _ ▸ plain.1).1
  show isSolid (x.spell ++ rows as more)
  rw [Assignment.spell, List.append_assoc, List.append_assoc]
  exact isSolid_word word

theorem exists_nextRow {as : List Assignment} (plain : ∀ x ∈ as, IsPlainRow x)
    (ends : NextRow ('\n' :: more) 0) : ∃ n ≤ 8, NextRow (rows as more) n := by
  cases as with
  | nil => exact ⟨0, Nat.zero_le 8, ends⟩
  | cons x as => exact ⟨8, Nat.le_refl 8, nextRow_rows (plain x List.mem_cons_self) as⟩

/-- Reading the line end behind the last row as the end of the indentation. -/
theorem covers_afterRows (isSource : a.tables = sourceTables)
    (isBase : reachedState a body = Grammar.stateAfter a.tables a.startState opening)
    (ends : NextRow rest 0) (areRows : AreRows any stacked)
    (here : hereBehind start (stacked.reverse ++ body) = ⟨m, rest⟩) :
    ∃ before dedent : Part, [before.symbol, dedent.symbol] = [statements, Terminal.dedent.number] ∧
      before.nodes ++ dedent.nodes = stacked.flatMap (·.nodes) ∧ dedent.stop = ⟨m, rest⟩ ∧
      Covers a start 1 (stacked.reverse ++ body) rowLayout (dedent :: before :: body) {} := by
  have listed : afterRows any ∈ phrases := by cases any <;> simp [phrases]
  have stands : Lexeme.Stand rowLayout [⟨.none, .dedent, []⟩] rest {} :=
    Lexeme.Stand.cons (fun _ => .nil) fun _ => .dedent rfl rfl ends (by decide)
  let token : Token := .spelling .dedent m [] rest
  refine ⟨.ofPiece a.grammar (slotsOf a.grammar stacked [token]) (rowsBefore any),
    .ofToken a.grammar token, rfl, ?_, rfl,
    stands.covers start (holds_of_mem isSource listed) rfl isBase stacked areRows m here
      (show _ = [_, _] from ?_) (Nat.le_refl 1)⟩
  · exact (List.append_nil _).trans (nodes_rowsBefore areRows _)
  · have last := slotsOf_token a.grammar stacked (show [token][0]? = some token from rfl)
    rw [areRows.length_eq] at last
    have dedent : Part.ofPiece a.grammar (slotsOf a.grammar stacked [token])
        (.ofSlot Terminal.dedent.number (any.toNat + 2)) = .ofToken a.grammar token := by
      rw [ofPiece_ofSlot _ _ (by rw [last]; rfl), last]
    rw [← dedent]
    rfl

/-- Reading the rows of a body that are left, and the end of its indentation. -/
theorem covers_rows (isSource : a.tables = sourceTables)
    (isBase : reachedState a body = Grammar.stateAfter a.tables a.startState opening)
    {as : List Assignment} (plain : ∀ x ∈ as, IsPlainRow x) (ends : NextRow ('\n' :: more) 0)
    (areRows : AreRows any stacked)
    (here : hereBehind start (stacked.reverse ++ body) = ⟨m, rows as more⟩) :
    ∃ before dedent : Part, [before.symbol, dedent.symbol] = [statements, Terminal.dedent.number] ∧
      before.nodes ++ dedent.nodes = stacked.flatMap (·.nodes) ++ rowNodes m more as ∧
      dedent.stop = ⟨endOfRows m as, '\n' :: more⟩ ∧
      Covers a start (rows as []).length (stacked.reverse ++ body) rowLayout
        (dedent :: before :: body) {} := by
  -- on the rows that are left; `stacked` holds those that have been read, in one or two parts
  induction as generalizing m any stacked with
  | nil =>
    obtain ⟨before, dedent, symbols, nodes, stop, covers⟩ :=
      covers_afterRows isSource isBase ends areRows here
    exact ⟨before, dedent, symbols, nodes.trans (List.append_nil _).symm, stop, covers⟩
  | cons x as ih =>
    rw [List.forall_mem_cons] at plain
    obtain ⟨⟨name, value⟩, plain⟩ := plain
    obtain ⟨n, within, next⟩ := exists_nextRow plain ends
    rw [rows_cons] at here
    obtain ⟨earlierRows, symbol, nodes, reads⟩ :=
      covers_nextTarget isSource isBase areRows name here
    have state : reachedState a ([earlierRows] ++ body) =
        Grammar.stateAfter a.tables a.startState (opening ++ earlier true) := by
      rw [reachedState_append, isBase, stateAfter_append]
      exact congrArg (Grammar.stateAfter _ _ [·]) symbol
    obtain ⟨statement, line, areRow, rowNode, stop, assigns⟩ :=
      covers_assignment isSource start state value next within
        (past m ['\n', '\t'])
    have areRows' : AreRows true [earlierRows, statement, line] := by
      show earlierRows.symbol :: [statement.symbol, line.symbol] = _
      rw [symbol, areRow]
      rfl
    obtain ⟨before, dedent, symbols, allNodes, last, covers⟩ := ih plain areRows' stop
    refine ⟨before, dedent, symbols, ?_, last, ?_⟩
    · rw [allNodes, rowNodes]
      simp only [List.flatMap_cons, List.flatMap_nil, List.append_nil, nodes, rowNode, List.append_assoc]
      rfl
    · exact ((reads.trans assigns).trans covers).mono (steps_le_length x as)

/-- Reading all rows of a body. -/
theorem covers_body (isSource : a.tables = sourceTables)
    (isBase : reachedState a body = Grammar.stateAfter a.tables a.startState opening)
    {as : List Assignment} (some : as ≠ []) (plain : ∀ x ∈ as, IsPlainRow x)
    (ends : NextRow ('\n' :: more) 0) (here : hereBehind start body = ⟨m, rows as more⟩) :
    ∃ before dedent : Part, [before.symbol, dedent.symbol] = [statements, Terminal.dedent.number] ∧
      before.nodes ++ dedent.nodes = rowNodes m more as ∧
      dedent.stop = ⟨endOfRows m as, '\n' :: more⟩ ∧
      Covers a start (rows as []).length body rowLayout (dedent :: before :: body) {} := by
  obtain ⟨x, as, rfl⟩ := List.exists_cons_of_ne_nil some
  rw [List.forall_mem_cons] at plain
  obtain ⟨⟨name, value⟩, plain⟩ := plain
  obtain ⟨n, within, next⟩ := exists_nextRow plain ends
  rw [rows_cons] at here
  -- no statement stands in front of the first row, so it is read apart from the others
  have reads := covers_firstTarget isSource isBase name here
  have state : reachedState a ([] ++ body) =
      Grammar.stateAfter a.tables a.startState (opening ++ earlier false) := isBase
  obtain ⟨statement, line, areRow, rowNode, stop, assigns⟩ :=
    covers_assignment isSource start state value next within
      (past m ['\n', '\t'])
  have areRows : AreRows false [statement, line] := areRow
  have here : hereBehind start ([statement, line].reverse ++ body) = _ := stop
  obtain ⟨before, dedent, symbols, allNodes, last, covers⟩ :=
    covers_rows isSource isBase plain ends areRows here
  refine ⟨before, dedent, symbols, ?_, last, ?_⟩
  · rw [allNodes, rowNodes]
    simp only [List.flatMap_cons, List.flatMap_nil, List.append_nil, rowNode]
    rfl
  · exact ((reads.trans assigns).trans covers).mono (steps_le_length x as)

end Rows

end ModelAtlas.Source
