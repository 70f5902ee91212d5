import ModelAtlas.Proofs.Source.Plain.Nodes
import ModelAtlas.Proofs.Source.Plain.Texts

/-!
# Reading plain strings and calls

How a session reads an assignment from its equals sign on (`ReadsValue`), where the value is a string
or a call.
-/

namespace ModelAtlas.Source

open Grammar (Terminal RuleName Automaton Forest)
open Grammar.Plain
open Parse Plain

/-- The layout of a class body. -/
def rowLayout : Layout := { indents := [8, 0] }

/-- The part of an assignment whose value has been read. -/
def statementPart (target sign : Part) (value : Node) (stop : Cursor) : Part where
  symbol := RuleName.expressionStatement.number
  nodes := [.mk "expression_statement" true none target.start stop.mark [
    .mk "assignment" true none target.start stop.mark
      (target.nodes.map (.under "left") ++ sign.nodes ++ [value])]]
  start := target.start
  stop := stop

section Values

variable {a : Automaton} {start : Cursor} {m : Mark} {rest : List Char} {n : Nat}
variable {under : List Part} {target sign : Part} {any : Bool}

theorem holds_of_mem (isSource : a.tables = sourceTables) {p : Grammar.Phrase} (listed : p ∈ phrases) :
    p.outcome a.tables = some p.result := by
  rw [isSource]
  exact plain_phrases.1 p listed

theorem grammar_eq (isSource : a.tables = sourceTables) :
    a.grammar = .ofRules Grammar.sourceRules :=
  congrArg Grammar.Tables.grammar isSource

/-- What an assignment becomes when its line ends. -/
theorem ofPiece_assigned (isSource : a.tables = sourceTables) {slots : Nat → Part} {last : Nat}
    {value : Forest} {node : Node} (isTarget : slots 0 = target) (isSign : slots 1 = sign)
    (isValue : forestNodes a.grammar slots value = [node]) {stop : Cursor}
    (ends : (slots last).stop = stop) {token : Token}
    (isNewline : slots (last + 1) = .ofToken a.grammar token) (terminal : token.terminal = .newline) :
    ((assigned last value).map (.ofPiece a.grammar slots)).reverse =
      [.ofToken a.grammar token, statementPart target sign node stop] := by
  have newline : Part.ofPiece a.grammar slots (.ofSlot Terminal.newline.number (last + 1)) =
      .ofToken a.grammar token := by
    rw [ofPiece_ofSlot _ _ (by rw [isNewline, Part.ofToken, terminal]), isNewline]
  simp only [assigned, List.map_cons, List.map_nil, List.reverse_cons, List.reverse_nil,
    List.nil_append, List.cons_append, newline]
  simp only [Part.ofPiece, forestNodes_ofRule, List.flatMap_cons, List.flatMap_nil, List.append_nil,
    forestNodes_ofSlot_none, forestNodes_ofSlot 0 (some .left), isValue, isTarget, isSign, ends,
    kindOf_rule (grammar_eq isSource), ← List.append_assoc]
  rfl

/-- The node of a string is made of the slots of its tokens. -/
theorem forestNodes_stringNode (isSource : a.tables = sourceTables) (stacked : List Part)
    (field : Option Grammar.Field) (m : Mark) (gap : Gap) (s : List Char) (ls : List Lexeme)
    (rest : List Char) :
    forestNodes a.grammar
        (slotsOf a.grammar stacked (Lexeme.tokens m (Lexeme.ofString gap s ++ ls) rest))
        (Grammar.Plain.stringNode field (!s.isEmpty) stacked.length) =
      [Plain.stringNode (field.map (·.text)) (past m gap.chars) s (Lexeme.spell ls rest)] := by
  have kinds := kindOf_rule (grammar_eq isSource)
  generalize isTokens : Lexeme.tokens m (Lexeme.ofString gap s ++ ls) rest = tokens
  have slot (i : Nat) (token : Token) (found : tokens[i]? = some token) :=
    slotsOf_token a.grammar stacked found
  cases s with
  | nil =>
    have first := slot 0 _ (by rw [← isTokens]; rfl)
    have second := slot 1 _ (by rw [← isTokens]; rfl)
    simp only [Grammar.Plain.stringNode, List.isEmpty_nil, Bool.not_true, Bool.false_eq_true, if_false,
      forestNodes_ofRule, List.flatMap_cons, List.flatMap_nil, forestNodes_ofSlot_none, kinds]
    rw [Nat.add_zero] at first
    rw [first, second]
    rfl
  | cons c s =>
    have first := slot 0 _ (by rw [← isTokens]; rfl)
    have second := slot 1 _ (by rw [← isTokens]; rfl)
    have third := slot 2 _ (by rw [← isTokens]; rfl)
    simp only [Grammar.Plain.stringNode, List.isEmpty_cons, Bool.not_false, if_true,
      forestNodes_ofRule, List.flatMap_cons, List.flatMap_nil, forestNodes_ofSlot_none, kinds]
    rw [Nat.add_zero] at first
    rw [first, second, third]
    rfl

theorem past_quoted (m : Mark) (s : List Char) :
    past m (quoted s) = past (past (past m ['\'']) s) ['\''] :=
  past_append (past m ['\'']) s ['\'']

/-- Reading the value of an assignment, up to the end of its line. -/
def ReadsValue (a : Automaton) (start : Cursor) (under : List Part) (m : Mark)
    (rest : List Char) (v : Value) : Prop :=
  ∀ target sign : Part, [target.symbol, sign.symbol] = Grammar.Plain.target →
    sign.stop = ⟨m, ' ' :: (v.spell ++ rest)⟩ →
    let stop := past (past m [' ']) v.spell
    Covers a start (v.spell.length + 1) (sign :: target :: under) rowLayout
      (.ofToken a.grammar (.spelling .newline stop [] rest) ::
        statementPart target sign (v.node (some "right") (past m [' ']) rest) ⟨stop, rest⟩ :: under)
      rowLayout

theorem readsValue_str (isSource : a.tables = sourceTables)
    (isBase : reachedState a under =
      Grammar.stateAfter a.tables a.startState (opening ++ earlier any)) {s : List Char}
    (text : s.all isTextChar) (next : NextRow rest n) (within : n ≤ 8) :
    ReadsValue a start under m rest (.str s) := by
  intro target sign isTarget here
  let ls := Lexeme.ofString .space s ++ [⟨.none, .newline, []⟩]
  have stands : Lexeme.Stand rowLayout ls rest rowLayout :=
    .string rfl rfl rfl text next.head?_all (Lexeme.Stand.cons (fun _ => .nil) fun _ =>
      .newline rfl next within)
  have listed : stringValue any (!s.isEmpty) ∈ phrases := by
    cases any <;> cases s.isEmpty <;> simp [phrases]
  have terminals : ls.map (·.terminal) = (stringValue any (!s.isEmpty)).terminals := by
    cases s <;> rfl
  have value := forestNodes_stringNode isSource [target, sign] (some .right) m .space s
    [⟨.none, .newline, []⟩] rest
  have few : ls.length ≤ (quoted s).length + 1 := by
    cases s <;> simp [ls, Lexeme.ofString, quoted]
  have ends : past (past m [' ']) (quoted s) = Lexeme.behind m ls := by
    rw [past_quoted]
    cases s <;> rfl
  exact stands.covers start (holds_of_mem isSource listed) terminals isBase [target, sign] isTarget m
    (here.trans (by rw [Lexeme.spell_ofString]; rfl))
    (ofPiece_assigned isSource rfl rfl value (by simp only [Value.spell, ends]; cases s <;> rfl)
      (by simp only [Value.spell, ends]; cases s <;> rfl) rfl) few

theorem readsValue_call (isSource : a.tables = sourceTables)
    (isBase : reachedState a under =
      Grammar.stateAfter a.tables a.startState (opening ++ earlier any)) {qualifier name : List Char}
    (isQualifier : isName qualifier) (isName : isName name) (next : NextRow rest n) (within : n ≤ 8) :
    ReadsValue a start under m rest (.call qualifier name) := by
  intro target sign isTarget here
  let ls : List Lexeme := [⟨.space, .identifier, qualifier⟩, ⟨.none, .dot, ['.']⟩,
    ⟨.none, .identifier, name⟩, ⟨.none, .openParen, ['(']⟩, ⟨.none, .closeParen, [')']⟩,
    ⟨.none, .newline, []⟩]
  have stands : Lexeme.Stand rowLayout ls rest rowLayout :=
    .name rfl nofun isQualifier rfl (by decide) <|
    .sign (.dot, '.') rfl rfl (by decide) (endsSign_name isName _) <|
    .name rfl nofun isName rfl (by decide) <|
    .sign (.openParen, '(') rfl rfl (by decide) rfl <|
    .sign (.closeParen, ')') rfl rfl (by decide) next.endsSign <|
    Lexeme.Stand.cons (fun _ => .nil) fun _ => .newline rfl next within
  have listed : callValue any ∈ phrases := by cases any <;> simp [phrases]
  have spelled : (Value.call qualifier name).spell =
      qualifier ++ '.' :: (name ++ ['(', ')']) := by simp [Value.spell]
  have few : ls.length ≤ (Value.call qualifier name).spell.length + 1 := by
    have some := length_pos_of_isName isQualifier
    have other := length_pos_of_isName isName
    simp only [spelled, ls, List.length_append, List.length_cons, List.length_nil]
    omega
  have ends : past (past m [' ']) (Value.call qualifier name).spell = Lexeme.behind m ls := by
    rw [Lexeme.behind_eq, spelled]
    rfl
  have value : forestNodes a.grammar (slotsOf a.grammar [target, sign] (Lexeme.tokens m ls rest))
      (.ofRule .call (some .right) 2 6 [
        .ofRule .attributeAccess (some .function) 2 4
          [.ofSlot 2 (some .object), .ofSlot 3, .ofSlot 4 (some .member)],
        .ofRule .argumentList (some .arguments) 5 6 [.ofSlot 5, .ofSlot 6]]) =
      [callNode (some "right") (past m [' ']) qualifier name rest] := by
    simp only [forestNodes_ofRule, List.flatMap_cons, List.flatMap_nil, forestNodes_ofSlot,
      kindOf_rule (grammar_eq isSource)]
    rfl
  have text : ' ' :: ((Value.call qualifier name).spell ++ rest) = Lexeme.spell ls rest := by
    rw [Lexeme.spell_eq, spelled]
    rfl
  exact stands.covers start (holds_of_mem isSource listed) rfl isBase [target, sign] isTarget m
    (here.trans (congrArg _ text)) (ofPiece_assigned isSource rfl rfl value
      (by rw [ends]; rfl) (by rw [ends]; rfl) rfl) few

end Values

end ModelAtlas.Source
