import ModelAtlas.Proofs.Source.Plain.Passages
import ModelAtlas.Proofs.Source.Plain.Phrases
import ModelAtlas.Source.Declaration

/-!
# Nodes of plain sources

The nodes that the forests of phrases stand for (`forestNodes_ofRule`), and the nodes of plain values
and rows, as they follow from their spelling.
-/

namespace ModelAtlas.Source

open Grammar (Terminal RuleName Productions Forest sourceRules)
open Parse

/-! ### Nodes of forests -/

section Forests

variable {g : Productions} {slots : Nat → Part}

theorem ofNumber?_rule (rule : RuleName) : Terminal.ofNumber? rule.number = none :=
  if_neg (Nat.not_lt.mpr (Nat.le_add_right _ _))

theorem isNamed_rule (rule : RuleName) : Productions.isNamed rule.number = true := by
  rw [Productions.isNamed, ofNumber?_rule]
  rfl

/-- The kind that the grammar of source files gives to a rule. -/
def ruleKind (rule : RuleName) : String :=
  ((sourceRules.definitions[rule.ctorIdx]?).map (·.kind)).getD ""

theorem kindOf_rule (isSource : g = .ofRules sourceRules) (rule : RuleName) :
    g.kindOf rule.number = ruleKind rule := by
  have index : rule.number - Terminal.count = rule.ctorIdx := Nat.add_sub_cancel_left _ _
  rw [isSource, Productions.kindOf, ofNumber?_rule, Productions.nonterminal?, index]
  simp only [Productions.ofRules, List.getElem?_toArray, List.getElem?_append, List.length_map,
    List.getElem?_map]
  split
  case isTrue inside =>
    rw [ruleKind, Option.map_map]
    rfl
  case isFalse outside =>
    -- only repeated bodies are numbered behind the rules, and they have no kind
    rw [ruleKind, List.getElem?_eq_none (Nat.le_of_not_lt outside)]
    cases sourceRules.bodies[rule.ctorIdx - sourceRules.definitions.length]? <;> rfl

theorem forestNodes_ofSlot (i : Nat) (field : Option Grammar.Field) :
    forestNodes g slots (.ofSlot i field) = (slots i).nodes.map (.under (field.map (·.text))) :=
  List.append_nil _

theorem forestNodes_ofSlot_none (i : Nat) :
    forestNodes g slots (.ofSlot i none) = (slots i).nodes := by
  rw [forestNodes_ofSlot, Option.map_none, Node.map_under_none]

theorem forestNodes_concat (forests : List Forest) :
    forestNodes g slots (.concat forests) = forests.flatMap (forestNodes g slots) := by
  induction forests with
  | nil => rfl
  | cons f forests ih =>
    rw [List.flatMap_cons, ← ih]
    exact forestNodes_append g slots f _

theorem forestNodes_slots (indices : List Nat) (last : Forest) :
    forestNodes g slots (.concat (indices.map (fun i => .ofSlot i) ++ [last])) =
      indices.flatMap (fun i => (slots i).nodes) ++ forestNodes g slots last := by
  simp only [forestNodes_concat, List.flatMap_append, List.flatMap_map, forestNodes_ofSlot_none,
    List.flatMap_singleton]

/-- The nodes of the first slots are those of the stack. -/
theorem forestNodes_firstSlots (stacked : List Part) (tokens : List Token) :
    forestNodes g (slotsOf g stacked tokens) (.concat (Grammar.Plain.firstSlots stacked.length)) =
      stacked.flatMap (·.nodes) := by
  rw [forestNodes_concat, Grammar.Plain.firstSlots, List.flatMap_map]
  simp only [forestNodes_ofSlot_none]
  rw [← List.flatMap_map (f := slotsOf g stacked tokens) (g := Part.nodes), map_slotsOf_range]

theorem forestNodes_ofRule (rule : RuleName) (field : Option Grammar.Field) (first last : Nat)
    (below : List Forest) : forestNodes g slots (.ofRule rule field first last below) =
      [.mk (g.kindOf rule.number) true (field.map (·.text)) (slots first).start (slots last).stop.mark
        (below.flatMap (forestNodes g slots))] := by
  rw [← forestNodes_concat, ← isNamed_rule rule]
  rfl

end Forests

/-! ### Nodes of tokens -/

/-- The node of a token that shows. -/
def Token.node (t : Token) (field : Option String := none) : Node :=
  .mk t.terminal.form.kind t.terminal.form.named field t.start t.stop.mark []

namespace Plain

/-! ### Nodes of values -/

/-- The node of a string whose quotation mark stands at a mark. -/
def stringNode (field : Option String) (m : Mark) (s rest : List Char) : Node :=
  let opening := Token.spelling .stringStart m ['\''] (s ++ '\'' :: rest)
  let text := Token.spelling .stringText (past m ['\'']) s ('\'' :: rest)
  let closing := Token.spelling .stringEnd (past (past m ['\'']) s) ['\''] rest
  let content := Node.mk "string_content" true none text.start text.stop.mark []
  .mk "string" true field opening.start closing.stop.mark
    (opening.node :: (if s.isEmpty then [] else [content]) ++ [closing.node])

/-- The node of a qualified name. -/
def qualifiedNode (field : Option String) (m : Mark) (qualifier name rest : List Char) : Node :=
  let object := Token.spelling .identifier m qualifier ('.' :: (name ++ rest))
  let dot := Token.spelling .dot (past m qualifier) ['.'] (name ++ rest)
  let member := Token.spelling .identifier (past (past m qualifier) ['.']) name rest
  .mk "attribute" true field object.start member.stop.mark
    [object.node "object", dot.node, member.node "attribute"]

/-- The node of a call of a qualified name without arguments. -/
def callNode (field : Option String) (m : Mark) (qualifier name rest : List Char) : Node :=
  let here := past (past (past m qualifier) ['.']) name
  let opening := Token.spelling .openParen here ['('] (')' :: rest)
  let closing := Token.spelling .closeParen (past here ['(']) [')'] rest
  let function := qualifiedNode "function" m qualifier name ('(' :: ')' :: rest)
  .mk "call" true field function.start closing.stop.mark
    [function, .mk "argument_list" true "arguments" opening.start closing.stop.mark
      [opening.node, closing.node]]

/-- The nodes of strings with commas between. -/
def elementNodes (m : Mark) (rest : List Char) : List (List Char) → List Node
  | [] => []
  | [s] => [stringNode none m s rest]
  | s :: next :: others =>
    let behind := past m (quoted s)
    let text := enumerated (next :: others) ++ rest
    stringNode none m s (", ".toList ++ text) ::
      (Token.spelling .comma behind [','] (' ' :: text)).node ::
      elementNodes (past behind ", ".toList) rest (next :: others)

def listNode (field : Option String) (m : Mark) (contents : List (List Char)) (rest : List Char) :
    Node :=
  let opening := Token.spelling .openBracket m ['['] (enumerated contents ++ ']' :: rest)
  let closing := Token.spelling .closeBracket (past (past m ['[']) (enumerated contents)) [']'] rest
  .mk "list" true field opening.start closing.stop.mark
    (opening.node :: elementNodes (past m ['[']) (']' :: rest) contents ++ [closing.node])

def Value.node (field : Option String) (m : Mark) (rest : List Char) : Value → Node
  | .str content => stringNode field m content rest
  | .list contents => listNode field m contents rest
  | .call qualifier name => callNode field m qualifier name rest

/-! ### Nodes of classes -/

/-- The node of an assignment. -/
def Assignment.node (m : Mark) (a : Assignment) (rest : List Char) : Node :=
  let name := Token.spelling .identifier m a.name (" = ".toList ++ (a.value.spell ++ rest))
  let sign := Token.spelling .equal (past (past m a.name) [' ']) ['='] (' ' :: (a.value.spell ++ rest))
  let stop := past m a.spell
  .mk "expression_statement" true none name.start stop [
    .mk "assignment" true none name.start stop [name.node "left", sign.node,
      a.value.node "right" (past (past m a.name) " = ".toList) rest]]

/-- What stands behind the header of a class: a row for each assignment, and other classes. -/
def rows (as : List Assignment) (more : List Char) : List Char :=
  match as with
  | [] => '\n' :: more
  | a :: as => '\n' :: '\t' :: (a.spell ++ rows as more)

/-- The nodes of the rows behind a mark. -/
def rowNodes (m : Mark) (more : List Char) : List Assignment → List Node
  | [] => []
  | a :: as =>
    let start := past m ['\n', '\t']
    a.node start (rows as more) :: rowNodes (past start a.spell) more as

/-- Where the rows behind a mark end. -/
def endOfRows (m : Mark) : List Assignment → Mark
  | [] => m
  | a :: as => endOfRows (past (past m ['\n', '\t']) a.spell) as

end Plain

end ModelAtlas.Source
