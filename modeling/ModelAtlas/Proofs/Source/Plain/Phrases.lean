import ModelAtlas.Proofs.Source.Grammar.Phrases

/-!
# Phrases of plain sources

What the grammar of source files makes of the terminals that plain sources are made of. Each phrase
goes on where others end, so together they lead through every plain source. What is said here about
the grammar is found by working its states out once (`plain_phrases`).
-/

namespace ModelAtlas.Source.Grammar

namespace Forest

/-- The nodes of a slot. -/
def ofSlot (i : Nat) (field : Option Field := none) : Forest := .slot i field .nil

def concat (forests : List Forest) : Forest := forests.foldr append nil

/-- A node of a rule, which starts with one slot and stops with another. -/
def ofRule (rule : RuleName) (field : Option Field) (first last : Nat) (below : List Forest) : Forest :=
  .node rule.number field first last (concat below) .nil

end Forest

namespace Plain

open Terminal
open Forest (ofSlot ofRule concat)

/-! ### Symbols -/

/-- Statements one behind the other. -/
def statements : Nat := bodyNumber sourceRules.bodies (.ref .statement)

/-- The elements of a display behind the first, each behind its comma. -/
def further : Nat :=
  bodyNumber sourceRules.bodies (.seq comma (Rule.oneOf [.ref .expression, .ref .yield,
    .ref .listSplat, .ref .parenthesizedListSplat]))

/-- What stands in front of a statement of a body: other statements, or none. -/
def earlier (any : Bool) : List Nat := if any then [statements] else []

/-- The nodes of the first slots. -/
def firstSlots (n : Nat) : List Forest := (List.range n).map fun i => ofSlot i

/-- A class up to where its statements begin. -/
def opening : List Nat :=
  [classWord.number, identifier.number, RuleName.argumentList.number, colon.number, indent.number]

/-- An assignment up to where its value begins. -/
def target : List Nat := [RuleName.pattern.number, equal.number]

/-- A statement in a row of its own. -/
def row : List Nat := [RuleName.expressionStatement.number, newline.number]

/-- A class with all its statements. -/
def wholeClass : List Nat := opening ++ [statements, dedent.number]

/-! ### Classes -/

/-- The node of a class whose slots begin with a number. -/
def classNode (k : Nat) : Forest :=
  ofRule .classDefinition none k (k + 6) [ofSlot k, ofSlot (k + 1) (some .name),
    ofSlot (k + 2) (some .superclasses), ofSlot (k + 3), ofSlot (k + 4) (some .body),
    ofRule .block (some .body) (k + 5) (k + 6) [ofSlot (k + 5), ofSlot (k + 6)]]

def firstClass : Phrase where
  base := []
  stack := []
  terminals := [classWord]
  result := [.ofSlot classWord.number 0]

/-- Where a class begins, the one before becomes one of the statements. -/
def nextClass (any : Bool) : Phrase where
  base := []
  stack := earlier any ++ wholeClass
  terminals := [classWord]
  result := [⟨statements, concat (firstSlots any.toNat ++ [classNode any.toNat]), 0, any.toNat + 6⟩,
    .ofSlot classWord.number (any.toNat + 7)]

/-- A name, a qualified base in parentheses, and the indentation of the body. -/
def heading : Phrase where
  base := [classWord.number]
  stack := []
  terminals := [identifier, openParen, identifier, dot, identifier, closeParen, colon, indent]
  result := [.ofSlot identifier.number 0,
    ⟨RuleName.argumentList.number, ofRule .argumentList none 1 5 [ofSlot 1,
      ofRule .attributeAccess none 2 4 [ofSlot 2 (some .object), ofSlot 3, ofSlot 4 (some .member)],
      ofSlot 5], 1, 5⟩,
    .ofSlot colon.number 6, .ofSlot indent.number 7]

/-! ### Rows -/

def firstRow : Phrase where
  base := opening
  stack := []
  terminals := [identifier, equal]
  result := [⟨RuleName.pattern.number, ofSlot 0, 0, 0⟩, .ofSlot equal.number 1]

/-- The statements up to the row before. -/
def rowsBefore (any : Bool) : Piece :=
  ⟨statements, concat (firstSlots (any.toNat + 2)), 0, any.toNat + 1⟩

def nextRow (any : Bool) : Phrase where
  base := opening
  stack := earlier any ++ row
  terminals := [identifier, equal]
  result := [rowsBefore any,
    ⟨RuleName.pattern.number, ofSlot (any.toNat + 2), any.toNat + 2, any.toNat + 2⟩,
    .ofSlot equal.number (any.toNat + 3)]

def afterRows (any : Bool) : Phrase where
  base := opening
  stack := earlier any ++ row
  terminals := [dedent]
  result := [rowsBefore any, .ofSlot dedent.number (any.toNat + 2)]

/-! ### Values -/

/-- An assignment whose value ends with a slot, and the line end behind it. -/
def assigned (last : Nat) (value : Forest) : List Piece :=
  [⟨RuleName.expressionStatement.number, ofRule .expressionStatement none 0 last
    [ofRule .assignment none 0 last [ofSlot 0 (some .left), ofSlot 1, value]], 0, last⟩,
    .ofSlot newline.number (last + 1)]

/-- The terminals of a string, with text in it or without. -/
def stringTerminals (text : Bool) : List Terminal :=
  if text then [stringStart, stringText, stringEnd] else [stringStart, stringEnd]

/-- The node of a string whose slots begin with a number. -/
def stringNode (field : Option Field) (text : Bool) (k : Nat) : Forest :=
  if text then
    ofRule .string field k (k + 2)
      [ofSlot k, ofRule .stringContent none (k + 1) (k + 1) [ofSlot (k + 1)], ofSlot (k + 2)]
  else ofRule .string field k (k + 1) [ofSlot k, ofSlot (k + 1)]

def stringValue (any text : Bool) : Phrase where
  base := opening ++ earlier any
  stack := target
  terminals := stringTerminals text ++ [newline]
  result := assigned (text.toNat + 3) (stringNode (some .right) text 2)

/-- A call of a qualified name without arguments. -/
def callValue (any : Bool) : Phrase where
  base := opening ++ earlier any
  stack := target
  terminals := [identifier, dot, identifier, openParen, closeParen, newline]
  result := assigned 6 (ofRule .call (some .right) 2 6 [
    ofRule .attributeAccess (some .function) 2 4
      [ofSlot 2 (some .object), ofSlot 3, ofSlot 4 (some .member)],
    ofRule .argumentList (some .arguments) 5 6 [ofSlot 5, ofSlot 6]])

def listOpening (any : Bool) : Phrase where
  base := opening ++ earlier any
  stack := target
  terminals := [openBracket]
  result := [.ofSlot RuleName.pattern.number 0, .ofSlot equal.number 1, .ofSlot openBracket.number 2]

/-- A list that has been read up to its closing bracket, without elements or with some. -/
def listClosing (any elements : Bool) : Phrase where
  base := opening ++ earlier any
  stack := target ++ [openBracket.number] ++
    (if elements then [RuleName.collectionElements.number] else []) ++ [closeBracket.number]
  terminals := [newline]
  result :=
    if elements then assigned 4 (ofRule .list (some .right) 2 4 [ofSlot 2, ofSlot 3, ofSlot 4])
    else assigned 3 (ofRule .list (some .right) 2 3 [ofSlot 2, ofSlot 3])

/-! ### Elements -/

/-- A list up to its first element. -/
def bracketed (any : Bool) : List Nat := opening ++ earlier any ++ target ++ [openBracket.number]

def noElements : Phrase where
  base := bracketed false
  stack := []
  terminals := [closeBracket]
  result := [.ofSlot closeBracket.number 0]

/-- How many elements stand in front of another. -/
inductive Before where
  | none
  | one
  | more
deriving DecidableEq

namespace Before

/-- The elements in front of another, with the comma behind them. -/
def symbols : Before → List Nat
  | .none => []
  | .one => [RuleName.expression.number, comma.number]
  | .more => [RuleName.expression.number, further, comma.number]

/-- One more. -/
def next : Before → Before
  | .none => .one
  | _ => .more

end Before

/-- An element, and the comma or the bracket behind it. -/
def element (before : Before) (text last : Bool) : Phrase :=
  let k := before.symbols.length
  let stop := k + text.toNat + 1
  let string := stringNode none text k
  let nodes (first : Nat) := concat (((List.range k).drop first).map ofSlot ++ [string])
  { base := bracketed false
    stack := before.symbols
    terminals := stringTerminals text ++ [if last then closeBracket else comma]
    result :=
      if last then [⟨RuleName.collectionElements.number, nodes 0, 0, stop⟩,
        .ofSlot closeBracket.number (stop + 1)]
      else if before = .none then [⟨RuleName.expression.number, nodes 0, k, stop⟩,
        .ofSlot comma.number (stop + 1)]
      else [.ofSlot RuleName.expression.number 0, ⟨further, nodes 1, 1, stop⟩,
        .ofSlot comma.number (stop + 1)] }

/-! ### The end -/

/-- The node of a source that ends with a class. -/
def sourcePiece (any : Bool) : Piece :=
  ⟨RuleName.source.number, ofRule .source none 0 (any.toNat + 6)
    (firstSlots any.toNat ++ [classNode any.toNat]), 0, any.toNat + 6⟩

/-- What becomes of a source that ends with a class. -/
def closed (t : Tables) (any : Bool) : Option Piece :=
  let r := putAll t t.startState 0 [] (earlier any ++ wholeClass)
  if seen t (topOf t.startState r) endOfSource then close t t.startState feedLimit r else none

/-- Whether a source may be empty: it is made of no symbol. -/
def mayBeEmpty (t : Tables) : Bool :=
  !t.startState.isEmpty && seen t t.startState endOfSource &&
    match t.actionsIn t.startState endOfSource.number with
    | [.reduce w] =>
      w.symbol == RuleName.source.number && t.grammar.isShown w.symbol &&
        (t.grammar.production? w).any (·.steps.isEmpty) &&
        !(t.goto t.startState w.symbol).isEmpty &&
        t.actionsIn (t.goto t.startState w.symbol) endOfSource.number == [.accept]
    | _ => false

/-! ### The certificate -/

def sourceTables : Tables := .ofProductions (.ofRules sourceRules) [.comment, .joint]

def phrases : List Phrase :=
  [firstClass, heading, firstRow, noElements] ++
    [false, true].flatMap fun b => [nextClass b, nextRow b, afterRows b, stringValue b false,
      stringValue b true, callValue b, listOpening b, listClosing b false, listClosing b true] ++
      [Before.none, .one, .more].flatMap fun before => [element before b false, element before b true]

def Holds (t : Tables) (p : Phrase) : Prop := p.outcome t = some p.result

instance (t : Tables) (p : Phrase) : Decidable (Holds t p) := inferInstanceAs (Decidable (_ = _))

/-- What stands in front of a class or of a list does not matter to what follows. -/
def Settled (t : Tables) : Prop :=
  stateAfter t t.startState [statements, classWord.number] =
      stateAfter t t.startState [classWord.number] ∧
    stateAfter t t.startState (bracketed true) = stateAfter t t.startState (bracketed false)

instance (t : Tables) : Decidable (Settled t) := inferInstanceAs (Decidable (_ ∧ _))

/-- What the states of the grammar say of plain sources. It is one statement, so that the tables of the
grammar are worked out once. -/
theorem plain_phrases : (∀ p ∈ phrases, Holds sourceTables p) ∧
    (∀ b, closed sourceTables b = some (sourcePiece b)) ∧ mayBeEmpty sourceTables = true ∧
    Settled sourceTables := by
  decide +kernel

end Plain

end ModelAtlas.Source.Grammar
