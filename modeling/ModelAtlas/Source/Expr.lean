import ModelAtlas.Source.Node

/-!
# Expressions

An expression is read by its shape: literals, displays, calls, and everything else as source text.
-/

namespace ModelAtlas.Source

/-- What a call names as its function. -/
inductive Callee where
  | name (name : String)
  | qualified (qualifier name : String)
  | other
deriving DecidableEq, Repr

/-- A named argument, with the source of its value. -/
structure KeywordOf (α : Type) where
  name : String
  value : α
  text : String
deriving Repr

structure CallOf (α : Type) where
  callee : Callee
  positional : List α
  keywords : List (KeywordOf α)
deriving Repr

inductive Expr where
  /-- A string literal without its quotes; adjacent literals are joined. -/
  | str (content : String)
  | list (items : List Expr)
  | tuple (items : List Expr)
  | bool (value : Bool)
  | call (call : CallOf Expr)
  /-- Anything else, as written. -/
  | other (source : String)
deriving Repr, Inhabited

abbrev Keyword := KeywordOf Expr
abbrev Call := CallOf Expr

/-- The first argument of that name. -/
def CallOf.keyword (call : Call) (name : String) : Option Keyword :=
  call.keywords.find? (·.name == name)

namespace Expr

def str? : Expr → Option String
  | .str content => some content
  | _ => none

def bool? : Expr → Option Bool
  | .bool value => some value
  | _ => none

/-- The elements of a list or a tuple. -/
def elements? : Expr → Option (List Expr)
  | .list items | .tuple items => some items
  | _ => none

end Expr

/-! ### From nodes -/

namespace Node

/-- The contents of a string literal without replacement fields. -/
def content? (n : Node) : Option String :=
  let hasFields := n.children.any fun c =>
    c.kind == "interpolation" ||
      (c.kind == "string_start" && c.text.toList.any fun x => x == 'f' || x == 'F')
  if n.kind != "string" || hasFields then none
  else some (String.join ((n.children.filter (·.kind == "string_content")).map text))

/-- `name` or `qualifier.name`. -/
def callee (n : Node) : Callee :=
  if n.is "identifier" then .name n.text
  else if n.is "attribute" then
    match n.child? "object", n.child? "attribute" with
    | some object, some name =>
      if object.is "identifier" then .qualified object.text name.text else .other
    | _, _ => .other
  else .other

/-- The arguments of a call. A generator in place of them has none. -/
def arguments (n : Node) : List Node :=
  match n.child? "arguments" with
  | some list => if list.is "argument_list" then list.parts else []
  | none => []

/-- A named argument: its name and its value. -/
def keyword? (n : Node) : Option (Node × Node) := do
  if n.is "keyword_argument" then some (← n.child? "name", ← n.child? "value") else none

/-- An argument that spreads another value. -/
def isSpread (n : Node) : Bool := n.is "list_splat" || n.is "dictionary_splat"

end Node

namespace Expr

/-- Reads a node whose nodes are nested less deep than the first argument. -/
def read : Nat → Node → Expr
  | 0, n => .other n.text
  | fuel + 1, n =>
    if n.is "string" then
      match n.content? with
      | some content => .str content
      | none => .other n.text
    else if n.is "concatenated_string" then
      match n.parts.mapM Node.content? with
      | some contents => .str (String.join contents)
      | none => .other n.text
    else if n.is "parenthesized_expression" then
      match n.parts.head? with
      | some inner => read fuel inner
      | none => .other n.text
    else if n.is "list" then .list (n.parts.map (read fuel))
    else if n.is "tuple" then .tuple (n.parts.map (read fuel))
    else if n.is "true" then .bool true
    else if n.is "false" then .bool false
    else if n.is "call" then
      .call {
        callee := ((n.child? "function").map Node.callee).getD .other
        positional := (n.arguments.filter fun a =>
          !a.is "keyword_argument" && !a.isSpread).map (read fuel)
        keywords := (n.arguments.filterMap Node.keyword?).map fun (name, value) =>
          { name := name.text, value := read fuel value, text := value.text } }
    else .other n.text

/-- The expression that a node spells. -/
def ofNode (n : Node) : Expr := read n.depth n

end Expr

end ModelAtlas.Source
