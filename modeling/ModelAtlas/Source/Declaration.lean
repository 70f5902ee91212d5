import ModelAtlas.Source.Expr
import ModelAtlas.Text.Blank

/-!
# Declarations

Classes and functions as a source declares them: the names and bases of a class, the assignments and
functions of its body, the parameters of a function, and docstrings.
-/

namespace ModelAtlas.Source

/-- How a class names one of its bases. -/
inductive Base where
  | name (name : String)
  | qualified (qualifier name : String)
  /-- A call that starts with `qualifier.name`. -/
  | call (qualifier name : String)
  | other
deriving DecidableEq, Repr

/-- An assignment in a class body. -/
structure Attribute where
  name : String
  value : Expr
  range : Range
deriving Repr

structure FunctionDecl where
  name : String
  /-- Every parameter as written, without annotation and default. -/
  parameters : List String
  /-- The source behind each `@`. -/
  decorators : List String
  docstring : Option String
  range : Range
deriving Repr

structure ClassDecl where
  name : String
  nameRange : Range
  span : Span
  bases : List Base
  attributes : List Attribute
  methods : List FunctionDecl
  docstring : Option String
deriving Repr

namespace ClassDecl

def range (c : ClassDecl) : Range := c.span.range
def bytes (c : ClassDecl) : ByteRange := c.span.bytes

/-- The last assignment to a name. -/
def assigned (c : ClassDecl) (name : String) : Option Attribute :=
  c.attributes.reverse.find? (·.name == name)

end ClassDecl

/-! ### Bodies -/

namespace Node

/-- The assignment that a statement consists of: its name and its value. -/
def attribute? (statement : Node) : Option Attribute := do
  let first ← statement.namedChildren.head?
  let assignment ← if statement.is "expression_statement" then some first else none
  if assignment.is "assignment" then
    let left ← assignment.child? "left"
    let right ← assignment.child? "right"
    if left.is "identifier" then
      return { name := left.text, value := Expr.ofNode right, range := assignment.range }
    else none
  else none

/-- The string literal that a body starts with. -/
def docstring (body : Node) : Option String := do
  let first ← body.parts.head?
  let item ← if first.is "expression_statement" then first.namedChildren.head? else none
  (Expr.ofNode item).str?.map Text.trim

/-! ### Functions -/

/-- The name of a parameter. A bare `*` or `/` has none. -/
def parameter? (n : Node) : Option String :=
  if ["identifier", "list_splat_pattern", "dictionary_splat_pattern"].any n.is then some n.text
  else if n.is "typed_parameter" then n.namedChildren.head?.map text
  else if n.is "default_parameter" || n.is "typed_default_parameter" then
    (n.child? "name").map text
  else none

def function (decorators : List String) (n : Node) : FunctionDecl where
  name := ((n.child? "name").map text).getD ""
  parameters := ((n.child? "parameters").map fun ps => ps.parts.filterMap parameter?).getD []
  decorators := decorators
  docstring := (n.child? "body").bind docstring
  range := n.range

/-- The function that a statement of a class body defines. -/
def function? (statement : Node) : Option FunctionDecl :=
  if statement.is "function_definition" then some (statement.function [])
  else if statement.is "decorated_definition" then do
    let definition ← statement.child? "definition"
    let decorators := (statement.parts.filter (·.is "decorator")).filterMap
      fun d => d.namedChildren.head?.map text
    if definition.is "function_definition" then some (definition.function decorators) else none
  else none

/-! ### Classes -/

/-- The `qualifier.name` that a chain of attributes of some depth starts with. -/
def chainHead : Nat → Node → Option (String × String)
  | 0, _ => none
  | fuel + 1, n =>
    match n.callee with
    | .qualified qualifier name => some (qualifier, name)
    | .name _ => none
    | .other => if n.is "attribute" then (n.child? "object").bind (chainHead fuel) else none

def base (n : Node) : Base :=
  if n.is "call" then
    match (n.child? "function").bind fun f => f.chainHead f.depth with
    | some (qualifier, name) => .call qualifier name
    | none => .other
  else match n.callee with
    | .name name => .name name
    | .qualified qualifier name => .qualified qualifier name
    | .other => .other

def classDecl (n : Node) : ClassDecl :=
  let statements := ((n.child? "body").map parts).getD []
  { name := ((n.child? "name").map text).getD ""
    nameRange := ((n.child? "name").map range).getD n.range
    span := n.span
    bases := ((n.child? "superclasses").map fun s =>
      (s.parts.filter (!·.is "keyword_argument")).map base).getD []
    attributes := statements.filterMap attribute?
    methods := statements.filterMap function?
    docstring := (n.child? "body").bind docstring }

/-- The class that a statement at the top of a file defines. -/
def classDecl? (statement : Node) : Option ClassDecl :=
  if statement.is "class_definition" then some statement.classDecl
  else if statement.is "decorated_definition" then
    (statement.child? "definition").bind fun d =>
      if d.is "class_definition" then some d.classDecl else none
  else none

/-! ### Dictionaries -/

/-- A `key: value` pair whose key is a single string literal. -/
def entry? (pair : Node) : Option (String × Expr) := do
  let key ← pair.children.find? fun c => c.field == some "key" && c.is "string"
  let value ← pair.children.find? fun c => c.field == some "value" && c.named
  return (← key.content?, Expr.ofNode value)

/-- The pairs of the dictionaries that a statement consists of. -/
def entries (statement : Node) : List (String × Expr) :=
  if statement.is "expression_statement" then
    (statement.children.filter (·.is "dictionary")).flatMap fun d =>
      (d.children.filter (·.is "pair")).filterMap entry?
  else []

end Node

end ModelAtlas.Source
