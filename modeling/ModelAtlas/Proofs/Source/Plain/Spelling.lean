import ModelAtlas.Source.Declaration

/-!
# Plain sources

Many sources are written by a program and hold nothing but classes with assignments of literals and
bare calls, each spelled one way (`spell`). What such a source declares follows from its spelling
(`declare`).
-/

namespace ModelAtlas.Source.Plain

/-- Characters of plain names. -/
def isWordChar (c : Char) : Bool := c.isAlphanum || c == '_'

/-- Characters of plain strings. -/
def isTextChar (c : Char) : Bool := isWordChar c || c == '.'

/-- Words that mean something to the grammar. -/
def reserved : List String :=
  ["False", "None", "True", "_", "__future__", "and", "as", "assert", "async", "await", "break",
    "case", "class", "continue", "def", "del", "elif", "else", "except", "exec", "finally", "for",
    "from", "global", "if", "import", "in", "is", "lambda", "match", "nonlocal", "not", "or",
    "pass", "print", "raise", "return", "try", "type", "while", "with", "yield"]

def isWord (s : List Char) : Bool :=
  s.head?.any (fun c => c.isAlpha || c == '_') && s.all isWordChar

/-- A name that no place in a source reads as anything else. -/
def isName (s : List Char) : Bool := isWord s && !reserved.contains (String.ofList s)

inductive Value where
  | str (content : List Char)
  | list (contents : List (List Char))
  | call (qualifier name : List Char)
deriving DecidableEq, Repr

structure Assignment where
  name : List Char
  value : Value
deriving DecidableEq, Repr

structure Class where
  name : List Char
  /-- The class is derived from `qualifier.base`. -/
  qualifier : List Char
  base : List Char
  assignments : List Assignment
deriving DecidableEq, Repr

/-! ### Spelling -/

def quoted (s : List Char) : List Char := '\'' :: s ++ ['\'']

/-- Strings with commas between. -/
def enumerated : List (List Char) → List Char
  | [] => []
  | [s] => quoted s
  | s :: rest => quoted s ++ ", ".toList ++ enumerated rest

def Value.spell : Value → List Char
  | .str content => quoted content
  | .list contents => '[' :: enumerated contents ++ [']']
  | .call qualifier name => qualifier ++ '.' :: name ++ "()".toList

def Assignment.spell (a : Assignment) : List Char := a.name ++ " = ".toList ++ a.value.spell

namespace Class

/-- The header of a class from its name on. -/
def heading (c : Class) : List Char :=
  c.name ++ '(' :: c.qualifier ++ '.' :: c.base ++ "):".toList

def spell (c : Class) : List Char :=
  "class ".toList ++ c.heading ++ '\n' ::
    c.assignments.flatMap fun a => '\t' :: a.spell ++ ['\n']

end Class

def spell (cs : List Class) : List Char := cs.flatMap Class.spell

/-! ### Well-formedness -/

namespace Value

def isPlain : Value → Bool
  | .str content => content.all isTextChar
  | .list contents => contents.all (·.all isTextChar)
  | .call qualifier name => isName qualifier && isName name

end Value

namespace Class

def isPlain (c : Class) : Bool :=
  isName c.name && isName c.qualifier && isName c.base && !c.assignments.isEmpty &&
    c.assignments.all fun a => isName a.name && a.value.isPlain

end Class

/-! ### Declarations -/

/-- The mark behind some characters. -/
def past (m : Mark) (s : List Char) : Mark := s.foldl Mark.next m

def Value.expr : Value → Expr
  | .str content => .str (String.ofList content)
  | .list contents => .list (contents.map fun s => .str (String.ofList s))
  | .call qualifier name =>
    .call ⟨.qualified (String.ofList qualifier) (String.ofList name), [], []⟩

/-- The declarations of assignments in a row each, the first row at a mark, and where the last one
ends. -/
def declareRows (stop m : Mark) : List Assignment → List Attribute × Mark
  | [] => ([], stop)
  | a :: rest =>
    let start := past m ['\t']
    let here := past start a.spell
    let (attributes, last) := declareRows here (past here ['\n']) rest
    (⟨String.ofList a.name, a.value.expr, ⟨start.position, here.position⟩⟩ :: attributes, last)

namespace Class

/-- The declaration of a class at a mark. It ends with its last assignment. -/
def declare (m : Mark) (c : Class) : ClassDecl :=
  let name := past m "class ".toList
  let header := past name c.heading
  let (attributes, stop) := declareRows header (past header ['\n']) c.assignments
  { name := String.ofList c.name
    nameRange := ⟨name.position, (past name c.name).position⟩
    span := ⟨m, stop⟩
    bases := [.qualified (String.ofList c.qualifier) (String.ofList c.base)]
    attributes := attributes
    methods := []
    docstring := none }

end Class

/-- The declarations of classes, the first at a mark. -/
def declare (m : Mark) : List Class → List ClassDecl
  | [] => []
  | c :: rest => c.declare m :: declare (past m c.spell) rest

end ModelAtlas.Source.Plain
