import ModelAtlas.Model.Members
import ModelAtlas.Source.File
import ModelAtlas.Text.Letters

/-!
# Fields

A field is a class attribute assigned from `fields.Kind(...)`. What is kept of it is read from the
arguments of that call.
-/

namespace ModelAtlas.Model

open Source

/-- The name under which field constructors are imported. -/
def fieldsAlias : String := "fields"

inductive FieldKind where
  | char | text | html | boolean | integer | float | monetary | date | datetime | selection
  | many2one | one2many | many2many | binary | image | json | properties
deriving DecidableEq, Repr

inductive FieldCategory where
  | text | boolean | numeric | temporal | selection | relational | binary | structured
deriving DecidableEq, Repr

def FieldCategory.name : FieldCategory → String
  | .text => "text"
  | .boolean => "boolean"
  | .numeric => "numeric"
  | .temporal => "temporal"
  | .selection => "selection"
  | .relational => "relational"
  | .binary => "binary"
  | .structured => "structured"

/-- Named arguments that every field takes. -/
def fieldAttributes : List String :=
  ["string", "help", "required", "readonly", "index", "default", "compute", "inverse", "search",
    "store", "related", "copy", "groups", "company_dependent", "tracking"]

namespace FieldKind

def all : List FieldKind :=
  [.char, .text, .html, .boolean, .integer, .float, .monetary, .date, .datetime, .selection,
    .many2one, .one2many, .many2many, .binary, .image, .json, .properties]

/-- The name of its constructor. -/
def name : FieldKind → String
  | .char => "Char"
  | .text => "Text"
  | .html => "Html"
  | .boolean => "Boolean"
  | .integer => "Integer"
  | .float => "Float"
  | .monetary => "Monetary"
  | .date => "Date"
  | .datetime => "Datetime"
  | .selection => "Selection"
  | .many2one => "Many2one"
  | .one2many => "One2many"
  | .many2many => "Many2many"
  | .binary => "Binary"
  | .image => "Image"
  | .json => "Json"
  | .properties => "Properties"

def ofName? (name : String) : Option FieldKind := all.find? (·.name == name)

def category : FieldKind → FieldCategory
  | .char | .text | .html => .text
  | .boolean => .boolean
  | .integer | .float | .monetary => .numeric
  | .date | .datetime => .temporal
  | .selection => .selection
  | .many2one | .one2many | .many2many => .relational
  | .binary | .image => .binary
  | .json | .properties => .structured

def isRelational (k : FieldKind) : Bool := k.category == .relational

/-- Named arguments that this kind takes besides `fieldAttributes`. -/
def attributes : FieldKind → List String
  | .char => ["size", "trim", "translate"]
  | .text => ["translate"]
  | .html => ["translate", "sanitize", "strip_style"]
  | .float => ["digits"]
  | .monetary => ["currency_field"]
  | .selection => ["selection", "selection_add", "ondelete"]
  | .many2one => ["comodel_name", "domain", "context", "ondelete", "auto_join", "check_company"]
  | .one2many => ["comodel_name", "inverse_name", "domain", "context", "auto_join"]
  | .many2many => ["comodel_name", "relation", "column1", "column2", "domain", "context"]
  | .binary => ["attachment"]
  | .image => ["attachment", "max_width", "max_height", "verify_resolution"]
  | .boolean | .integer | .date | .datetime | .json | .properties => []

/-- Where the label stands among the positional arguments. -/
def labelPosition : FieldKind → Nat
  | .selection | .many2one => 1
  | .one2many => 2
  | .many2many => 4
  | _ => 0

/-- All named arguments that this kind takes. -/
def allAttributes (k : FieldKind) : List String := fieldAttributes ++ k.attributes

end FieldKind

structure FieldRecord where
  name : String
  kind : FieldKind
  required : Bool
  readonly : Bool
  /-- Whether a `compute` argument is present. -/
  computed : Bool
  compute : Option String
  related : Option String
  /-- Source of the `default` argument. -/
  default : Option String
  help : Option String
  label : Option String
  /-- Source of the `domain` argument of a relational field. -/
  domain : Option String
  /-- The model a relational field points to. -/
  comodel : Option String
  /-- Keys and labels of a selection written out as a list. -/
  selection : Option (List (String × String))
  location : Location
deriving DecidableEq, Repr

/-- A key and its label. -/
def selectionPair? (item : Expr) : Option (String × String) :=
  match item.elements? with
  | some [key, label] => do return (← key.str?, ← label.str?)
  | _ => none

/-- The pairs of a literal list; other elements are left out. -/
def selectionPairs? : Expr → Option (List (String × String))
  | .list items => some (items.filterMap selectionPair?)
  | _ => none

/-- The name of a method given as a string or as a plain identifier. -/
def methodName? : Expr → Option String
  | .str name => some name
  | .other source => if Text.isIdentifier source then some source else none
  | _ => none

namespace FieldRecord

/-- The text of a named argument that is a string literal. -/
def keywordStr (call : Call) (name : String) : Option String :=
  (call.keyword name).bind (·.value.str?)

/-- Whether a named argument is the literal `True`. -/
def keywordBool (call : Call) (name : String) : Bool :=
  ((call.keyword name).bind (·.value.bool?)).getD false

/-- The source of a named argument. -/
def keywordText (call : Call) (name : String) : Option String :=
  (call.keyword name).map (·.text)

def comodelOf (call : Call) : Option String :=
  (keywordStr call "comodel_name").or (call.positional.head?.bind Expr.str?)

def selectionOf (call : Call) : Option (List (String × String)) :=
  (((call.keyword "selection").map (·.value)).or call.positional.head?).bind selectionPairs?

def labelOf (kind : FieldKind) (call : Call) : Option String :=
  (keywordStr call "string").or ((call.positional[kind.labelPosition]?).bind Expr.str?)

/-- The field that a call of the constructor of `kind` declares. -/
def ofCall (name : String) (kind : FieldKind) (call : Call) (location : Location) :
    FieldRecord where
  name := name
  kind := kind
  required := keywordBool call "required"
  readonly := keywordBool call "readonly"
  computed := (call.keyword "compute").isSome
  compute := (call.keyword "compute").bind (methodName? ·.value)
  related := keywordStr call "related"
  default := keywordText call "default"
  help := keywordStr call "help"
  label := labelOf kind call
  domain := if kind.isRelational then keywordText call "domain" else none
  comodel := if kind.isRelational then comodelOf call else none
  selection := if kind = .selection then selectionOf call else none
  location := location

end FieldRecord

/-- The kind and the call of an attribute that declares a field. -/
def fieldCall? (value : Expr) : Option (FieldKind × Call) :=
  match value with
  | .call call =>
    match call.callee with
    | .qualified qualifier name =>
      if qualifier = fieldsAlias then (FieldKind.ofName? name).map fun kind => (kind, call)
      else none
    | _ => none
  | _ => none

/-- The field an attribute declares, if it does. -/
def fieldOf? (path : String) (a : Attribute) : Option FieldRecord :=
  (fieldCall? a.value).map fun (kind, call) => .ofCall a.name kind call ⟨path, a.range⟩

/-- The fields of a class in the file at `path`. -/
def fieldsOf (path : String) (c : ClassDecl) : List FieldRecord :=
  collectPlaced FieldRecord.name (c.attributes.filterMap (fieldOf? path))

end ModelAtlas.Model
