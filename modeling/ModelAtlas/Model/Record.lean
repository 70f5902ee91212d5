import ModelAtlas.Model.Field
import ModelAtlas.Model.Method
import ModelAtlas.Text.Occurs

/-!
# Model records

A class that derives from a framework base and assigns a name to `_name` declares a model.
`extractModel` makes a record of it. Fields and methods are read later, from the class that the
record's declaration points to.
-/

namespace ModelAtlas.Model

open Source

/-- The name under which framework bases are imported. -/
def modelsAlias : String := "models"

inductive ModelKind where
  | regular | transient | abstract
deriving DecidableEq, Repr

namespace ModelKind

def name : ModelKind → String
  | .regular => "regular"
  | .transient => "transient"
  | .abstract => "abstract"

/-- The kind of the models that derive from a framework base. -/
def ofBaseName? (name : String) : Option ModelKind :=
  if name == "Model" then some .regular
  else if name == "TransientModel" then some .transient
  else if name == "AbstractModel" then some .abstract
  else none

/-- The kind a base gives to a class, if it is a framework base. -/
def ofBase? : Base → Option ModelKind
  | .name name => ofBaseName? name
  | .qualified qualifier name | .call qualifier name =>
    if qualifier == modelsAlias then ofBaseName? name else none
  | .other => none

/-- The kind of a class with these bases: that of the first framework base. -/
def ofBases? (bases : List Base) : Option ModelKind := bases.findSome? ofBase?

end ModelKind

/-- Where a model is declared: the bytes of its class in a file. -/
structure Declaration where
  file : SourceFile
  bytes : ByteRange
  location : Location

/-- The declaring class. -/
def Declaration.class? (d : Declaration) : Option ClassDecl := d.file.classAt d.bytes

structure ModelRecord where
  identifier : String
  /-- The name of the class. -/
  typeName : String
  description : String
  /-- Declared parents in order. -/
  parents : List String
  kind : ModelKind
  declaration : Declaration

namespace ModelRecord

def path (r : ModelRecord) : String := r.declaration.location.path

def fields (r : ModelRecord) : List FieldRecord :=
  (r.declaration.class?.map (fieldsOf r.declaration.file.path)).getD []

def methods (r : ModelRecord) : List MethodRecord :=
  (r.declaration.class?.map (methodsOf r.declaration.file.path)).getD []

/-- Abstract, or called a mixin by its class. -/
def isMixin (r : ModelRecord) : Bool :=
  r.kind == .abstract || Text.contains r.typeName "Mixin"

/-- A record at the start of a file that declares no class. -/
def bare (identifier : String) (parents : List String) (path typeName : String)
    (kind : ModelKind) : ModelRecord where
  identifier := identifier
  typeName := typeName
  description := ""
  parents := parents
  kind := kind
  declaration := ⟨⟨path, {}⟩, {}, ⟨path, {}⟩⟩

end ModelRecord

/-- The identifiers that a value of `_inherit` lists. -/
def declaredParents (value : Expr) : List String :=
  match value with
  | .str parent => if parent.isEmpty then [] else [parent]
  | .list items | .tuple items => (items.filterMap Expr.str?).filter (!·.isEmpty)
  | _ => []

/-- The name a class gives to its model: a string literal that is not empty. -/
def modelName? (c : ClassDecl) : Option String :=
  match (c.assigned "_name").bind (·.value.str?) with
  | some name => if name.isEmpty then none else some name
  | none => none

/-- The parents of a model, without itself and without repetitions. -/
def parentsOf (identifier : String) (c : ClassDecl) : List String :=
  let declared := ((c.assigned "_inherit").map (declaredParents ·.value)).getD []
  firstOfEach id (declared.filter (· != identifier))

/-- The record of the model that a class of `file` declares, if it declares one. -/
def extractModel (file : SourceFile) (c : ClassDecl) : Option ModelRecord :=
  match ModelKind.ofBases? c.bases, modelName? c with
  | some kind, some identifier => some {
      identifier := identifier
      typeName := c.name
      description := ((c.assigned "_description").bind (·.value.str?)).getD ""
      parents := parentsOf identifier c
      kind := kind
      declaration := ⟨file, c.bytes, file.location c.range⟩ }
  | _, _ => none

/-- Every model declared in a file, in order. -/
def extractModels (file : SourceFile) : List ModelRecord :=
  file.classes.filterMap (extractModel file)

end ModelAtlas.Model
