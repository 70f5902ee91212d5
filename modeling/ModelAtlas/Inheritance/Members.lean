import ModelAtlas.Inheritance.Traversal

/-!
# Inherited members

The members of a model are those of its lineage; of each name the first one counts.
-/

namespace ModelAtlas.Inheritance

open Model

namespace Graph

/-- The fields of a model with those it inherits. -/
def fieldsOf (g : Graph) (id : String) : List FieldRecord :=
  firstOfEach FieldRecord.name ((g.lineage id).flatMap ModelRecord.fields)

/-- The methods of a model with those it inherits. -/
def methodsOf (g : Graph) (id : String) : List MethodRecord :=
  firstOfEach MethodRecord.name ((g.lineage id).flatMap ModelRecord.methods)

end Graph

/-- The field of that name. -/
def findField (fields : List FieldRecord) (name : String) : Option FieldRecord :=
  fields.find? (·.name == name)

/-- The names on a dotted path. -/
def segments (path : String) : List String := (path.toList.splitOn '.').map String.ofList

/-- The field at the end of a path of relational fields. -/
def Graph.walkFields (g : Graph) (model : String) : List String → Option FieldRecord
  | [] => none
  | [name] => findField (g.fieldsOf model) name
  | name :: rest =>
    match (findField (g.fieldsOf model) name).bind (·.comodel) with
    | none => none
    | some comodel => Graph.walkFields g comodel rest

/-- The field that a dotted path leads to from a model. -/
def Graph.fieldAt (g : Graph) (model path : String) : Option FieldRecord :=
  g.walkFields model (segments path)

end ModelAtlas.Inheritance
