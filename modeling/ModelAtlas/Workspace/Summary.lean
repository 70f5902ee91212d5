import ModelAtlas.Model.Record

/-!
# Summaries

What is shown about a model in one place: its first fields and children, and how many there are.
-/

namespace ModelAtlas.Workspace

open Model Source

/-- How many fields a summary lists. -/
def summaryFields : Nat := 10

/-- How many children a summary lists. -/
def summaryChildren : Nat := 5

structure Summary where
  identifier : String
  description : String
  parents : List String
  /-- The first fields. -/
  fields : List FieldRecord
  fieldCount : Nat
  /-- The first models that inherit from this one. -/
  children : List String
  childCount : Nat
  /-- The module that declares the model. -/
  module : Option String
  location : Location
deriving DecidableEq, Repr

namespace Summary

/-- A summary of a record with all its fields and children. -/
def of (r : ModelRecord) (fields : List FieldRecord) (children : List String)
    (module : Option String) : Summary where
  identifier := r.identifier
  description := r.description
  parents := r.parents
  fields := fields.take summaryFields
  fieldCount := fields.length
  children := children.take summaryChildren
  childCount := children.length
  module := module
  location := r.declaration.location

def fieldLine (f : FieldRecord) : String :=
  "\n- `" ++ f.name ++ "`: " ++ f.kind.name ++ (if f.required then " (required)" else "")

/-- How many of `total` things are left after `shown`, if any. -/
def remainder (total shown : Nat) : Option Nat :=
  if shown < total then some (total - shown) else none

def fieldsText (s : Summary) : String :=
  if s.fields.isEmpty then ""
  else
    "\n\n*Fields (" ++ toString s.fieldCount ++ "):*" ++ String.join (s.fields.map fieldLine) ++
      match remainder s.fieldCount s.fields.length with
      | some n => "\n- ... and " ++ toString n ++ " more"
      | none => ""

def childrenText (s : Summary) : String :=
  if s.children.isEmpty then ""
  else
    "\n\n*Inherited by:* " ++ String.intercalate ", " s.children ++
      match remainder s.childCount s.children.length with
      | some n => " and " ++ toString n ++ " more"
      | none => ""

def markdown (s : Summary) : String :=
  "**" ++ s.identifier ++ "**" ++
    (match s.module with
      | some name => " (" ++ name ++ ")"
      | none => "") ++
    (if s.description.isEmpty then "" else "\n\n" ++ s.description) ++
    (if s.parents.isEmpty then "" else "\n\n*Inherits:* " ++ String.intercalate ", " s.parents) ++
    s.fieldsText ++ s.childrenText

end Summary

end ModelAtlas.Workspace
