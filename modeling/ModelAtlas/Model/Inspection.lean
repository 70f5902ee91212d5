import ModelAtlas.Model.Record

/-!
# Inspection of declarations

What is wrong with the way a class declares its model. A class without a framework base is never
reported.
-/

namespace ModelAtlas.Model

open Source

inductive Severity where
  | error | warning | weakWarning
deriving DecidableEq, Repr

def Severity.name : Severity → String
  | .error => "Error"
  | .warning => "Warning"
  | .weakWarning => "WeakWarning"

/-- What can be wrong with a declaration. -/
inductive Finding where
  | unnamed
  | badName
  | undescribed (identifier : String)
  | badParents
  | unknownParent (parent : String)
deriving DecidableEq, Repr

namespace Finding

def severity : Finding → Severity
  | .unnamed | .badName | .badParents => .warning
  | .undescribed _ => .weakWarning
  | .unknownParent _ => .error

def message : Finding → String
  | .unnamed => "Model class declares neither `_name` nor `_inherit`"
  | .badName => "`_name` should be a non-empty string literal"
  | .undescribed identifier => "Model `" ++ identifier ++ "` has no `_description`"
  | .badParents => "`_inherit` should be a string or a list of strings"
  | .unknownParent parent => "Unknown parent model `" ++ parent ++ "`"

end Finding

structure Diagnostic where
  range : Range
  finding : Finding
deriving DecidableEq, Repr

/-- A list or a tuple of string literals. -/
def isStringList (value : Expr) : Bool :=
  match value.elements? with
  | some items => items.all (·.str?.isSome)
  | none => false

/-- What `_inherit` may be. -/
def isParentValue (value : Expr) : Bool := value.str?.isSome || isStringList value

/-- Findings about the name of a model class. -/
def inspectName (c : ClassDecl) : List Diagnostic :=
  match c.assigned "_name" with
  | none => if (c.assigned "_inherit").isNone then [⟨c.nameRange, .unnamed⟩] else []
  | some a =>
    match a.value.str? with
    | none => [⟨a.range, .badName⟩]
    | some name =>
      if name.isEmpty then [⟨a.range, .badName⟩]
      else if (c.assigned "_description").isNone then [⟨c.nameRange, .undescribed name⟩]
      else []

/-- Findings about the shape of `_inherit`. -/
def inspectInherit (c : ClassDecl) : List Diagnostic :=
  match c.assigned "_inherit" with
  | none => []
  | some a => if isParentValue a.value then [] else [⟨a.range, .badParents⟩]

def inspectClass (c : ClassDecl) : List Diagnostic :=
  if (ModelKind.ofBases? c.bases).isNone then [] else inspectName c ++ inspectInherit c

/-- Declared parents that are not known. A model may always name itself. -/
def inspectParents (c : ClassDecl) (isKnown : String → Bool) : List Diagnostic :=
  if (ModelKind.ofBases? c.bases).isNone then []
  else match c.assigned "_inherit" with
    | none => []
    | some inherit =>
      let own := (c.assigned "_name").bind (·.value.str?)
      ((declaredParents inherit.value).filter fun p => some p != own && !isKnown p).map fun p =>
        ⟨inherit.range, .unknownParent p⟩

/-- Findings about every class of a file, in order. -/
def inspectFile (file : SourceFile) : List Diagnostic := file.classes.flatMap inspectClass

end ModelAtlas.Model
