import ModelAtlas.Proofs.Model.DeclaringClass
import ModelAtlas.Proofs.Model.Members
import ModelAtlas.Proofs.Source.Statements

/-!
# Members and statements

The members of a class, said of the statements of its body: a field or a method is there just if a
statement declares it and no later one declares another of its name. With what the top of a text
holds, this says of any text which members its records have.
-/

namespace ModelAtlas.Model

open Source Node

/-- A statement that assigns a field constructor to the name of a field. -/
def DeclaresField (path : String) (statement : Node) (f : FieldRecord) : Prop :=
  ∃ a, Assigns statement a ∧ fieldOf? path a = some f

/-- A statement that defines a method. -/
def DefinesMethod (path : String) (statement : Node) (m : MethodRecord) : Prop :=
  ∃ d, Defines statement d ∧ MethodRecord.ofDecl path d = m

section Bodies

variable {path : String} {definition : Node}

theorem mem_fieldsOf_classDecl (f : FieldRecord) : f ∈ fieldsOf path definition.classDecl ↔
    LastDeclared (DeclaresField path) FieldRecord.name definition.statements f := by
  rw [fieldsOf_eq_collect, mem_collect]
  show (List.filterMap _ (definition.statements.filterMap attribute?)).reverse.find? _ = _ ↔ _
  rw [List.filterMap_filterMap]
  refine find?_reverse_filterMap fun statement f => ?_
  simp only [Option.bind_eq_some_iff, attribute?_eq_some_iff, DeclaresField]

theorem mem_methodsOf_classDecl (m : MethodRecord) : m ∈ methodsOf path definition.classDecl ↔
    LastDeclared (DefinesMethod path) MethodRecord.name definition.statements m := by
  rw [methodsOf_eq_collect, mem_collect]
  show (List.map _ (definition.statements.filterMap function?)).reverse.find? _ = _ ↔ _
  rw [List.map_filterMap]
  refine find?_reverse_filterMap fun statement m => ?_
  simp only [Option.map_eq_some_iff, function?_eq_some_iff, DefinesMethod]

end Bodies

/-- Where the classes of a text share no byte, every record of the text is made from a class at its
top, and its members are what the statements of that class declare last of each name. -/
theorem record_members_of_text {path text : String}
    (apart : Apart (SourceFile.parse path text).classes) {r : ModelRecord}
    (listed : r ∈ extractModels (.parse path text)) :
    ∃ statement ∈ topStatements text, ∃ definition, Declares statement definition ∧
      extractModel (.parse path text) definition.classDecl = some r ∧
      (∀ f, f ∈ r.fields ↔
        LastDeclared (DeclaresField path) FieldRecord.name definition.statements f) ∧
      ∀ m, m ∈ r.methods ↔
        LastDeclared (DefinesMethod path) MethodRecord.name definition.statements m := by
  obtain ⟨c, member, extracted⟩ := List.mem_filterMap.mp listed
  obtain ⟨fields, methods⟩ := members_of_extractModel apart member extracted
  obtain ⟨statement, top, definition, declares, rfl⟩ := mem_classes_parse.mp member
  refine ⟨statement, top, definition, declares, extracted, ?_, ?_⟩
  · rw [fields]
    exact mem_fieldsOf_classDecl
  · rw [methods]
    exact mem_methodsOf_classDecl

end ModelAtlas.Model
