import ModelAtlas.Model.Record
import ModelAtlas.Proofs.Source.Classes

/-!
# Members are read from the declaring class

A record keeps only the bytes of its class and looks the class up when its members are asked for.
What it finds is the class it was made from, whatever else the file declares.
-/

namespace ModelAtlas.Model

open Source

section Records

variable {f : SourceFile} {c : ClassDecl} {r : ModelRecord}

theorem declaration_of_extractModel (extracted : extractModel f c = some r) :
    r.declaration = ⟨f, c.bytes, f.location c.range⟩ := by
  unfold extractModel at extracted
  split at extracted
  · obtain rfl := Option.some.inj extracted
    rfl
  · cases extracted

theorem class?_of_extractModel (apart : Apart f.classes) (member : c ∈ f.classes)
    (extracted : extractModel f c = some r) : r.declaration.class? = some c := by
  rw [declaration_of_extractModel extracted]
  exact classAt_of_mem apart member

theorem members_of_extractModel (apart : Apart f.classes) (member : c ∈ f.classes)
    (extracted : extractModel f c = some r) :
    r.fields = fieldsOf f.path c ∧ r.methods = methodsOf f.path c := by
  have found := class?_of_extractModel apart member extracted
  have file : r.declaration.file = f := by rw [declaration_of_extractModel extracted]
  rw [ModelRecord.fields, ModelRecord.methods, found, file]
  exact ⟨rfl, rfl⟩

end Records

/-- Where the classes of a file share no byte, each is found by its bytes, and every record of the
file has the fields and methods of the class it was made from. -/
theorem members_read_from_declaring_class (f : SourceFile) (apart : Apart f.classes) :
    (∀ c ∈ f.classes, f.classAt c.bytes = some c ∧ ∀ r, extractModel f c = some r →
      r.fields = fieldsOf f.path c ∧ r.methods = methodsOf f.path c) ∧
    ∀ r ∈ extractModels f, ∃ c ∈ f.classes, extractModel f c = some r ∧
      r.declaration.class? = some c := by
  refine ⟨fun c member =>
    ⟨classAt_of_mem apart member, fun r => members_of_extractModel apart member⟩, fun r listed => ?_⟩
  obtain ⟨c, member, extracted⟩ := List.mem_filterMap.mp listed
  exact ⟨c, member, extracted, class?_of_extractModel apart member extracted⟩

def twinSource : String :=
  "class A(models.Model):\n\t_name = 'a'\n\tx = fields.Char()\n" ++
    "class A(models.Model):\n\t_name = 'a'\n\ty = fields.Text()\n"

def twinClass (field kind : String) : Plain.Class where
  name := "A".toList
  qualifier := modelsAlias.toList
  base := "Model".toList
  assignments := [⟨"_name".toList, .str "a".toList⟩,
    ⟨field.toList, .call fieldsAlias.toList kind.toList⟩]

def firstTwin : ClassDecl := (twinClass "x" "Char").declare {}

def secondTwin : ClassDecl :=
  (twinClass "y" "Text").declare (Plain.past {} (twinClass "x" "Char").spell)

/-- Two classes of one name declare one model, but each record has the fields of its own class. -/
theorem twin_members_apart :
    Apart (SourceFile.parse "/ws/a.py" twinSource).classes ∧
    (SourceFile.parse "/ws/a.py" twinSource).classes = [firstTwin, secondTwin] ∧
    (extractModels (.parse "/ws/a.py" twinSource)).map
      (fun r => (r.identifier, r.typeName, r.fields.map (·.name))) =
        [("a", "A", ["x"]), ("a", "A", ["y"])] := by
  have classes := @classes_parse_spell "/ws/a.py" twinSource
    [twinClass "x" "Char", twinClass "y" "Text"] (by decide) (by decide)
  have apart : Apart (SourceFile.parse "/ws/a.py" twinSource).classes := by
    rw [classes]
    exact Plain.apart_declare {} [twinClass "x" "Char", twinClass "y" "Text"]
  have members := (members_read_from_declaring_class (.parse "/ws/a.py" twinSource) apart).1
  replace classes : _ = [firstTwin, secondTwin] := classes
  refine ⟨apart, classes, ?_⟩
  -- the members do not depend on how the file was read
  generalize SourceFile.parse "/ws/a.py" twinSource = f at members classes ⊢
  rw [classes, List.forall_mem_cons, List.forall_mem_cons] at members
  obtain ⟨⟨_, first⟩, ⟨_, second⟩, _⟩ := members
  have firstRecord : extractModel f firstTwin =
      some ⟨"a", "A", "", [], .regular, f, firstTwin.bytes, f.location firstTwin.range⟩ := by rfl
  have secondRecord : extractModel f secondTwin =
      some ⟨"a", "A", "", [], .regular, f, secondTwin.bytes, f.location secondTwin.range⟩ := by rfl
  rw [extractModels, classes, List.filterMap_cons_some firstRecord,
    List.filterMap_cons_some secondRecord]
  simp only [List.filterMap_nil, List.map_cons, List.map_nil, (first _ firstRecord).1,
    (second _ secondRecord).1]
  rfl

end ModelAtlas.Model
