import Mathlib.Data.List.Forall2
import ModelAtlas.Model.Record
import ModelAtlas.Proofs.Model.Redefinitions
import ModelAtlas.Proofs.Source.Classes

/-!
# Canonical sources

A canonical source is what a generator of models would write: a class for each model, with its name,
its parents and a bare constructor for each field. Extraction gives the models back. The source is
one that spells plain classes, so the grammar reads it as these classes, and each record is read off
the declaration of its class.
-/

namespace ModelAtlas.Model

open Source

/-! ### Sources -/

/-- Letters, digits and underscores. -/
abbrev Word := { s : String // s.toList.all Plain.isWordChar }

/-- Letters, digits, underscores and dots. -/
abbrev Dotted := { s : String // s.toList.all Plain.isTextChar }

/-- The base that gives a class its kind. -/
def ModelKind.baseName : ModelKind → String
  | .regular => "Model"
  | .transient => "TransientModel"
  | .abstract => "AbstractModel"

structure CanonicalField where
  stem : Word
  kind : FieldKind

structure CanonicalModel where
  stem : Word
  kind : ModelKind
  identifier : Dotted
  parents : List Dotted
  fields : List CanonicalField

namespace CanonicalField

def name (f : CanonicalField) : String := "x_" ++ f.stem.1

def row (f : CanonicalField) : String := f.name ++ " = fields." ++ f.kind.name ++ "()"

end CanonicalField

namespace CanonicalModel

def typeName (m : CanonicalModel) : String := "C" ++ m.stem.1

def parentNames (m : CanonicalModel) : List String := m.parents.map (·.1)

def heading (m : CanonicalModel) : String :=
  "class " ++ m.typeName ++ "(models." ++ m.kind.baseName ++ "):\n"

def rows (m : CanonicalModel) : List String :=
  ("_name = '" ++ m.identifier.1 ++ "'") ::
  ("_inherit = [" ++ String.intercalate ", " (m.parentNames.map fun p => "'" ++ p ++ "'") ++ "]") ::
  m.fields.map CanonicalField.row

def source (m : CanonicalModel) : String :=
  m.heading ++ String.join (m.rows.map fun row => "\t" ++ row ++ "\n")

end CanonicalModel

def canonicalSource (models : List CanonicalModel) : String :=
  String.join (models.map CanonicalModel.source)

/-! ### Sources as plain classes -/

def CanonicalField.assignment (f : CanonicalField) : Plain.Assignment :=
  ⟨f.name.toList, .call fieldsAlias.toList f.kind.name.toList⟩

def CanonicalModel.plainClass (m : CanonicalModel) : Plain.Class where
  name := m.typeName.toList
  qualifier := modelsAlias.toList
  base := m.kind.baseName.toList
  assignments := ⟨"_name".toList, .str m.identifier.1.toList⟩ ::
    ⟨"_inherit".toList, .list (m.parentNames.map String.toList)⟩ ::
    m.fields.map CanonicalField.assignment

theorem isName_append {head stem : String} (first : head.toList.head?.any (·.isAlpha))
    (word : head.toList.all Plain.isWordChar) (stemWord : stem.toList.all Plain.isWordChar)
    (unreserved : ∀ w ∈ Plain.reserved, w.toList.head? ≠ head.toList.head?) :
    Plain.isName (head ++ stem).toList := by
  obtain ⟨c, rest, split⟩ : ∃ c rest, head.toList = c :: rest := by
    cases chars : head.toList with
    | nil => simp [chars] at first
    | cons c rest => exact ⟨c, rest, rfl⟩
  -- reserved words begin with other letters
  have free : (Plain.reserved.contains (head ++ stem)) = false := by
    refine Bool.eq_false_iff.mpr fun known => ?_
    refine unreserved _ (List.contains_iff_mem.mp known) ?_
    rw [String.toList_append, split]
    rfl
  rw [split] at first word
  rw [Plain.isName, Plain.isWord, String.ofList_toList, free, String.toList_append, split]
  simp_all

theorem CanonicalField.isName_name (f : CanonicalField) : Plain.isName f.name.toList :=
  isName_append (by decide) (by decide) f.stem.2 (by decide)

theorem CanonicalModel.isName_typeName (m : CanonicalModel) : Plain.isName m.typeName.toList :=
  isName_append (by decide) (by decide) m.stem.2 (by decide)

theorem FieldKind.isName_name (k : FieldKind) : Plain.isName k.name.toList := by
  cases k <;> decide

theorem ModelKind.isName_baseName (k : ModelKind) : Plain.isName k.baseName.toList := by
  cases k <;> decide

theorem CanonicalField.isPlain_assignment (f : CanonicalField) :
    (Plain.isName f.assignment.name && f.assignment.value.isPlain) = true := by
  have imported : Plain.isName fieldsAlias.toList = true := by decide
  simp [assignment, Plain.Value.isPlain, f.isName_name, f.kind.isName_name, imported]

theorem CanonicalModel.isPlain_plainClass (m : CanonicalModel) : m.plainClass.isPlain := by
  have named : Plain.isName "_name".toList = true ∧ Plain.isName "_inherit".toList = true ∧
      Plain.isName modelsAlias.toList = true := by decide
  have parents : (Plain.Value.list (m.parentNames.map String.toList)).isPlain = true := by
    rw [Plain.Value.isPlain, List.all_map]
    refine List.all_eq_true.mpr fun p member => ?_
    obtain ⟨parent, _, rfl⟩ := List.mem_map.mp member
    exact parent.2
  have fields : (m.fields.map CanonicalField.assignment).all
      (fun a => Plain.isName a.name && a.value.isPlain) = true := by
    rw [List.all_map]
    exact List.all_eq_true.mpr fun f _ => f.isPlain_assignment
  have identifier : (Plain.Value.str m.identifier.1.toList).isPlain = true := m.identifier.2
  simp only [Plain.Class.isPlain, plainClass, List.all_cons, named, m.isName_typeName,
    m.kind.isName_baseName, identifier, parents, fields, List.isEmpty_cons, Bool.not_false,
    Bool.and_self]

theorem toList_enumerated (strings : List String) :
    (String.intercalate ", " (strings.map fun s => "'" ++ s ++ "'")).toList =
      Plain.enumerated (strings.map String.toList) := by
  induction strings with
  | nil => rfl
  | cons s rest ih =>
    cases rest with
    | nil => simp [Plain.enumerated, Plain.quoted]
    | cons t rest =>
      show _ = Plain.quoted s.toList ++ ", ".toList ++ Plain.enumerated ((t :: rest).map String.toList)
      rw [← ih, List.map_cons, List.map_cons, String.intercalate_cons_cons]
      simp [Plain.quoted]

theorem CanonicalField.toList_row (f : CanonicalField) : f.row.toList = f.assignment.spell := by
  simp [row, assignment, Plain.Assignment.spell, Plain.Value.spell, fieldsAlias]

theorem CanonicalModel.toList_heading (m : CanonicalModel) :
    m.heading.toList = "class ".toList ++ m.plainClass.heading ++ ['\n'] := by
  simp [heading, plainClass, Plain.Class.heading, modelsAlias]

theorem CanonicalModel.toList_rows (m : CanonicalModel) :
    m.rows.map String.toList = m.plainClass.assignments.map Plain.Assignment.spell := by
  have identifier : ("_name = '" ++ m.identifier.1 ++ "'").toList =
      Plain.Assignment.spell ⟨"_name".toList, .str m.identifier.1.toList⟩ := by
    simp [Plain.Assignment.spell, Plain.Value.spell, Plain.quoted]
  have parents : ("_inherit = [" ++
      String.intercalate ", " (m.parentNames.map fun p => "'" ++ p ++ "'") ++ "]").toList =
      Plain.Assignment.spell ⟨"_inherit".toList, .list (m.parentNames.map String.toList)⟩ := by
    rw [String.toList_append, String.toList_append, toList_enumerated]
    simp [Plain.Assignment.spell, Plain.Value.spell]
  have fields : (m.fields.map CanonicalField.row).map String.toList =
      (m.fields.map CanonicalField.assignment).map Plain.Assignment.spell := by
    rw [List.map_map, List.map_map]
    exact List.map_congr_left fun f _ => f.toList_row
  rw [rows, List.map_cons, List.map_cons, identifier, parents, fields, plainClass, List.map_cons,
    List.map_cons]

theorem CanonicalModel.toList_source (m : CanonicalModel) : m.source.toList = m.plainClass.spell := by
  have rows : (String.join (m.rows.map fun row => "\t" ++ row ++ "\n")).toList =
      (m.rows.map String.toList).flatMap fun row => '\t' :: row ++ ['\n'] := by
    rw [String.toList_join, List.flatMap_map, List.flatMap_map]
    exact congrArg (List.flatMap · m.rows) (funext fun row => by simp)
  rw [source, String.toList_append, rows, m.toList_heading, m.toList_rows, List.flatMap_map]
  -- the equation of `spell` would evaluate its literals
  delta Plain.Class.spell
  rw [List.append_assoc, List.singleton_append]

theorem toList_canonicalSource (models : List CanonicalModel) :
    (canonicalSource models).toList = Plain.spell (models.map CanonicalModel.plainClass) := by
  rw [canonicalSource, String.toList_join, Plain.spell, List.flatMap_map, List.flatMap_map]
  exact congrArg (List.flatMap · models) (funext CanonicalModel.toList_source)

example : canonicalSource [⟨⟨"1", by decide⟩, .transient, ⟨"a.b", by decide⟩,
      [⟨"", by decide⟩, ⟨"c", by decide⟩], [⟨⟨"y", by decide⟩, .date⟩]⟩] =
    "class C1(models.TransientModel):\n\t_name = 'a.b'\n\t_inherit = ['', 'c']\n\tx_y = fields.Date()\n" := by
  decide

/-! ### Reading declarations -/

/-- The last value under a name. -/
theorem find?_reverse_pairs {α β : Type} (name : α → String) (value : α → β) (list : List α)
    (n : String) :
    ((list.map fun a => (name a, value a)).reverse.find? (·.1 == n)).map (·.2) =
      (list.reverse.find? (name · == n)).map value := by
  rw [← List.map_reverse, List.find?_map, Option.map_map]
  rfl

theorem str?_assigned (c : ClassDecl) (n : String) :
    (c.assigned n).bind (·.value.str?) = ((c.assigned n).map (·.value)).bind Expr.str? := by
  rw [Option.bind_map]
  rfl

/-- The name and the kind of each field, from the values of the attributes. -/
theorem kinds_filterMap_fieldOf? (path : String) (attributes : List Attribute) :
    (attributes.filterMap (fieldOf? path)).map (fun f => (f.name, f.kind)) =
      (attributes.map fun a => (a.name, a.value)).filterMap fun (n, value) =>
        (fieldCall? value).map fun (kind, _) => (n, kind) := by
  rw [List.map_filterMap, List.filterMap_map]
  refine congrArg (List.filterMap · attributes) (funext fun a => ?_)
  rw [fieldOf?, Option.map_map]
  rfl

theorem ModelKind.ofBaseName?_baseName (k : ModelKind) : ModelKind.ofBaseName? k.baseName = some k := by
  cases k <;> decide

section Declared

variable (μ : Mark) (m : CanonicalModel)

theorem attributes_declare :
    ((m.plainClass.declare μ).attributes.map fun a => (a.name, a.value)) =
      ("_name", .str m.identifier.1) :: ("_inherit", .list (m.parentNames.map .str)) ::
        m.fields.map fun f => (f.name, .call ⟨.qualified fieldsAlias f.kind.name, [], []⟩) := by
  rw [Plain.Class.declare, Plain.map_declareRows]
  simp [CanonicalModel.plainClass, CanonicalField.assignment, Plain.Value.expr]

/-- No field has a name that a model assigns for itself. -/
theorem value_assigned_declare {n : String} (other : n.toList.head? ≠ some 'x') :
    ((m.plainClass.declare μ).assigned n).map (·.value) =
      ([("_inherit", .list (m.parentNames.map .str)), ("_name", .str m.identifier.1)].find?
        (·.1 == n)).map (·.2) := by
  have absent : (m.fields.map fun f =>
      (f.name, Expr.call ⟨.qualified fieldsAlias f.kind.name, [], []⟩)).reverse.find? (·.1 == n)
        = none := by
    refine List.find?_eq_none.mpr fun pair member same => ?_
    obtain ⟨f, _, rfl⟩ := List.mem_map.mp (List.mem_reverse.mp member)
    rw [← eq_of_beq same, CanonicalField.name, String.toList_append] at other
    exact other rfl
  rw [ClassDecl.assigned, ← find?_reverse_pairs, attributes_declare, List.reverse_cons,
    List.reverse_cons, List.append_assoc, List.find?_append, absent]
  rfl

theorem modelName?_declare :
    modelName? (m.plainClass.declare μ) =
      if m.identifier.1 = "" then none else some m.identifier.1 := by
  rw [modelName?, str?_assigned, value_assigned_declare μ m (by decide)]
  show (if m.identifier.1.isEmpty = true then none else some m.identifier.1) = _
  simp only [String.isEmpty_iff]

theorem declaredParents_names (names : List String) :
    declaredParents (.list (names.map .str)) = names.filter (· ≠ "") := by
  rw [declaredParents, List.filterMap_map]
  show (names.filterMap some).filter _ = _
  rw [List.filterMap_some]
  refine List.filter_congr fun p _ => ?_
  rw [Bool.eq_iff_iff]
  simp

theorem parentsOf_declare (identifier : String) :
    parentsOf identifier (m.plainClass.declare μ) =
      ((m.parentNames.filter (· ≠ "")).filter (· ≠ identifier)).eraseDups := by
  have listed : ((m.plainClass.declare μ).assigned "_inherit").map (declaredParents ·.value) =
      some (m.parentNames.filter (· ≠ "")) := by
    show Option.map (declaredParents ∘ Attribute.value) _ = _
    rw [← Option.map_map, value_assigned_declare μ m (by decide), ← declaredParents_names]
    rfl
  rw [parentsOf, listed, Option.getD_some, firstOfEach_id]
  refine congrArg List.eraseDups (List.filter_congr fun p _ => ?_)
  rw [Bool.eq_iff_iff]
  simp

theorem kinds_fields_declare (path : String) :
    ((m.plainClass.declare μ).attributes.filterMap (fieldOf? path)).map (fun f => (f.name, f.kind)) =
      m.fields.map fun f => (f.name, f.kind) := by
  rw [kinds_filterMap_fieldOf?, attributes_declare, List.filterMap_cons_none rfl,
    List.filterMap_cons_none rfl, List.filterMap_map, ← List.filterMap_eq_map]
  refine congrArg (List.filterMap · m.fields) (funext fun f => ?_)
  show ((FieldKind.ofName? f.kind.name).map _).map _ = _
  rw [FieldKind.ofName?_name]
  rfl

end Declared

/-- A field of which nothing but its kind is said. -/
def FieldRecord.bare (name : String) (kind : FieldKind) (location : Location) : FieldRecord where
  name := name
  kind := kind
  required := false
  readonly := false
  computed := false
  compute := none
  related := none
  default := none
  help := none
  label := none
  domain := none
  comodel := none
  selection := none
  location := location

theorem FieldRecord.ofCall_bare (name : String) (kind : FieldKind) (callee : Callee)
    (location : Location) : ofCall name kind ⟨callee, [], []⟩ location = bare name kind location := by
  cases kind <;> rfl

/-! ### Records -/

/-- A record of the model that a canonical class declares in the file at a path. -/
structure Recovers (file : String) (m : CanonicalModel) (r : ModelRecord) : Prop where
  path : r.path = file
  typeName : r.typeName = m.typeName
  kind : r.kind = m.kind
  identifier : r.identifier = m.identifier.1
  description : r.description = ""
  parents : r.parents = ((m.parentNames.filter (· ≠ "")).filter (· ≠ m.identifier.1)).eraseDups
  fieldNames : r.fields.map (·.name) = (m.fields.map (·.name)).eraseDups
  /-- The last declaration of a field counts. -/
  fieldKinds : ∀ f ∈ r.fields,
    (m.fields.reverse.find? (·.name == f.name)).map (·.kind) = some f.kind
  fieldsBare : ∀ f ∈ r.fields, ∃ range, f = .bare f.name f.kind ⟨file, range⟩
  methods : r.methods = []

section Fields

variable (path : String) (μ : Mark) (m : CanonicalModel)

theorem names_fieldsOf_declare :
    (fieldsOf path (m.plainClass.declare μ)).map (·.name) = (m.fields.map (·.name)).eraseDups := by
  have names := congrArg (List.map Prod.fst) (kinds_fields_declare μ m path)
  rw [List.map_map, List.map_map] at names
  rw [fieldsOf_eq_collect, map_name_collect]
  exact congrArg List.eraseDups names

variable {path μ m} {f : FieldRecord}

theorem kind_of_mem_fieldsOf_declare (member : f ∈ fieldsOf path (m.plainClass.declare μ)) :
    (m.fields.reverse.find? (·.name == f.name)).map (·.kind) = some f.kind := by
  rw [fieldsOf_eq_collect] at member
  have last := (mem_collect _ f).mp member
  rw [← find?_reverse_pairs, ← kinds_fields_declare μ m path, find?_reverse_pairs, last,
    Option.map_some]

theorem bare_of_mem_fieldsOf_declare (member : f ∈ fieldsOf path (m.plainClass.declare μ)) :
    ∃ range, f = .bare f.name f.kind ⟨path, range⟩ := by
  rw [fieldsOf_eq_collect] at member
  have last := (mem_collect _ f).mp member
  obtain ⟨a, listed, isField⟩ :=
    List.mem_filterMap.mp (List.mem_reverse.mp (List.mem_of_find?_eq_some last))
  have pair : (a.name, a.value) ∈ (m.plainClass.declare μ).attributes.map fun a => (a.name, a.value) :=
    List.mem_map_of_mem listed
  rw [attributes_declare, List.mem_cons, List.mem_cons, List.mem_map] at pair
  rw [fieldOf?] at isField
  -- the name and the parents are no calls, so the attribute is one of the fields
  rcases pair with isName | isInherit | ⟨field, _, isCall⟩
  · rw [(Prod.mk.inj isName).2] at isField
    cases isField
  · rw [(Prod.mk.inj isInherit).2] at isField
    cases isField
  · rw [← (Prod.mk.inj isCall).2] at isField
    obtain ⟨⟨kind, call⟩, isCall, rfl⟩ := Option.map_eq_some_iff.mp isField
    obtain ⟨_, _, same⟩ := Option.map_eq_some_iff.mp isCall
    obtain ⟨_, rfl⟩ := Prod.mk.inj same
    exact ⟨a.range, FieldRecord.ofCall_bare a.name kind _ _⟩

end Fields

/-- The record that a canonical class in a file gives. -/
def CanonicalModel.record (m : CanonicalModel) (file : SourceFile) (μ : Mark) : ModelRecord where
  identifier := m.identifier.1
  typeName := m.typeName
  description := ""
  parents := ((m.parentNames.filter (· ≠ "")).filter (· ≠ m.identifier.1)).eraseDups
  kind := m.kind
  declaration := ⟨file, (m.plainClass.declare μ).bytes, file.location (m.plainClass.declare μ).range⟩

theorem extractModel_declare (file : SourceFile) (μ : Mark) (m : CanonicalModel) :
    extractModel file (m.plainClass.declare μ) =
      if m.identifier.1 = "" then none else some (m.record file μ) := by
  have bases : (m.plainClass.declare μ).bases = [.qualified modelsAlias m.kind.baseName] := by
    simp [Plain.Class.declare, CanonicalModel.plainClass]
  have kind : ModelKind.ofBases? (m.plainClass.declare μ).bases = some m.kind := by
    rw [bases, ModelKind.ofBases?, List.findSome?_cons, ModelKind.ofBase?, if_pos (beq_self_eq_true _),
      ModelKind.ofBaseName?_baseName]
  have description : (m.plainClass.declare μ).assigned "_description" = none := by
    rw [← Option.map_eq_none_iff, value_assigned_declare μ m (by decide)]
    rfl
  have typeName : (m.plainClass.declare μ).name = m.typeName := String.ofList_toList
  rw [extractModel, kind, modelName?_declare]
  by_cases unnamed : m.identifier.1 = ""
  · rw [if_pos unnamed, if_pos unnamed]
  · rw [if_neg unnamed, if_neg unnamed]
    dsimp only
    rw [description, typeName, parentsOf_declare]
    rfl

theorem recovers_record {file : SourceFile} {μ : Mark} {m : CanonicalModel}
    (found : file.classAt (m.plainClass.declare μ).bytes = some (m.plainClass.declare μ)) :
    Recovers file.path m (m.record file μ) := by
  have declaring : (m.record file μ).declaration.class? = some (m.plainClass.declare μ) := found
  have fields : (m.record file μ).fields = fieldsOf file.path (m.plainClass.declare μ) := by
    rw [ModelRecord.fields, declaring]
    rfl
  have methods : (m.record file μ).methods = methodsOf file.path (m.plainClass.declare μ) := by
    rw [ModelRecord.methods, declaring]
    rfl
  refine ⟨rfl, rfl, rfl, rfl, rfl, rfl, ?_, ?_, ?_, methods⟩
  · rw [fields]
    exact names_fieldsOf_declare file.path μ m
  · rw [fields]
    exact fun f => kind_of_mem_fieldsOf_declare
  · rw [fields]
    exact fun f => bare_of_mem_fieldsOf_declare

/-- Of the classes declared behind a mark, those of models with an identifier give records. -/
theorem recovers_declare {file : SourceFile} (μ : Mark) (models : List CanonicalModel)
    (found : ∀ c ∈ Plain.declare μ (models.map CanonicalModel.plainClass),
      file.classAt c.bytes = some c) :
    List.Forall₂ (Recovers file.path) (models.filter (·.identifier.1 ≠ ""))
      ((Plain.declare μ (models.map CanonicalModel.plainClass)).filterMap (extractModel file)) := by
  induction models generalizing μ with
  | nil => exact .nil
  | cons m rest ih =>
    rw [List.map_cons, Plain.declare, List.forall_mem_cons] at found
    have others := ih (Plain.past μ m.plainClass.spell) found.2
    rw [List.map_cons, Plain.declare, List.filterMap_cons, extractModel_declare]
    by_cases unnamed : m.identifier.1 = ""
    · rw [List.filter_cons_of_neg (by simpa using unnamed), if_pos unnamed]
      exact others
    · rw [List.filter_cons_of_pos (by simpa using unnamed), if_neg unnamed]
      exact .cons (recovers_record found.1) others

/-- Extraction gives back the models of a canonical source, but for those without an identifier. -/
theorem canonical_models_recovered (path : String) (models : List CanonicalModel) :
    List.Forall₂ (Recovers path) (models.filter (·.identifier.1 ≠ ""))
      (extractModels (.parse path (canonicalSource models))) := by
  have plain : (models.map CanonicalModel.plainClass).all Plain.Class.isPlain = true := by
    rw [List.all_map]
    exact List.all_eq_true.mpr fun m _ => m.isPlain_plainClass
  have classes := classes_parse_spell path plain (toList_canonicalSource models)
  rw [extractModels, classes]
  have apart : Apart (SourceFile.parse path (canonicalSource models)).classes := by
    rw [classes]
    exact Plain.apart_declare {} (models.map CanonicalModel.plainClass)
  refine @recovers_declare (.parse path (canonicalSource models)) {} models fun c member => ?_
  rw [← classes] at member
  exact classAt_of_mem apart member

end ModelAtlas.Model
