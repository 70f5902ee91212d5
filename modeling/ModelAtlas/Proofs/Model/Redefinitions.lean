import ModelAtlas.Proofs.Model.Members
import ModelAtlas.Proofs.Source.Classes

/-!
# Redefinitions

A name that a class defines several times stays where it was defined first and means what it was
defined as last. This holds of fields and of methods alike. Of the assignments to a name only those
count that declare a field, so a field outlives a later assignment that declares none.
-/

namespace ModelAtlas.Model

open Source

variable {α : Type} {name : α → String}

/-! ### The last of each name -/

/-- `list` has each name once, in the order of first definitions, with its last definition. -/
structure LastOfEach (name : α → String) (definitions list : List α) : Prop where
  distinct : (list.map name).Nodup
  inOrder : list.map name = (definitions.map name).eraseDups
  last : ∀ m, m ∈ list ↔ ∃ before after, definitions = before ++ m :: after ∧
    ∀ other ∈ after, name other ≠ name m

theorem lastOfEach_collect (definitions : List α) :
    LastOfEach name definitions (collect name definitions) where
  distinct := nodup_collect definitions
  inOrder := map_name_collect definitions
  last m := by
    rw [mem_collect, List.find?_eq_some_iff_append]
    constructor
    · rintro ⟨_, after, before, split, others⟩
      refine ⟨before.reverse, after.reverse, ?_, fun other later => ?_⟩
      · rw [← List.reverse_reverse definitions, split]
        simp
      · simpa using others other (List.mem_reverse.mp later)
    · rintro ⟨before, after, rfl, others⟩
      refine ⟨beq_self_eq_true _, after.reverse, before.reverse, by simp, fun other later => ?_⟩
      simpa using others other (List.mem_reverse.mp later)

theorem find?_collect (definitions : List α) (n : String) :
    (collect name definitions).find? (name · == n) = definitions.reverse.find? (name · == n) := by
  cases found : definitions.reverse.find? (name · == n) with
  | none =>
    rw [find?_name_eq_none_iff, List.map_reverse, List.mem_reverse] at found
    rwa [find?_name_eq_none_iff, map_name_collect, List.mem_eraseDups]
  | some m =>
    obtain rfl : name m = n := by simpa using List.find?_some found
    rw [find?_name_iff (nodup_collect definitions), mem_collect, found]

/-! ### Declarations of fields -/

theorem FieldKind.ofName?_name (k : FieldKind) : FieldKind.ofName? k.name = some k := by
  cases k <;> decide

theorem FieldKind.ofName?_eq_some_iff {n : String} {k : FieldKind} :
    FieldKind.ofName? n = some k ↔ n = k.name := by
  constructor
  · intro known
    unfold FieldKind.ofName? at known
    have named := List.find?_some known
    exact (eq_of_beq named).symm
  · rintro rfl
    exact FieldKind.ofName?_name k

theorem fieldCall?_eq_some_iff {value : Expr} {kind : FieldKind} {call : Call} :
    fieldCall? value = some (kind, call) ↔
      value = .call call ∧ call.callee = .qualified fieldsAlias kind.name := by
  constructor
  · intro declared
    unfold fieldCall? at declared
    split at declared
    · split at declared
      · rename_i inner qualifier constructorName callee
        split at declared
        · rename_i imported
          obtain ⟨known, isKind, same⟩ := Option.map_eq_some_iff.mp declared
          obtain ⟨rfl, rfl⟩ := Prod.mk.inj same
          rw [imported, FieldKind.ofName?_eq_some_iff.mp isKind] at callee
          exact ⟨rfl, callee⟩
        · cases declared
      · cases declared
    · cases declared
  · rintro ⟨rfl, callee⟩
    rw [fieldCall?, callee]
    simp [FieldKind.ofName?_name]

/-- An attribute declares a field if it calls the constructor of a kind. -/
theorem fieldOf?_eq_some_iff {path : String} {a : Attribute} {f : FieldRecord} :
    fieldOf? path a = some f ↔ ∃ kind call, a.value = .call call ∧
      call.callee = .qualified fieldsAlias kind.name ∧
      f = .ofCall a.name kind call ⟨path, a.range⟩ := by
  rw [fieldOf?, Option.map_eq_some_iff]
  constructor
  · rintro ⟨⟨kind, call⟩, declared, rfl⟩
    obtain ⟨value, callee⟩ := fieldCall?_eq_some_iff.mp declared
    exact ⟨kind, call, value, callee, rfl⟩
  · rintro ⟨kind, call, value, callee, rfl⟩
    exact ⟨(kind, call), fieldCall?_eq_some_iff.mpr ⟨value, callee⟩, rfl⟩

theorem name_of_fieldOf? {path : String} {a : Attribute} {f : FieldRecord}
    (declared : fieldOf? path a = some f) : f.name = a.name := by
  obtain ⟨_, _, _, _, rfl⟩ := fieldOf?_eq_some_iff.mp declared
  rfl

/-! ### Definitions of methods -/

/-- The receiver of a method is no parameter of it. -/
theorem withoutReceiver_eq (decorators parameters : List String) :
    withoutReceiver decorators parameters =
      if (parameters.head? = some "self" ∨ parameters.head? = some "cls") ∧
        "staticmethod" ∉ decorators then parameters.tail else parameters := by
  cases parameters with
  | nil => simp [withoutReceiver]
  | cons receiver rest =>
    rw [withoutReceiver]
    simp only [Bool.and_eq_true, Bool.or_eq_true, beq_iff_eq, Bool.not_eq_true',
      List.contains_eq_mem, decide_eq_false_iff_not, List.head?_cons, Option.some.injEq,
      List.tail_cons]

/-! ### Members of a class -/

/-- The fields of a class are those that its attributes declare and its methods those that it
defines, each name at its first place with its last definition, whichever way they are collected. -/
theorem class_members_last_of_each (path : String) (c : ClassDecl) :
    LastOfEach FieldRecord.name (c.attributes.filterMap (fieldOf? path)) (fieldsOf path c) ∧
    LastOfEach MethodRecord.name (c.methods.map (MethodRecord.ofDecl path)) (methodsOf path c) ∧
    fieldsOf path c = collect FieldRecord.name (c.attributes.filterMap (fieldOf? path)) ∧
    methodsOf path c = collect MethodRecord.name (c.methods.map (MethodRecord.ofDecl path)) ∧
    (∀ a f, fieldOf? path a = some f ↔ ∃ kind call, a.value = .call call ∧
      call.callee = .qualified fieldsAlias kind.name ∧
      f = .ofCall a.name kind call ⟨path, a.range⟩) ∧
    ∀ d, (MethodRecord.ofDecl path d).name = d.name ∧
      (MethodRecord.ofDecl path d).location = ⟨path, d.range⟩ ∧
      (MethodRecord.ofDecl path d).parameters =
        if (d.parameters.head? = some "self" ∨ d.parameters.head? = some "cls") ∧
          "staticmethod" ∉ d.decorators then d.parameters.tail else d.parameters := by
  have fields := fieldsOf_eq_collect path c
  have methods := methodsOf_eq_collect path c
  refine ⟨?_, ?_, fields, methods, fun _ _ => fieldOf?_eq_some_iff, fun d => ⟨rfl, rfl, ?_⟩⟩
  · rw [fields]
    exact lastOfEach_collect _
  · rw [methods]
    exact lastOfEach_collect _
  · exact withoutReceiver_eq d.decorators d.parameters

/-! ### Fields and assignments -/

/-- What a name is assigned last declares no field, but something before did. -/
def Overwritten (path : String) (c : ClassDecl) (n : String) : Prop :=
  (∃ a ∈ c.attributes, a.name = n ∧ (fieldOf? path a).isSome) ∧
    ∃ a, c.assigned n = some a ∧ fieldOf? path a = none

/-- The last assignment to `n` that declares a field. -/
def lastDeclaring (path : String) (c : ClassDecl) (n : String) : Option Attribute :=
  c.attributes.reverse.find? fun a => a.name == n && (fieldOf? path a).isSome

section Assignments

variable {path : String} {c : ClassDecl} {n : String} {a : Attribute}

theorem find?_fieldsOf :
    (fieldsOf path c).find? (·.name == n) = (lastDeclaring path c n).bind (fieldOf? path) := by
  rw [fieldsOf_eq_collect, find?_collect, ← List.filterMap_reverse, List.find?_filterMap]
  refine congrArg (fun p => (c.attributes.reverse.find? p).bind (fieldOf? path))
    (funext fun a => ?_)
  cases declared : fieldOf? path a with
  | none => simp
  | some f => simp [name_of_fieldOf? declared]

theorem lastDeclaring_eq_none_iff :
    lastDeclaring path c n = none ↔
      ¬ ∃ a ∈ c.attributes, a.name = n ∧ (fieldOf? path a).isSome := by
  rw [lastDeclaring, List.find?_eq_none]
  simp only [List.mem_reverse, Bool.and_eq_true, beq_iff_eq, not_exists, not_and]

theorem bind_lastDeclaring_eq_none_iff :
    (lastDeclaring path c n).bind (fieldOf? path) = none ↔
      ¬ ∃ a ∈ c.attributes, a.name = n ∧ (fieldOf? path a).isSome := by
  rw [← lastDeclaring_eq_none_iff]
  cases found : lastDeclaring path c n with
  | none => exact iff_of_true rfl rfl
  | some a =>
    have holds := List.find?_some found
    have declares := (Bool.and_eq_true_iff.mp holds).2
    exact iff_of_false (Option.isSome_iff_ne_none.mp declares) nofun

/-- An assignment that declares a field and is the last one is the last one that does. -/
theorem lastDeclaring_of_assigned (assigned : c.assigned n = some a)
    (declares : (fieldOf? path a).isSome) : lastDeclaring path c n = some a := by
  rw [ClassDecl.assigned, List.find?_eq_some_iff_append] at assigned
  obtain ⟨named, later, earlier, split, others⟩ := assigned
  rw [lastDeclaring, List.find?_eq_some_iff_append]
  refine ⟨by rw [named, declares]; rfl, later, earlier, split, fun other member => ?_⟩
  have differs := others other member
  rw [Bool.not_eq_true'] at differs
  rw [differs]
  rfl

theorem not_overwritten_of_assigned (assigned : c.assigned n = some a)
    (declares : (fieldOf? path a).isSome) : ¬ Overwritten path c n := by
  rintro ⟨_, other, last, undeclared⟩
  obtain rfl : a = other := Option.some.inj (assigned.symm.trans last)
  rw [undeclared] at declares
  cases declares

end Assignments

/-- The field of a name is that of its last assignment that declares one. This is what the name is
assigned last, unless that overwrites a field without declaring another. -/
theorem fields_follow_assignments_unless_overwritten (path : String) (c : ClassDecl) (n : String) :
    (fieldsOf path c).find? (·.name == n) = (lastDeclaring path c n).bind (fieldOf? path) ∧
    ((fieldsOf path c).find? (·.name == n) = (c.assigned n).bind (fieldOf? path) ↔
      ¬ Overwritten path c n) := by
  refine ⟨find?_fieldsOf, ?_⟩
  rw [find?_fieldsOf]
  cases assigned : c.assigned n with
  | none =>
    have undeclared : ¬ ∃ a ∈ c.attributes, a.name = n ∧ (fieldOf? path a).isSome := by
      rintro ⟨a, member, named, _⟩
      rw [ClassDecl.assigned, List.find?_eq_none] at assigned
      exact assigned a (List.mem_reverse.mpr member) (beq_iff_eq.mpr named)
    rw [Option.bind_none, bind_lastDeclaring_eq_none_iff]
    exact iff_of_true undeclared fun overwritten => undeclared overwritten.1
  | some a =>
    cases declared : fieldOf? path a with
    | some f =>
      have declares : (fieldOf? path a).isSome := by rw [declared]; rfl
      rw [lastDeclaring_of_assigned assigned declares]
      exact iff_of_true rfl (not_overwritten_of_assigned assigned declares)
    | none =>
      -- nothing to follow here, so the two agree only if no field was declared before
      rw [Option.bind_some, declared, bind_lastDeclaring_eq_none_iff]
      exact not_congr ⟨fun earlier => ⟨earlier, a, assigned, declared⟩, And.left⟩

def shadowedSource : String :=
  "class A(models.Model):\n\t_name = 'a'\n\tx = fields.Char()\n\tx = ''\n"

def shadowedClass : Plain.Class where
  name := "A".toList
  qualifier := modelsAlias.toList
  base := "Model".toList
  assignments := [⟨"_name".toList, .str "a".toList⟩,
    ⟨"x".toList, .call fieldsAlias.toList "Char".toList⟩, ⟨"x".toList, .str []⟩]

/-- A name that is assigned a text at last is still among the fields. -/
theorem shadowed_field_kept : ∃ c ∈ (SourceFile.parse "/ws/a.py" shadowedSource).classes,
    ((fieldsOf "/ws/a.py" c).find? (·.name == "x")).map (·.kind) = some .char ∧
    (c.assigned "x").map (·.value.str?) = some (some "") ∧
    (c.assigned "x").bind (fieldOf? "/ws/a.py") = none := by
  have classes :=
    @classes_parse_spell "/ws/a.py" shadowedSource [shadowedClass] (by decide) (by decide)
  refine ⟨shadowedClass.declare {}, ?_, by decide, by decide, by decide⟩
  rw [classes]
  exact List.mem_singleton_self _

end ModelAtlas.Model
