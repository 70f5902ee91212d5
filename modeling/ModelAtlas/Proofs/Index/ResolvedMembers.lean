import ModelAtlas.Proofs.Index.MemberCaches
import ModelAtlas.Proofs.Inheritance.Preorder
import ModelAtlas.Proofs.Model.Members
import ModelAtlas.Proofs.Source.Plain.Spelling

/-!
# Inherited members

A class declares each of its members once, so along a lineage only the classes compete for a name,
and the one that is visited first wins. This holds of fields and of methods, in any graph, and
whether a session computes the list or has it in a cache.
-/

namespace ModelAtlas.Inheritance

open Model

variable {α : Type} {members : ModelRecord → List α} {name : α → String}

/-- `list` is what `id` has of its own and inherits. -/
structure Inherits (g : Graph) (id : String) (members : ModelRecord → List α) (name : α → String)
    (list : List α) : Prop where
  distinct : (list.map name).Nodup
  declared : ∀ n, n ∈ list.map name ↔ ∃ x r, Relation.ReflTransGen (Lists g.models) id x ∧
    g.get? x = some r ∧ n ∈ (members r).map name
  /-- A member comes from the first record that declares its name. -/
  first : ∀ m, m ∈ list ↔ ∃ before r after, (g.visit ∅ id).records = before ++ r :: after ∧
    m ∈ members r ∧ ∀ b ∈ before, name m ∉ (members b).map name
  own : ∀ r, g.get? id = some r → members r <+: list
  inOrder : list.Sublist ((g.lineage id).flatMap members)

namespace Graph

theorem lineage_eq_visit (g : Graph) (id : String) : g.lineage id = (g.visit ∅ id).records := by
  rw [lineage, lineageFrom_visit, lineageFrom, List.append_nil]

/-- Of records with distinct members, the first of each name come from the record that declares the
name first. -/
theorem mem_firstOfEach_flatMap (distinct : ∀ r, ((members r).map name).Nodup)
    (lineage : List ModelRecord) (m : α) :
    m ∈ firstOfEach name (lineage.flatMap members) ↔ ∃ before r after,
      lineage = before ++ r :: after ∧ m ∈ members r ∧
        ∀ b ∈ before, name m ∉ (members b).map name := by
  rw [firstOfEach, ← find?_name_iff (nodup_firstUnseen [] _), find?_firstUnseen List.not_mem_nil,
    List.find?_flatMap, List.findSome?_eq_some_iff]
  simp only [find?_name_iff (distinct _), find?_name_eq_none_iff]

theorem inherits_firstOfEach (distinct : ∀ r, ((members r).map name).Nodup) (g : Graph)
    (id : String) :
    Inherits g id members name (firstOfEach name ((g.lineage id).flatMap members)) where
  distinct := nodup_firstUnseen [] _
  declared n := by
    have kept := @find?_firstUnseen _ name [] n List.not_mem_nil ((g.lineage id).flatMap members)
    have same : n ∈ (firstOfEach name ((g.lineage id).flatMap members)).map name ↔
        n ∈ ((g.lineage id).flatMap members).map name := by
      rw [← not_iff_not, ← find?_name_eq_none_iff, firstOfEach, kept, find?_name_eq_none_iff]
    rw [same]
    constructor
    · intro declared
      obtain ⟨m, member, rfl⟩ := List.mem_map.mp declared
      obtain ⟨r, inLineage, own⟩ := List.mem_flatMap.mp member
      obtain ⟨x, reached, stored⟩ := (g.mem_lineage_iff id r).mp inLineage
      exact ⟨x, r, reached, stored, List.mem_map_of_mem own⟩
    · rintro ⟨x, r, reached, stored, declared⟩
      obtain ⟨m, own, rfl⟩ := List.mem_map.mp declared
      have inLineage := (g.mem_lineage_iff id r).mpr ⟨x, reached, stored⟩
      exact List.mem_map_of_mem (List.mem_flatMap.mpr ⟨r, inLineage, own⟩)
  first m := by
    rw [← lineage_eq_visit]
    exact mem_firstOfEach_flatMap distinct _ m
  own r stored := by
    rw [← head?_lineage, List.head?_eq_some_iff] at stored
    obtain ⟨rest, lineage⟩ := stored
    rw [lineage, List.flatMap_cons]
    exact prefix_firstUnseen (distinct r) (fun _ _ => List.not_mem_nil) _
  inOrder := firstUnseen_sublist [] _

end Graph

end ModelAtlas.Inheritance

namespace ModelAtlas.Index

open Inheritance Model Source

theorem nodup_fields (r : ModelRecord) : (r.fields.map FieldRecord.name).Nodup := by
  unfold ModelRecord.fields
  cases r.declaration.class? with
  | none => exact List.nodup_nil
  | some c =>
    rw [Option.map_some, Option.getD_some, fieldsOf_eq_collect]
    exact nodup_collect _

theorem nodup_methods (r : ModelRecord) : (r.methods.map MethodRecord.name).Nodup := by
  unfold ModelRecord.methods
  cases r.declaration.class? with
  | none => exact List.nodup_nil
  | some c =>
    rw [Option.map_some, Option.getD_some, methodsOf_eq_collect]
    exact nodup_collect _

/-- In any graph, the fields and the methods of a model are those it declares and inherits, each from
the record that is first in the order of its parents. These are the lists that a session gives, from
its caches or not, as long as its pool runs jobs and a query has the time to wait for them. -/
theorem resolved_members_inherited (g : Graph) (id : String) :
    Inherits g id ModelRecord.fields FieldRecord.name (g.fieldsOf id) ∧
    Inherits g id ModelRecord.methods MethodRecord.name (g.methodsOf id) ∧
    ∀ s : Session, s.Sound → s.index.graph = g →
      (s.pool.fate = .ran → (s.resolveComplete id).1 = g.fieldsOf id) ∧
      (s.answersInTime id = true → (s.resolveFields id).1 = g.fieldsOf id) ∧
      (s.resolveMethods id).1 = g.methodsOf id := by
  refine ⟨Graph.inherits_firstOfEach nodup_fields g id, Graph.inherits_firstOfEach nodup_methods g id,
    ?_⟩
  rintro s sound rfl
  exact ⟨fun running => sound.resolveComplete_eq running id, fun inTime => sound.resolveFields_eq inTime,
    (sound.resolveMethods id).1⟩

/-! ### A circle -/

def plainModel (name : Char) (parents : List Char) (fields : List (Char × String)) : Plain.Class where
  name := [name.toUpper]
  qualifier := "models".toList
  base := "Model".toList
  assignments := ⟨"_name".toList, .str [name]⟩ :: ⟨"_inherit".toList, .list (parents.map ([·]))⟩ ::
    fields.map fun (field, type) => ⟨[field], .call "fields".toList type.toList⟩

/-- Two ways lead from `a` to `b`, which leads back, and a third one leads nowhere. -/
def circleFile : SourceFile := ⟨"/ws/a.py", { classes := Plain.declare {} [
  plainModel 'a' ['c', 'b', 'd'] [('x', "Char")],
  plainModel 'b' ['a'] [('y', "Date"), ('w', "Json"), ('x', "Text")],
  plainModel 'c' ['b'] [('z', "Html"), ('y', "Float")]] }⟩

def circleSession : Session where
  index := { graph := Graph.addAll {} (extractModels circleFile), status := { readyOnce := true } }
  pool := .ofSize 2
  waitMs := 5

theorem sound_circleSession : circleSession.Sound :=
  Session.sound_of_cold (Graph.consistent_empty.addAll _) rfl rfl

theorem circle_fields : (circleSession.index.graph.fieldsOf "a").map (fun f => (f.name, f.kind)) =
    [("x", .char), ("z", .html), ("y", .float), ("w", .json)] := by
  have done : ((Worklist.turn circleSession.index.graph.parentsPushed)^[6] { stack := ["a"] }).stack
    = [] := by decide
  rw [Graph.fieldsOf, ← circleSession.index.graph.emitted_of_done done]
  decide +kernel

theorem circle_members :
    circleSession.Sound ∧ circleSession.pool.fate = .ran ∧ circleSession.answersInTime "a" = true ∧
    (circleSession.resolveFields "a").1 = (circleSession.resolveComplete "a").1 ∧
    (circleSession.resolveFields "a").1.map (fun f => (f.name, f.kind)) =
      [("x", .char), ("z", .html), ("y", .float), ("w", .json)] := by
  obtain ⟨_, _, sessions⟩ := resolved_members_inherited circleSession.index.graph "a"
  obtain ⟨complete, prompt, _⟩ := sessions circleSession sound_circleSession rfl
  have running : circleSession.pool.fate = .ran := by decide
  have inTime : circleSession.answersInTime "a" = true := by decide
  refine ⟨sound_circleSession, running, inTime, ?_, ?_⟩
  · rw [complete running, prompt inTime]
  · rw [prompt inTime]
    exact circle_fields

end ModelAtlas.Index
