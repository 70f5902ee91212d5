import ModelAtlas.Proofs.Index.ResolvedMembers

/-!
# Paths of related fields

A dotted path may be cut at any of its dots: the first part leads to a field, and the second part
goes on from the model that this field points to. A session resolves the parts one after the other,
and as long as its pool runs jobs, what it finds depends on the graph alone.
-/

namespace ModelAtlas.Inheritance

open Model

/-! ### Names on a path -/

theorem segments_append (p q : String) : segments (p ++ "." ++ q) = segments p ++ segments q := by
  have cut := List.splitOnP_append_cons (p := (· == '.')) p.toList q.toList (beq_self_eq_true '.')
  rw [segments, segments, segments, ← List.map_append, List.splitOn, List.splitOn, List.splitOn,
    ← cut, String.toList_append, String.toList_append, List.append_assoc]
  rfl

theorem segments_of_no_dot {name : String} (plain : '.' ∉ name.toList) :
    segments name = [name] := by
  have whole : name.toList.splitOn '.' = [name.toList] := by
    refine List.splitOnP_eq_singleton fun c member => beq_eq_false_iff_ne.mpr ?_
    rintro rfl
    exact plain member
  rw [segments, whole, List.map_singleton, String.ofList_toList]

theorem segments_ne_nil (path : String) : segments path ≠ [] := by
  rw [segments, Ne, List.map_eq_nil_iff]
  exact List.splitOnP_ne_nil _ _

/-! ### Paths through a graph -/

theorem findField_eq_some_iff {fields : List FieldRecord}
    (distinct : (fields.map FieldRecord.name).Nodup) (name : String) (f : FieldRecord) :
    findField fields name = some f ↔ f ∈ fields ∧ f.name = name := by
  constructor
  · intro found
    have named := List.find?_some found
    exact ⟨List.mem_of_find?_eq_some found, eq_of_beq named⟩
  · rintro ⟨member, rfl⟩
    exact (find?_name_iff distinct f).mpr member

/-- `walk` follows dotted paths, where the models have these fields. -/
structure FollowsPaths (fields : String → List FieldRecord)
    (walk : String → String → Option FieldRecord) : Prop where
  one : ∀ model name, '.' ∉ name.toList →
    ∀ f, walk model name = some f ↔ f ∈ fields model ∧ f.name = name
  joined : ∀ model p q,
    walk model (p ++ "." ++ q) = ((walk model p).bind (·.comodel)).bind (walk · q)

namespace Graph

theorem walkFields_cons (g : Graph) (model name : String) {rest : List String} (more : rest ≠ []) :
    g.walkFields model (name :: rest) =
      ((g.walkFields model [name]).bind (·.comodel)).bind (g.walkFields · rest) := by
  cases rest with
  | nil => exact absurd rfl more
  | cons second others =>
    rw [walkFields.eq_def, walkFields]
    dsimp only
    cases (findField (g.fieldsOf model) name).bind (·.comodel) <;> rfl

theorem walkFields_append (g : Graph) (model : String) {first second : List String}
    (begun : first ≠ []) (more : second ≠ []) :
    g.walkFields model (first ++ second) =
      ((g.walkFields model first).bind (·.comodel)).bind (g.walkFields · second) := by
  induction first generalizing model with
  | nil => exact absurd rfl begun
  | cons name rest ih =>
    have behind := List.append_ne_nil_of_right_ne_nil rest more
    rw [List.cons_append, walkFields_cons g model name behind]
    cases rest with
    | nil => rfl
    | cons next others =>
      have later := fun comodel => ih comodel (List.cons_ne_nil next others)
      simp only [later, walkFields_cons g model name (List.cons_ne_nil next others),
        Option.bind_assoc]

end Graph

end ModelAtlas.Inheritance

namespace ModelAtlas.Index

open Inheritance Model Source

theorem followsPaths (g : Graph) : FollowsPaths g.fieldsOf g.fieldAt where
  one model name plain f := by
    rw [Graph.fieldAt, segments_of_no_dot plain, Graph.walkFields]
    exact findField_eq_some_iff (Graph.inherits_firstOfEach nodup_fields g model).distinct name f
  joined model p q := by
    rw [Graph.fieldAt, segments_append]
    exact g.walkFields_append model (segments_ne_nil p) (segments_ne_nil q)

namespace Session

/-- Goes on along `names` from the model that a field points to. -/
def walkOn (s : Session) (field : Option FieldRecord) (names : List String) :
    Option FieldRecord × Session :=
  match field.bind (·.comodel) with
  | none => (none, s)
  | some comodel => s.walkFields comodel names

theorem walkFields_one (s : Session) (model name : String) :
    s.walkFields model [name] =
      (findField (s.resolveComplete model).1 name, (s.resolveComplete model).2) := by
  unfold walkFields
  dsimp only
  cases findField (s.resolveComplete model).1 name <;> rfl

theorem walkFields_cons (s : Session) (model name : String) {rest : List String}
    (more : rest ≠ []) :
    s.walkFields model (name :: rest) =
      (s.walkFields model [name]).2.walkOn (s.walkFields model [name]).1 rest := by
  rw [walkFields_one, walkFields]
  dsimp only
  cases findField (s.resolveComplete model).1 name with
  | none => rfl
  | some field => cases pointed : field.comodel <;> simp [walkOn, more, pointed]

/-- The session in which the first part ends is the one in which the second part starts. -/
theorem walkFields_append (s : Session) (model : String) {first second : List String}
    (begun : first ≠ []) (more : second ≠ []) :
    s.walkFields model (first ++ second) =
      (s.walkFields model first).2.walkOn (s.walkFields model first).1 second := by
  induction first generalizing s model with
  | nil => exact absurd rfl begun
  | cons name rest ih =>
    have behind := List.append_ne_nil_of_right_ne_nil rest more
    rw [List.cons_append, walkFields_cons s model name behind]
    cases rest with
    | nil => rfl
    | cons next others =>
      -- both walks start with `name`, so what is left is the rest from where that leads
      rw [walkFields_cons s model name (List.cons_ne_nil next others)]
      generalize s.walkFields model [name] = reached
      obtain ⟨field, t⟩ := reached
      unfold walkOn
      cases field.bind (·.comodel) with
      | none => rfl
      | some comodel => exact ih t comodel (List.cons_ne_nil next others)

end Session

/-- What a dotted path leads to is found in stages, in the graph and by a session, and a field that
a path without dots leads to is the one of that name. -/
theorem related_path_in_stages (g : Graph) :
    FollowsPaths g.fieldsOf g.fieldAt ∧
    ∀ s : Session, s.index.graph = g →
      (∀ model p q, s.resolvePath model (p ++ "." ++ q) =
        (s.resolvePath model p).2.walkOn (s.resolvePath model p).1 (segments q)) ∧
      (∀ model name, '.' ∉ name.toList → s.resolvePath model name =
        (findField (s.resolveComplete model).1 name, (s.resolveComplete model).2)) ∧
      (s.Sound → s.pool.fate = .ran →
        FollowsPaths (fun model => (s.resolveComplete model).1)
          (fun model path => (s.resolvePath model path).1) ∧
        ∀ model, (s.resolveComplete model).1 = g.fieldsOf model ∧
          ∀ path, (s.resolvePath model path).1 = g.fieldAt model path) := by
  refine ⟨followsPaths g, ?_⟩
  rintro s rfl
  refine ⟨fun model p q => ?_, fun model name plain => ?_, fun sound running => ?_⟩
  · rw [Session.resolvePath, segments_append]
    exact s.walkFields_append model (segments_ne_nil p) (segments_ne_nil q)
  · rw [Session.resolvePath, segments_of_no_dot plain]
    exact s.walkFields_one model name
  · have complete := sound.resolveComplete_eq running
    have walked := fun model path => sound.walkFields_eq running model (segments path)
    refine ⟨?_, fun model => ⟨complete model, walked model⟩⟩
    have graph := followsPaths s.index.graph
    constructor
    · intro model name plain f
      rw [complete, Session.resolvePath, walked]
      exact graph.one model name plain f
    · intro model p q
      simp only [Session.resolvePath, walked]
      exact graph.joined model p q

/-- A model at some byte of a file, whose fields have a kind and the model they point to. -/
def relatedModel (start : Nat) (id : String) (parents : List String)
    (fields : List (String × FieldKind × String)) : ClassDecl where
  name := id
  nameRange := {}
  span := ⟨{ offset := start }, { offset := start + 1 }⟩
  bases := [.qualified modelsAlias "Model"]
  attributes := ⟨"_name", .str id, {}⟩ :: ⟨"_inherit", .list (parents.map .str), {}⟩ ::
    fields.map fun (name, kind, comodel) =>
      ⟨name, .call ⟨.qualified fieldsAlias kind.name, [.str comodel], []⟩, {}⟩
  methods := []
  docstring := none

/-- `a` inherits the field that leads to `b`, which leads back. -/
def relatedFile : SourceFile := ⟨"/ws/a.py", { classes := [
  relatedModel 0 "a" ["m"] [("z", .html, "")],
  relatedModel 1 "b" [] [("a", .many2one, "a"), ("x", .char, "")],
  relatedModel 2 "m" [] [("b", .many2one, "b")]] }⟩

def relatedSession : Session where
  index := { graph := Graph.addAll {} (extractModels relatedFile), status := { readyOnce := true } }
  pool := .ofSize 2
  waitMs := 5

theorem related_fields :
    (findField (relatedSession.index.graph.fieldsOf "a") "b").bind (·.comodel) = some "b" ∧
    (findField (relatedSession.index.graph.fieldsOf "b") "a").bind (·.comodel) = some "a" ∧
    (findField (relatedSession.index.graph.fieldsOf "b") "x").map (·.kind) = some .char := by
  have a : ((Worklist.turn relatedSession.index.graph.parentsPushed)^[2] { stack := ["a"] }).stack
    = [] := by decide
  have b : ((Worklist.turn relatedSession.index.graph.parentsPushed)^[1] { stack := ["b"] }).stack
    = [] := by decide
  rw [Graph.fieldsOf, Graph.fieldsOf, ← Graph.emitted_of_done _ a, ← Graph.emitted_of_done _ b]
  decide

/-- A path that goes around the circle leads to what its last part leads to. -/
theorem related_circle :
    relatedSession.Sound ∧ relatedSession.pool.fate = .ran ∧ '.' ∉ "b".toList ∧
    (relatedSession.resolvePath "a" "b").1 =
      findField (relatedSession.resolveComplete "a").1 "b" ∧
    (relatedSession.resolvePath "a" ("b.a" ++ "." ++ "b.x")).1 =
      (relatedSession.resolvePath "a" "b.x").1 ∧
    (relatedSession.resolvePath "a" "b.x").1.map (·.kind) = some .char := by
  obtain ⟨toB, toA, kind⟩ := related_fields
  obtain ⟨_, sessions⟩ := related_path_in_stages relatedSession.index.graph
  obtain ⟨_, single, answers⟩ := sessions relatedSession rfl
  have sound : relatedSession.Sound :=
    Session.sound_of_cold (Graph.consistent_empty.addAll _) rfl rfl
  have running : relatedSession.pool.fate = .ran := by decide
  have plain : '.' ∉ "b".toList := by decide
  obtain ⟨follows, graph⟩ := answers sound running
  have around : (relatedSession.resolvePath "a" "b.a").1.bind (·.comodel) = some "a" := by
    rw [(graph "a").2, Graph.fieldAt, show segments "b.a" = ["b", "a"] by decide]
    simp only [Graph.walkFields, toB, toA]
  refine ⟨sound, running, plain, ?_, ?_, ?_⟩
  · rw [single "a" "b" plain]
  · exact (follows.joined "a" "b.a" "b.x").trans (by rw [around, Option.bind_some])
  · rw [(graph "a").2, Graph.fieldAt, show segments "b.x" = ["b", "x"] by decide]
    simp only [Graph.walkFields, toB, kind]

end ModelAtlas.Index
