import ModelAtlas.Proofs.Index.Scans
import ModelAtlas.Proofs.Index.Stalling
import ModelAtlas.Proofs.Inheritance.Preorder
import ModelAtlas.Proofs.Workspace.Workers

/-!
# Summaries agree with the other queries

The summary of a model counts its fields and its children as the queries for them do, shows the first of
each, and says how many more there are. The children come from the edges of the graph and the records
that inherit from a model from its maps, so they agree as long as the graph is consistent.
-/

namespace ModelAtlas

open Config Files Index Inheritance Model Std

/-! ### Children -/

namespace Inheritance.Graph

theorem Consistent.heir {g : Graph} (consistent : g.Consistent) {id c : String}
    (child : c ∈ g.childrenOf id) : ∃ r, g.get? c = some r ∧ r.identifier = c ∧ id ∈ r.parents := by
  obtain ⟨⟨r, stored, listed⟩, _⟩ := (consistent.children id c).mp (ExtTreeSet.mem_toList.mp child)
  exact ⟨r, stored, consistent.identified c r stored, listed⟩

/-- Every child has a record, which stands for it. -/
theorem Consistent.map_identifier_heirs {g : Graph} (consistent : g.Consistent) (id : String) :
    ((g.childrenOf id).filterMap g.get?).map ModelRecord.identifier = g.childrenOf id := by
  have all : ∀ list : List String, (∀ c ∈ list, ∃ r, g.get? c = some r ∧ r.identifier = c) →
      (list.filterMap g.get?).map ModelRecord.identifier = list := by
    intro list
    induction list with
    | nil => exact fun _ => rfl
    | cons c rest ih =>
      intro stored
      obtain ⟨⟨r, found, same⟩, others⟩ := List.forall_mem_cons.mp stored
      rw [List.filterMap_cons_some found, List.map_cons, same, ih others]
  refine all _ fun c child => ?_
  obtain ⟨r, stored, same, _⟩ := consistent.heir child
  exact ⟨r, stored, same⟩

end Inheritance.Graph

namespace Workspace

/-! ### Texts -/

namespace Summary

theorem remainder_add (shown left : Nat) :
    remainder (shown + left) shown = if left = 0 then none else some left := by
  unfold remainder
  by_cases none : left = 0
  · rw [none, if_neg (by omega), if_pos rfl]
  · rw [if_pos (by omega), if_neg none, Nat.add_sub_cancel_left]

/-- The fields that are listed, and how many more there are. -/
theorem fieldsText_eq {s : Summary} {left : Nat} (counted : s.fields.length + left = s.fieldCount) :
    s.fieldsText =
      if s.fields = [] then ""
      else "\n\n*Fields (" ++ toString s.fieldCount ++ "):*" ++
        String.join (s.fields.map fun f =>
          "\n- `" ++ f.name ++ "`: " ++ f.kind.name ++ if f.required then " (required)" else "") ++
        if left = 0 then "" else "\n- ... and " ++ toString left ++ " more" := by
  unfold fieldsText
  rw [← counted, remainder_add]
  simp only [List.isEmpty_iff]
  by_cases none : left = 0
  · rw [if_pos none, if_pos none]
    rfl
  · rw [if_neg none, if_neg none]
    rfl

/-- The children that are listed, and how many more there are. -/
theorem childrenText_eq {s : Summary} {more : Nat} (counted : s.children.length + more = s.childCount) :
    s.childrenText =
      if s.children = [] then ""
      else "\n\n*Inherited by:* " ++ String.intercalate ", " s.children ++
        if more = 0 then "" else " and " ++ toString more ++ " more" := by
  unfold childrenText
  rw [← counted, remainder_add]
  simp only [List.isEmpty_iff]
  by_cases none : more = 0
  · rw [if_pos none, if_pos none]
  · rw [if_neg none, if_neg none]

theorem markdown_eq (s : Summary) :
    s.markdown = "**" ++ s.identifier ++ "**" ++
      s.module.elim "" (fun name => " (" ++ name ++ ")") ++
      (if s.description = "" then "" else "\n\n" ++ s.description) ++
      (if s.parents = [] then ""
        else "\n\n*Inherits:* " ++ String.intercalate ", " s.parents) ++
      s.fieldsText ++ s.childrenText := by
  unfold markdown
  simp only [String.isEmpty_iff, List.isEmpty_iff]
  cases s.module <;> rfl

end Summary

/-! ### Stalled workspaces -/

theorem openAt_stalled (tree : Tree) (root : String) (config : Option Config)
    (stopped : (Pool.ofSize (settingsAt tree root config).workers).fate ≠ .ran) :
    (openAt tree root config).session.Stalled := by
  unfold openAt ensureStarted
  dsimp only
  rw [if_neg (by simp)]
  split
  · contradiction
  · exact Session.stalled_of_cold stopped rfl

theorem step_stalled {w : Workspace} (stalled : w.session.Stalled) (event : Event) :
    (w.step event).session.Stalled := by
  cases event with
  | edit tree => exact ⟨stalled.stopped, stalled.lists, stalled.due⟩
  | rebuild =>
    have scanned := stalled.rebuild w.rootPaths
    rcases w.rebuild_cases with ⟨_, same⟩ | same
    · exact same ▸ scanned
    · exact same ▸ scanned.clear
  | filesChanged paths =>
    obtain ⟨sources, _, ⟨_, same⟩ | ⟨_, same⟩⟩ := w.filesChanged_cases paths
    · exact same ▸ stalled
    · exact same ▸ (stalled.update sources).invalidate _
  | fields id => exact stalled.resolveFields id
  | methods id => exact stalled.resolveMethods id
  | describe id =>
    have waited := stalled.awaitReady
    show (w.describe id).2.session.Stalled
    unfold describe findModel read Session.read
    dsimp only
    cases w.session.awaitReady.2.index.graph.get? id with
    | none => exact waited
    | some r => exact (waited.resolveComplete id).awaitReady
  | related id path => exact stalled.walkFields id (segments path)

theorem run_stalled {w : Workspace} (stalled : w.session.Stalled) (events : List Event) :
    (w.run events).session.Stalled := by
  induction events generalizing w with
  | nil => exact stalled
  | cons event rest ih => exact ih (step_stalled stalled event)

/-- Fields are there in time only if jobs run. -/
theorem running_of_answersInTime {tree : Tree} {root : String} {config : Option Config}
    {events : List Event} {id : String}
    (inTime : ((openAt tree root config).run events).session.answersInTime id = true) :
    ((openAt tree root config).run events).session.pool.fate = .ran := by
  by_cases running : (Pool.ofSize (settingsAt tree root config).workers).fate = .ran
  · exact (run_prompt (openAt_sound tree root config) (openAt_prompt tree root config running)
      events).running
  · have stalled := run_stalled (openAt_stalled tree root config running) events
    rw [stalled.not_answersInTime] at inTime
    cases inTime

/-! ### Summaries -/

theorem findModel_eq (w : Workspace) (id : String) : (w.findModel id).1 = w.graph.get? id := by
  unfold findModel read Session.read graph
  dsimp only
  rw [w.session.keeps_awaitReady.index]

theorem inheriting_eq (w : Workspace) (id : String) :
    (w.inheriting id).1 = (w.graph.childrenOf id).filterMap w.graph.get? := by
  unfold inheriting read Session.read graph
  dsimp only
  rw [w.session.keeps_awaitReady.index]

theorem length_take_add {α : Type} (list : List α) (n : Nat) :
    (list.take n).length + (list.length - n) = list.length := by
  rw [List.length_take]
  omega

theorem sub_eq_zero_of_take {α : Type} {list : List α} {n : Nat} (some : 0 < n)
    (none : list.take n = []) : list.length - n = 0 := by
  have lengths := congrArg List.length none
  rw [List.length_take, List.length_nil] at lengths
  omega

/-- Whatever has happened to an open workspace, there is a summary of what there is a record of. It
shows the first fields and the first children that the queries for them give, the children in order,
and its text adds up to all of them. -/
theorem summary_agrees (tree : Tree) (root : String) (config : Option Config) (events : List Event)
    (id : String)
    (inTime : ((openAt tree root config).run events).session.answersInTime id = true) :
    let w := (openAt tree root config).run events
    let fields := (w.fieldsOf id).1
    let heirs := (w.inheriting id).1
    ((w.describe id).1.isSome ↔ (w.findModel id).1.isSome) ∧
    ∀ s, (w.describe id).1 = some s →
      s.fieldCount = fields.length ∧ s.fields = fields.take (min 10 s.fieldCount) ∧
      s.childCount = heirs.length ∧
      s.children = (heirs.take (min 5 s.childCount)).map ModelRecord.identifier ∧
      s.children.Pairwise (· < ·) ∧ (∀ r ∈ heirs, id ∈ r.parents) ∧
      ∃ left more, s.fields.length + left = s.fieldCount ∧
        s.children.length + more = s.childCount ∧
        (s.fields = [] → left = 0) ∧ (s.children = [] → more = 0) ∧
        s.markdown = "**" ++ s.identifier ++ "**" ++
          s.module.elim "" (fun name => " (" ++ name ++ ")") ++
          (if s.description = "" then "" else "\n\n" ++ s.description) ++
          (if s.parents = [] then ""
            else "\n\n*Inherits:* " ++ String.intercalate ", " s.parents) ++
          (if s.fields = [] then ""
            else "\n\n*Fields (" ++ toString s.fieldCount ++ "):*" ++
              String.join (s.fields.map fun f =>
                "\n- `" ++ f.name ++ "`: " ++ f.kind.name ++ if f.required then " (required)" else "") ++
              if left = 0 then "" else "\n- ... and " ++ toString left ++ " more") ++
          (if s.children = [] then ""
            else "\n\n*Inherited by:* " ++ String.intercalate ", " s.children ++
              if more = 0 then "" else " and " ++ toString more ++ " more") := by
  intro w fields heirs
  have sound : w.session.Sound := run_sound (openAt_sound tree root config) events
  have described := describe_eq sound (running_of_answersInTime inTime) id
  have given : fields = w.graph.fieldsOf id := sound.resolveFields_eq inTime
  have inheriting : heirs = _ := w.inheriting_eq id
  have named : heirs.map ModelRecord.identifier = w.graph.childrenOf id := by
    rw [inheriting]
    exact sound.consistent.map_identifier_heirs id
  refine ⟨?_, fun s shown => ?_⟩
  · rw [described, findModel_eq, Option.isSome_map]
  · rw [described] at shown
    obtain ⟨r, _, rfl⟩ := Option.map_eq_some_iff.mp shown
    rw [← given, ← named]
    have sorted : (heirs.map ModelRecord.identifier).Pairwise (· < ·) := by
      rw [named]
      exact childrenOf_pairwise_lt _ _
    refine ⟨rfl, List.take_eq_take_min, List.length_map _, ?_, sorted.take, ?_,
      fields.length - summaryFields, (heirs.map ModelRecord.identifier).length - summaryChildren,
      length_take_add _ _, length_take_add _ _, sub_eq_zero_of_take (by decide),
      sub_eq_zero_of_take (by decide), ?_⟩
    · exact List.take_eq_take_min.trans List.map_take.symm
    · intro heir member
      rw [inheriting] at member
      obtain ⟨c, child, stored⟩ := List.mem_filterMap.mp member
      obtain ⟨r, found, _, listed⟩ := sound.consistent.heir child
      obtain rfl : r = heir := Option.some.inj (found.symm.trans stored)
      exact listed
    · rw [Summary.markdown_eq, Summary.fieldsText_eq (length_take_add _ _),
        Summary.childrenText_eq (length_take_add _ _)]

/-! ### An example -/

/-- A model and one that inherits from it, in one source. -/
def pairSource : List UInt8 :=
  ("class A(models.Model):\n\t_name = 'a'\n\tx = fields.Char()\n" ++
    "class B(models.Model):\n\t_name = 'b'\n\t_inherit = ['a']\n").toUTF8.data.toList

def twoModels : Tree :=
  (∅ : Tree).insert ["ws"] .dir |>.insert ["ws", "a.py"] (.file pairSource)

/-- A project that such a source is added to. -/
def extended : Workspace :=
  (openAt ∅ "/ws" (some {})).run [.edit twoModels, .filesChanged ["/ws/a.py"]]

/-- What the source declares is all that there is. -/
theorem extended_graph : extended.graph =
    (commit {} (Path.ofParts ["ws", "a.py"]).text
      (plainModels (Path.ofParts ["ws", "a.py"]).text [fieldClass, classB])).2 := by
  unfold extended
  rw [graph_after_report (by decide) (by decide),
    show twoModels.contentAt ["ws", "a.py"] = some pairSource by decide,
    @declared_of_spelled _ _ [fieldClass, classB] (by decide) (by decide)]

theorem extended_heirs : (extended.inheriting "a").1.map (·.identifier) = ["b"] := by
  rw [inheriting_eq, extended_graph]
  decide

theorem extended_fields : (extended.graph.fieldsOf "a").map (fun f => (f.name, f.kind, f.required)) =
    [("x", .char, false)] := by
  have done : ((Worklist.turn extended.graph.parentsPushed)^[1] { stack := ["a"] }).stack = [] := by
    rw [extended_graph]
    decide
  rw [Graph.fieldsOf, ← extended.graph.emitted_of_done done, extended_graph]
  decide

theorem extended_summary_agrees :
    extended.session.answersInTime "a" = true ∧
    ∃ s, (extended.describe "a").1 = some s ∧ s.fieldCount = 1 ∧ s.children = ["b"] ∧
      ∃ above, s.markdown =
        above ++ "\n\n*Fields (1):*\n- `x`: Char" ++ "\n\n*Inherited by:* b" := by
  have opened := openAt_sound ∅ "/ws" (some {})
  have prompt : extended.session.Prompt :=
    run_prompt opened (openAt_prompt ∅ "/ws" (some {}) (by decide)) _
  have inTime := prompt.answersInTime (run_sound opened _) "a"
  obtain ⟨known, shown⟩ := summary_agrees ∅ "/ws" (some {})
    [.edit twoModels, .filesChanged ["/ws/a.py"]] "a" inTime
  have stored : (extended.findModel "a").1.isSome := by
    rw [findModel_eq, extended_graph]
    decide
  obtain ⟨s, described⟩ := Option.isSome_iff_exists.mp (known.mpr stored)
  have fields : (extended.fieldsOf "a").1 = extended.graph.fieldsOf "a" :=
    (run_sound opened [.edit twoModels, .filesChanged ["/ws/a.py"]]).resolveFields_eq inTime
  obtain ⟨f, field, isField⟩ := List.map_eq_singleton_iff.mp extended_fields
  obtain ⟨heir, heirs, isHeir⟩ := List.map_eq_singleton_iff.mp extended_heirs
  rw [field] at fields
  unfold extended at fields heirs
  obtain ⟨fieldCount, listed, childCount, children, _, _, left, more, left_add, more_add, _, _, text⟩ :=
    shown s described
  rw [fields] at fieldCount listed
  rw [heirs] at childCount children
  rw [fieldCount] at listed
  rw [childCount] at children
  replace fieldCount : s.fieldCount = 1 := fieldCount
  replace listed : s.fields = [f] := listed
  replace children : s.children = ["b"] := children.trans (congrArg ([·]) isHeir)
  obtain rfl : left = 0 := by
    rw [listed, fieldCount] at left_add
    exact Nat.add_left_cancel left_add
  obtain rfl : more = 0 := by
    rw [children, childCount] at more_add
    exact Nat.add_left_cancel more_add
  obtain ⟨name, kind, required⟩ : f.name = "x" ∧ f.kind = .char ∧ f.required = false := by
    simpa using isField
  rw [listed, children, fieldCount, if_neg (List.cons_ne_nil _ _), if_neg (List.cons_ne_nil _ _),
    if_pos rfl, if_pos rfl, List.map_singleton, name, kind, required] at text
  refine ⟨inTime, s, described, fieldCount, children, _, text.trans
    (congr (congrArg HAppend.hAppend (congrArg (HAppend.hAppend _) ?fields)) ?children)⟩
  case fields => decide
  case children => decide

end Workspace

end ModelAtlas
