import ModelAtlas.Inheritance.Graph
import ModelAtlas.Model.Inspection
import ModelAtlas.Proofs.Model.Members
import ModelAtlas.Proofs.Source.Plain.Spelling

/-!
# Inspection and extraction

Inspection and extraction read the same attributes of a class on their own, and they agree: a class
gives no record exactly if it has no framework base, no name, or a name that inspection reports as
bad, and the unknown parents that inspection reports are those of the record that are not known.
-/

namespace ModelAtlas.Model

open Inheritance Source

/-! ### Repetitions -/

theorem eraseDups_filter (p : String → Bool) (names : List String) :
    (names.filter p).eraseDups = names.eraseDups.filter p := by
  induction names using List.reverseRecOn with
  | nil => rfl
  | append_singleton before n ih =>
    rw [List.filter_append, eraseDups_concat]
    by_cases kept : p n
    · rw [List.filter_cons_of_pos kept, List.filter_nil, eraseDups_concat, ih]
      by_cases known : n ∈ before
      · rw [if_pos known, if_pos (List.mem_filter.mpr ⟨known, kept⟩)]
      · rw [if_neg known, if_neg (fun member => known (List.mem_filter.mp member).1),
          List.filter_append, List.filter_cons_of_pos kept, List.filter_nil]
    · rw [List.filter_cons_of_neg kept, List.filter_nil, List.append_nil, ih]
      split
      · rfl
      · rw [List.filter_append, List.filter_cons_of_neg kept, List.filter_nil, List.append_nil]

/-! ### Names -/

variable {file : SourceFile} {c : ClassDecl} {isKnown : String → Bool}

theorem modelName?_of_unassigned (unassigned : c.assigned "_name" = none) :
    modelName? c = none := by
  rw [modelName?, unassigned]
  rfl

theorem str?_of_modelName? {name : String} (named : modelName? c = some name) :
    (c.assigned "_name").bind (·.value.str?) = some name := by
  unfold modelName? at named
  split at named
  · split at named
    · cases named
    · rename_i read _
      rw [read, named]
  · cases named

/-- A name that is assigned is reported as bad or is the name of the model. -/
theorem inspectName_of_assigned {a : Attribute} (assigned : c.assigned "_name" = some a) :
    (modelName? c = none ∧ inspectName c = [⟨a.range, .badName⟩]) ∨
    ∃ name, modelName? c = some name ∧
      inspectName c =
        if c.assigned "_description" = none then [⟨c.nameRange, .undescribed name⟩] else [] := by
  rw [modelName?, inspectName, assigned, Option.bind_some]
  dsimp only
  cases a.value.str? with
  | none => exact .inl ⟨rfl, rfl⟩
  | some name =>
    dsimp only
    by_cases empty : name.isEmpty
    · rw [if_pos empty, if_pos empty]
      exact .inl ⟨rfl, rfl⟩
    · rw [if_neg empty, if_neg empty]
      exact .inr ⟨name, rfl, by simp only [Option.isNone_iff_eq_none]⟩

/-- Without an assignment the only finding is that there is none. -/
theorem not_mem_findings_of_unassigned {f : Finding} (unassigned : c.assigned "_name" = none)
    (other : f ≠ .unnamed) : f ∉ (inspectName c).map (·.finding) := by
  intro reported
  obtain ⟨d, member, rfl⟩ := List.mem_map.mp reported
  rw [inspectName, unassigned] at member
  dsimp only at member
  split at member
  · rw [List.mem_singleton.mp member] at other
    exact other rfl
  · cases member

theorem finding_of_mem_inspectInherit {d : Diagnostic} (reported : d ∈ inspectInherit c) :
    d.finding = .badParents := by
  unfold inspectInherit at reported
  split at reported
  · cases reported
  · split at reported
    · cases reported
    · rw [List.mem_singleton.mp reported]

/-! ### Records -/

theorem extractModel_eq_none_iff :
    extractModel file c = none ↔ ModelKind.ofBases? c.bases = none ∨ modelName? c = none := by
  unfold extractModel
  cases ModelKind.ofBases? c.bases with
  | none => simp
  | some kind => cases modelName? c <;> simp

theorem extractModel_eq_some {r : ModelRecord} (extracted : extractModel file c = some r) :
    ModelKind.ofBases? c.bases = some r.kind ∧ modelName? c = some r.identifier ∧
      r.parents = parentsOf r.identifier c := by
  unfold extractModel at extracted
  split at extracted
  · rename_i kind identifier framed named
    obtain rfl := Option.some.inj extracted
    exact ⟨framed, named, rfl⟩
  · cases extracted

/-! ### Findings -/

section Framed

variable (framed : ModelKind.ofBases? c.bases ≠ none)
include framed

theorem inspectClass_of_framed : inspectClass c = inspectName c ++ inspectInherit c := by
  rw [inspectClass, if_neg (by rwa [Option.isNone_iff_eq_none])]

/-- Apart from the shape of the parents, findings are about the name. -/
theorem mem_findings_inspectClass {f : Finding} (other : f ≠ .badParents) :
    f ∈ (inspectClass c).map (·.finding) ↔ f ∈ (inspectName c).map (·.finding) := by
  rw [inspectClass_of_framed framed, List.map_append, List.mem_append]
  refine or_iff_left fun reported => ?_
  obtain ⟨d, member, rfl⟩ := List.mem_map.mp reported
  exact other (finding_of_mem_inspectInherit member)

theorem badName_mem_iff :
    .badName ∈ (inspectClass c).map (·.finding) ↔
      c.assigned "_name" ≠ none ∧ modelName? c = none := by
  rw [mem_findings_inspectClass framed (by simp)]
  cases assigned : c.assigned "_name" with
  | none =>
    exact iff_of_false (not_mem_findings_of_unassigned assigned (by simp)) fun both => both.1 rfl
  | some a =>
    rcases inspectName_of_assigned assigned with ⟨unnamed, bad⟩ | ⟨name, named, good⟩
    · simp [unnamed, bad]
    · rw [good, named]
      split <;> simp

theorem undescribed_mem_iff {name : String} :
    .undescribed name ∈ (inspectClass c).map (·.finding) ↔
      modelName? c = some name ∧ c.assigned "_description" = none := by
  rw [mem_findings_inspectClass framed (by simp)]
  cases assigned : c.assigned "_name" with
  | none =>
    rw [modelName?_of_unassigned assigned]
    have silent := not_mem_findings_of_unassigned (f := .undescribed name) assigned (by simp)
    exact iff_of_false silent fun both => nomatch both.1
  | some a =>
    rcases inspectName_of_assigned assigned with ⟨unnamed, bad⟩ | ⟨own, named, good⟩
    · simp [unnamed, bad]
    · rw [good, named]
      split
      · rename_i absent
        simp [absent, eq_comm]
      · rename_i present
        simp [present]

end Framed

/-! ### Parents -/

/-- The parents that inspection names are those of the record that are not known, repetitions
included. -/
theorem findings_inspectParents {r : ModelRecord} (extracted : extractModel file c = some r)
    (isKnown : String → Bool) :
    ∃ names : List String, (inspectParents c isKnown).map (·.finding) = names.map .unknownParent ∧
      names.eraseDups = r.parents.filter (!isKnown ·) := by
  obtain ⟨framed, named, parents⟩ := extractModel_eq_some extracted
  rw [parents, inspectParents, framed, str?_of_modelName? named, parentsOf, firstOfEach_id]
  cases c.assigned "_inherit" with
  | none => exact ⟨[], rfl, rfl⟩
  | some inherit =>
    refine ⟨(declaredParents inherit.value).filter fun p =>
      some p != some r.identifier && !isKnown p, ?_, ?_⟩
    · rw [if_neg (by simp), List.map_map]
      rfl
    · -- extraction leaves out the model itself and repetitions first, and what is known at last
      rw [Option.map_some, Option.getD_some, ← eraseDups_filter, List.filter_filter]
      refine congrArg (fun p => ((declaredParents inherit.value).filter p).eraseDups)
        (funext fun p => ?_)
      rw [Bool.and_comm]
      rfl

theorem inspectParents_eq_nil_iff {r : ModelRecord} (extracted : extractModel file c = some r)
    (isKnown : String → Bool) :
    inspectParents c isKnown = [] ↔ ∀ p ∈ r.parents, isKnown p := by
  obtain ⟨names, findings, unknown⟩ := findings_inspectParents extracted isKnown
  have silent : inspectParents c isKnown = [] ↔ names = [] := by
    rw [← List.map_eq_nil_iff, findings, List.map_eq_nil_iff]
  have complete : r.parents.filter (!isKnown ·) = [] ↔ ∀ p ∈ r.parents, isKnown p := by
    simp [List.filter_eq_nil_iff]
  rw [silent, ← complete, ← unknown]
  cases names with
  | nil => simp
  | cons n rest => simp [List.eraseDups_cons]

/-! ### Agreement -/

/-- Inspection and extraction come to the same verdict on every class. -/
theorem inspection_agrees_with_extraction (file : SourceFile) (c : ClassDecl)
    (isKnown : String → Bool) :
    (ModelKind.ofBases? c.bases = none →
      extractModel file c = none ∧ inspectClass c = [] ∧ inspectParents c isKnown = []) ∧
    (ModelKind.ofBases? c.bases ≠ none →
      (extractModel file c = none ↔
        c.assigned "_name" = none ∨ .badName ∈ (inspectClass c).map (·.finding)) ∧
      ∀ name, .undescribed name ∈ (inspectClass c).map (·.finding) ↔
        (∃ r, extractModel file c = some r ∧ r.identifier = name) ∧
          c.assigned "_description" = none) ∧
    ∀ r, extractModel file c = some r →
      (∃ names : List String,
        (inspectParents c isKnown).map (·.finding) = names.map .unknownParent ∧
        names.eraseDups = r.parents.filter (!isKnown ·)) ∧
      ∀ g : Graph, inspectParents c (fun p => (g.get? p).isSome) = [] ↔
        ∀ p ∈ r.parents, ∃ parent, g.get? p = some parent := by
  refine ⟨fun unframed => ⟨?_, ?_, ?_⟩, fun framed => ⟨?_, fun name => ?_⟩,
    fun r extracted => ⟨?_, ?_⟩⟩
  · exact extractModel_eq_none_iff.mpr (.inl unframed)
  · rw [inspectClass, unframed]
    rfl
  · rw [inspectParents, unframed]
    rfl
  · rw [badName_mem_iff framed, extractModel_eq_none_iff, or_iff_right framed]
    by_cases unassigned : c.assigned "_name" = none
    · exact iff_of_true (modelName?_of_unassigned unassigned) (.inl unassigned)
    · rw [or_iff_right unassigned, and_iff_right unassigned]
  · rw [undescribed_mem_iff framed, and_congr_left_iff]
    intro _
    constructor
    · intro named
      cases extracted : extractModel file c with
      | none =>
        rcases extractModel_eq_none_iff.mp extracted with unframed | unnamed
        · exact absurd unframed framed
        · rw [named] at unnamed
          cases unnamed
      | some r =>
        obtain ⟨_, own, _⟩ := extractModel_eq_some extracted
        exact ⟨r, rfl, Option.some.inj (own.symm.trans named)⟩
    · rintro ⟨r, extracted, rfl⟩
      exact (extractModel_eq_some extracted).2.1
  · exact findings_inspectParents extracted isKnown
  · intro g
    rw [inspectParents_eq_nil_iff extracted]
    simp only [Option.isSome_iff_exists]

/-- A model that names itself among its parents, and one of them twice. -/
def repeatedParents (qualifier : String) : ClassDecl :=
  Plain.Class.declare {} {
    name := "A".toList
    qualifier := qualifier.toList
    base := "Model".toList
    assignments := [⟨"_name".toList, .str ['a']⟩,
      ⟨"_inherit".toList, .list [['b'], ['a'], ['c'], ['b']]⟩] }

theorem repeated_parents_inspected :
    (ModelKind.ofBases? (repeatedParents "fields").bases = none ∧
      inspectClass (repeatedParents "fields") = []) ∧
    (ModelKind.ofBases? (repeatedParents "models").bases ≠ none ∧
      .undescribed "a" ∈ (inspectClass (repeatedParents "models")).map (·.finding)) ∧
    ∃ r, extractModel ⟨"/ws/a.py", {}⟩ (repeatedParents "models") = some r ∧ r.identifier = "a" ∧
      r.parents = ["b", "c"] ∧
      ∃ names : List String,
        (inspectParents (repeatedParents "models") (· == "c")).map (·.finding) =
          names.map .unknownParent ∧
        names.eraseDups = ["b"] := by
  have unframed : ModelKind.ofBases? (repeatedParents "fields").bases = none := by decide
  have framed : ModelKind.ofBases? (repeatedParents "models").bases ≠ none := by decide
  have undescribed : (repeatedParents "models").assigned "_description" = none := by
    rw [← Option.isNone_iff_eq_none]
    decide
  have read : (extractModel ⟨"/ws/a.py", {}⟩ (repeatedParents "models")).map
      (fun r => (r.identifier, r.parents)) = some ("a", ["b", "c"]) := by decide
  obtain ⟨r, extracted, own⟩ := Option.map_eq_some_iff.mp read
  obtain ⟨identifier, parents⟩ := Prod.mk.inj own
  obtain ⟨silent, _, _⟩ :=
    inspection_agrees_with_extraction ⟨"/ws/a.py", {}⟩ (repeatedParents "fields") (· == "c")
  obtain ⟨_, verdicts, records⟩ :=
    inspection_agrees_with_extraction ⟨"/ws/a.py", {}⟩ (repeatedParents "models") (· == "c")
  obtain ⟨names, findings, unknown⟩ := (records r extracted).1
  refine ⟨⟨unframed, (silent unframed).2.1⟩, ⟨framed, ?_⟩, r, extracted, identifier, parents, names,
    findings, ?_⟩
  · exact ((verdicts framed).2 "a").mpr ⟨⟨r, extracted, identifier⟩, undescribed⟩
  · rw [unknown, parents]
    decide

end ModelAtlas.Model
