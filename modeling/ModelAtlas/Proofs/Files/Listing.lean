import Mathlib.Data.List.Nodup
import ModelAtlas.Proofs.Files.Discovery

/-!
# The order of what is found

Whatever the tree, its links and the glob, discovery lists each path once and in the order of their
parts (`discover_increasing`).
-/

namespace ModelAtlas.Files

open Std

namespace Tree

/-! ### Walks -/

theorem nodup_namesIn (t : Tree) (parts : List String) : (t.namesIn parts).Nodup := by
  unfold namesIn
  apply List.Nodup.filterMap _ ExtTreeMap.nodup_keys
  intro key other name named alsoNamed
  simp only [Option.mem_def, Option.ite_none_right_eq_some, Bool.and_eq_true, beq_iff_eq] at named alsoNamed
  obtain ⟨⟨inside, _⟩, last⟩ := named
  obtain ⟨⟨alsoInside, _⟩, alsoLast⟩ := alsoNamed
  obtain ⟨above, rfl⟩ := List.getLast?_eq_some_iff.mp last
  obtain ⟨others, rfl⟩ := List.getLast?_eq_some_iff.mp alsoLast
  rw [List.dropLast_concat] at inside alsoInside
  rw [inside, alsoInside]

/-- Each name in a directory adds nothing, the name itself, or what a walk behind it finds. -/
theorem filesBelow_branches (t : Tree) (depth : Nat) (inside : List (List String))
    (shown place : List String) :
    ∃ branch : String → List (List String),
      t.filesBelow (depth + 1) inside shown place = (t.namesIn place).flatMap branch ∧
      ∀ name, branch name = [] ∨ branch name = [shown ++ [name]] ∨
        ∃ around there, branch name = t.filesBelow depth around (shown ++ [name]) there := by
  refine ⟨_, rfl, fun name => ?_⟩
  split
  · exact Or.inl rfl
  · exact Or.inr (Or.inl rfl)
  · exact Or.inr (Or.inr ⟨_, _, rfl⟩)
  · split
    · exact Or.inl rfl
    · split
      · exact Or.inr (Or.inl rfl)
      · split
        · exact Or.inl rfl
        · exact Or.inr (Or.inr ⟨_, _, rfl⟩)
      · exact Or.inl rfl

/-- What a walk finds lies behind the way to where it starts. -/
theorem prefix_of_mem_filesBelow {t : Tree} {depth : Nat} {inside : List (List String)}
    {shown place parts : List String} (member : parts ∈ t.filesBelow depth inside shown place) :
    shown <+: parts := by
  induction depth generalizing inside shown place with
  | zero => cases member
  | succ depth ih =>
    obtain ⟨branch, whole, cases⟩ := t.filesBelow_branches depth inside shown place
    rw [whole, List.mem_flatMap] at member
    obtain ⟨name, _, member⟩ := member
    apply (List.prefix_append shown [name]).trans
    rcases cases name with none | single | ⟨_, _, deeper⟩
    · rw [none] at member
      cases member
    · rw [single, List.mem_singleton] at member
      exact member ▸ List.prefix_refl _
    · rw [deeper] at member
      exact ih member

theorem nodup_filesBelow (t : Tree) (depth : Nat) (inside : List (List String))
    (shown place : List String) : (t.filesBelow depth inside shown place).Nodup := by
  induction depth generalizing inside shown place with
  | zero => exact List.nodup_nil
  | succ depth ih =>
    obtain ⟨branch, whole, cases⟩ := t.filesBelow_branches depth inside shown place
    have behind : ∀ name, ∀ parts ∈ branch name, shown ++ [name] <+: parts := by
      intro name parts member
      rcases cases name with none | single | ⟨_, _, deeper⟩
      · rw [none] at member
        cases member
      · rw [single, List.mem_singleton] at member
        exact member ▸ List.prefix_refl _
      · rw [deeper] at member
        exact prefix_of_mem_filesBelow member
    rw [whole, List.nodup_flatMap]
    constructor
    · intro name _
      rcases cases name with none | single | ⟨_, _, deeper⟩
      · rw [none]
        exact List.nodup_nil
      · rw [single]
        exact List.nodup_singleton _
      · rw [deeper]
        exact ih _ _ _
    · -- what lies behind two names of one directory tells them apart
      apply (t.nodup_namesIn place).imp
      intro name other different parts member alsoMember
      have same := (List.prefix_of_prefix_length_le (behind name parts member)
        (behind other parts alsoMember) (by simp)).eq_of_length (by simp)
      exact different (List.singleton_inj.mp (List.append_cancel_left same))

theorem nodup_filesUnder (t : Tree) (base : Path) : (t.filesUnder base).Nodup := by
  unfold filesUnder
  split
  · split
    · exact List.nodup_nil
    · split
      · exact t.nodup_filesBelow _ _ _ _
      · exact List.nodup_nil
  · exact List.nodup_nil

/-! ### Searches -/

/-- What a search comes to, before the ignore rules are asked. -/
def candidates (t : Tree) (root : Path) (pattern : String) : List (List String) :=
  let search := Search.ofText (joinText (t.normalize root).text pattern)
  match Rule.parse search.pattern with
  | .ok (some rule) => (t.filesUnder search.base).filter fun parts =>
      !rule.keeps && rule.applies (String.intercalate "/" (parts.drop search.base.parts.length)) false
  | _ => []

section Rules

variable {t : Tree} {root : Path} {pattern : String} {search : Search} {rule : Rule}

theorem mem_candidates_iff (sought : Search.ofText (joinText (t.normalize root).text pattern) = search)
    (read : Rule.parse search.pattern = .ok (some rule)) (parts : List String) :
    parts ∈ t.candidates root pattern ↔ parts ∈ t.filesUnder search.base ∧ rule.keeps = false ∧
      rule.applies (String.intercalate "/" (parts.drop search.base.parts.length)) false = true := by
  unfold candidates
  dsimp only
  rw [sought, read]
  dsimp only
  rw [List.mem_filter, Bool.and_eq_true, Bool.not_eq_true']

theorem exists_discover (sought : Search.ofText (joinText (t.normalize root).text pattern) = search)
    (read : Rule.parse search.pattern = .ok (some rule)) :
    ∃ found, t.discover root pattern = .ok found := by
  unfold discover
  dsimp only
  rw [sought, read]
  exact ⟨_, rfl⟩

end Rules

theorem nodup_candidates (t : Tree) (root : Path) (pattern : String) :
    (t.candidates root pattern).Nodup := by
  unfold candidates
  dsimp only
  split
  · exact (t.nodup_filesUnder _).filter _
  · exact List.nodup_nil

/-- The candidates that are not excluded are found, in order. -/
theorem discover_eq {t : Tree} {root : Path} {pattern : String} {found : List Path}
    (searched : t.discover root pattern = .ok found) :
    found = (((t.candidates root pattern).filter fun parts =>
      !isExcluded (t.rulesOf (t.normalize root)) (t.normalize root) parts).mergeSort
        fun a b => compare a b != .gt).map Path.ofParts := by
  unfold discover at searched
  unfold candidates
  dsimp only at searched ⊢
  split at searched
  · cases searched
  · rename_i read
    rw [read, ← Except.ok.inj searched]
    simp
  · rename_i rule read
    rw [read]
    dsimp only
    rw [List.filter_filter, ← Except.ok.inj searched]
    simp only [Bool.and_comm]

theorem eq_ofParts_of_mem_discover {t : Tree} {root p : Path} {pattern : String} {found : List Path}
    (searched : t.discover root pattern = .ok found) (member : p ∈ found) : p = .ofParts p.parts := by
  rw [discover_eq searched] at member
  obtain ⟨parts, _, rfl⟩ := List.mem_map.mp member
  rfl

theorem mem_discover_iff {t : Tree} {root : Path} {pattern : String} {found : List Path}
    (searched : t.discover root pattern = .ok found) (parts : List String) :
    Path.ofParts parts ∈ found ↔ parts ∈ t.candidates root pattern ∧
      isExcluded (t.rulesOf (t.normalize root)) (t.normalize root) parts = false := by
  rw [discover_eq searched, List.mem_map]
  constructor
  · rintro ⟨others, member, same⟩
    obtain rfl : others = parts := congrArg Path.parts same
    simpa using member
  · intro both
    exact ⟨parts, by simpa using both, rfl⟩

theorem increasing_mergeSort {list : List (List String)} (once : list.Nodup) :
    (list.mergeSort fun a b => compare a b != .gt).Pairwise fun a b => compare a b = .lt := by
  have connected : ∀ a b c : List String, (compare a b != .gt) = true →
      (compare b c != .gt) = true → (compare a c != .gt) = true := by
    intro a b c first second
    simp only [bne_iff_ne, ← Ordering.isLE_iff_ne_gt] at first second ⊢
    exact TransCmp.isLE_trans first second
  have total : ∀ a b : List String, (compare a b != .gt || compare b a != .gt) = true := by
    intro a b
    have swapped : compare b a = (compare a b).swap := OrientedCmp.eq_swap
    rw [swapped]
    cases compare a b <;> rfl
  have sorted := List.pairwise_mergeSort connected total list
  refine sorted.imp₂ ?_ ((List.mergeSort_perm _ _).nodup_iff.mpr once)
  intro a b notAfter different
  cases order : compare a b with
  | lt => rfl
  | eq => exact absurd (LawfulEqCmp.eq_of_compare order) different
  | gt => simp [order] at notAfter

/-- Each path is found once, in the order of its parts. -/
theorem discover_increasing {t : Tree} {root : Path} {pattern : String} {found : List Path}
    (searched : t.discover root pattern = .ok found) :
    found.Pairwise fun a b => compare a.parts b.parts = .lt := by
  rw [discover_eq searched, List.pairwise_map]
  exact increasing_mergeSort ((t.nodup_candidates root pattern).filter _)

end Tree

end ModelAtlas.Files
