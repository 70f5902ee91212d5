import Mathlib.Data.List.Induction
import ModelAtlas.Addon.Registry

/-!
# The innermost module of a path

A registry is filled by searches and keyed by the last part of each module's directory. Hence no two
of its modules lie in one directory, and of those that contain a path exactly one lies deepest,
whichever order they are looked at.
-/

namespace ModelAtlas.Addon

open Files Source Std
open Std.DTreeMap.Internal (Impl)

/-! ### Modules by name -/

theorem values_eq_map_toList {α β : Type} {cmp : α → α → Ordering} [TransCmp cmp]
    (map : ExtTreeMap α β cmp) : map.values = map.toList.map Prod.snd := by
  obtain ⟨⟨classes⟩⟩ := map
  induction classes using Quotient.inductionOn with
  | h m =>
    change m.inner.values = (Impl.Const.toList m.inner).map Prod.snd
    rw [Impl.values_eq_map_snd, Impl.Const.toList_eq_toListModel_map, List.map_map]
    rfl

theorem Module.fileName?_read? {t : Tree} {manifest : Path} {m : Module}
    (found : Module.read? t manifest = some m) : m.path.fileName? = some m.name := by
  unfold Module.read? at found
  dsimp only at found
  split at found
  · rename_i name text named _
    obtain rfl := Option.some.inj found
    exact named
  · cases found

namespace Registry

theorem mem_all_iff {r : Registry} {m : Module} : m ∈ r.all ↔ ∃ k : String, r[k]? = some m := by
  rw [all, values_eq_map_toList, List.mem_map]
  constructor
  · rintro ⟨⟨k, _⟩, member, rfl⟩
    exact ⟨k, ExtTreeMap.mem_toList_iff_getElem?_eq_some.mp member⟩
  · rintro ⟨k, stored⟩
    exact ⟨(k, m), ExtTreeMap.mem_toList_iff_getElem?_eq_some.mpr stored, rfl⟩

/-- Every module is stored under its name, which is the last part of its directory. -/
def Named (r : Registry) : Prop :=
  ∀ (k : String) (m : Module), r[k]? = some m → m.name = k ∧ m.path.fileName? = some k

theorem named_empty : Named ∅ := by
  intro k m stored
  rw [ExtTreeMap.getElem?_empty] at stored
  cases stored

theorem Named.enter {r : Registry} (named : r.Named) {m : Module}
    (title : m.path.fileName? = some m.name) : (r.enter m).Named := by
  unfold Registry.enter
  split
  · exact named
  · intro k other stored
    rw [ExtTreeMap.getElem?_insert] at stored
    split at stored
    · rename_i same
      obtain rfl := Option.some.inj stored
      rw [Std.compare_eq_iff_eq] at same
      exact ⟨same, same ▸ title⟩
    · exact named k other stored

theorem Named.enterAll {r : Registry} (named : r.Named) (t : Tree) (manifests : List Path) :
    (r.enterAll t manifests).2.Named := by
  induction manifests generalizing r with
  | nil => exact named
  | cons p rest ih =>
    rw [Registry.enterAll]
    cases found : Module.read? t p with
    | none => exact ih named
    | some m => exact ih (named.enter (Module.fileName?_read? found))

/-- The registry after a search; one that cannot be started adds nothing. -/
def search (r : Registry) (s : Tree × Path) : Registry :=
  match r.discover s.1 s.2 with
  | .ok (_, after) => after
  | .error _ => r

theorem Named.search {r : Registry} (named : r.Named) (s : Tree × Path) : (r.search s).Named := by
  unfold Registry.search Registry.discover
  cases s.1.discover s.2 manifestPattern with
  | error _ => exact named
  | ok manifests => exact named.enterAll s.1 manifests

/-- The registry after some searches, each in the file tree of its time. -/
def afterSearches (searches : List (Tree × Path)) : Registry := searches.foldl search ∅

theorem named_afterSearches (searches : List (Tree × Path)) : (afterSearches searches).Named := by
  unfold afterSearches
  have run {r : Registry} (named : r.Named) : (searches.foldl search r).Named := by
    induction searches generalizing r with
    | nil => exact named
    | cons s rest ih =>
      rw [List.foldl_cons]
      exact ih (named.search s)
  exact run named_empty

end Registry

/-! ### The deepest of some modules -/

/-- `best` has the longest directory of some modules; it is missing only if there are none. -/
def IsDeepest (list : List Module) : Option Module → Prop
  | none => list = []
  | some m => m ∈ list ∧ ∀ other ∈ list, other.path.parts.length ≤ m.path.parts.length

theorem IsDeepest.deeper {list : List Module} {best : Option Module} (deepest : IsDeepest list best)
    (m : Module) : IsDeepest (list ++ [m]) (Registry.deeper best m) := by
  cases best with
  | none =>
    obtain rfl : list = [] := deepest
    exact ⟨List.mem_singleton_self m, by simp⟩
  | some b =>
    obtain ⟨member, longest⟩ := deepest
    unfold Registry.deeper
    dsimp only
    split
    · rename_i longer
      refine ⟨List.mem_append_right _ (List.mem_singleton_self m), fun other listed => ?_⟩
      rcases List.mem_append.mp listed with old | new
      · exact Nat.le_trans (longest other old) longer
      · exact Nat.le_of_eq (by rw [List.mem_singleton.mp new])
    · rename_i shorter
      refine ⟨List.mem_append_left _ member, fun other listed => ?_⟩
      rcases List.mem_append.mp listed with old | new
      · exact longest other old
      · rw [List.mem_singleton.mp new]
        omega

theorem isDeepest_foldl (list : List Module) :
    IsDeepest list (list.foldl Registry.deeper none) := by
  induction list using List.reverseRecOn with
  | nil => rfl
  | append_singleton list m ih =>
    rw [List.foldl_append, List.foldl_cons, List.foldl_nil]
    exact ih.deeper m

/-! ### Directories above a path -/

theorem isBelow_iff {p base : Path} :
    p.isBelow base = true ↔ p.absolute = base.absolute ∧ base.parts <+: p.parts := by
  rw [Path.isBelow, Bool.and_eq_true, beq_iff_eq, List.isPrefixOf_iff_prefix]

/-- Directories above one path are told apart by how many parts they have. -/
theorem eq_of_isBelow {p a b : Path} (belowA : p.isBelow a) (belowB : p.isBelow b)
    (level : a.parts.length = b.parts.length) : a = b := by
  obtain ⟨rootA, startA⟩ := isBelow_iff.mp belowA
  obtain ⟨rootB, startB⟩ := isBelow_iff.mp belowB
  have parts : a.parts = b.parts :=
    (List.prefix_of_prefix_length_le startA startB (Nat.le_of_eq level)).eq_of_length level
  obtain ⟨absolute, _⟩ := a
  obtain ⟨other, _⟩ := b
  obtain rfl : absolute = other := rootA.symm.trans rootB
  obtain rfl := parts
  rfl

namespace Registry

/-- `m` is stored under its name, its directory contains `p`, and no longer one does. -/
structure Innermost (r : Registry) (p : Path) (m : Module) : Prop where
  stored : r[m.name]? = some m
  absolute : m.path.absolute = p.absolute
  above : m.path.parts <+: p.parts
  longest : ∀ (k : String) (other : Module), r[k]? = some other →
    other.path.absolute = p.absolute → other.path.parts <+: p.parts →
      other.path.parts.length ≤ m.path.parts.length

variable {r : Registry} {p : Path} {m n : Module}

theorem Named.eq_of_path (named : r.Named) (storedM : m ∈ r.all) (storedN : n ∈ r.all)
    (together : m.path = n.path) : m = n := by
  obtain ⟨k, foundM⟩ := mem_all_iff.mp storedM
  obtain ⟨l, foundN⟩ := mem_all_iff.mp storedN
  have titleM := (named k m foundM).2
  rw [together, (named l n foundN).2] at titleM
  obtain rfl := Option.some.inj titleM
  exact Option.some.inj (foundM.symm.trans foundN)

theorem Named.innermost_iff (named : r.Named) :
    r.Innermost p m ↔ IsDeepest (r.all.filter (p.isBelow ·.path)) (some m) := by
  have listed (other : Module) : other ∈ r.all.filter (p.isBelow ·.path) ↔
      (∃ k : String, r[k]? = some other) ∧
        other.path.absolute = p.absolute ∧ other.path.parts <+: p.parts := by
    rw [List.mem_filter, mem_all_iff, isBelow_iff, eq_comm (a := p.absolute)]
  constructor
  · intro inner
    refine ⟨(listed m).mpr ⟨⟨_, inner.stored⟩, inner.absolute, inner.above⟩, fun other member => ?_⟩
    obtain ⟨⟨k, stored⟩, absolute, above⟩ := (listed other).mp member
    exact inner.longest k other stored absolute above
  · rintro ⟨member, longest⟩
    obtain ⟨⟨k, stored⟩, absolute, above⟩ := (listed m).mp member
    have name := (named k m stored).1
    exact ⟨name ▸ stored, absolute, above, fun l other stored absolute above =>
      longest other ((listed other).mpr ⟨⟨l, stored⟩, absolute, above⟩)⟩

theorem Named.innermost_unique (named : r.Named) (innerM : r.Innermost p m)
    (innerN : r.Innermost p n) : m = n := by
  obtain ⟨memberM, longestM⟩ := named.innermost_iff.mp innerM
  obtain ⟨memberN, longestN⟩ := named.innermost_iff.mp innerN
  obtain ⟨storedM, belowM⟩ := List.mem_filter.mp memberM
  obtain ⟨storedN, belowN⟩ := List.mem_filter.mp memberN
  exact named.eq_of_path storedM storedN (eq_of_isBelow belowM belowN
    (Nat.le_antisymm (longestN m memberM) (longestM n memberN)))

theorem Named.foldl_deeper_iff (named : r.Named) {order : List Module} (any : order.Perm r.all) :
    (order.filter (p.isBelow ·.path)).foldl deeper none = some m ↔ r.Innermost p m := by
  have reordered := any.filter (p.isBelow ·.path)
  have deepest := isDeepest_foldl (order.filter (p.isBelow ·.path))
  -- what is found is innermost; the converse holds as there is only one such module
  have sound {n : Module} (found : (order.filter (p.isBelow ·.path)).foldl deeper none = some n) :
      r.Innermost p n := by
    rw [found] at deepest
    exact named.innermost_iff.mpr ⟨reordered.mem_iff.mp deepest.1,
      fun other member => deepest.2 other (reordered.mem_iff.mpr member)⟩
  refine ⟨sound, fun inner => ?_⟩
  cases found : (order.filter (p.isBelow ·.path)).foldl deeper none with
  | none =>
    rw [found] at deepest
    have member := reordered.mem_iff.mpr (named.innermost_iff.mp inner).1
    rw [show order.filter (p.isBelow ·.path) = [] from deepest] at member
    cases member
  | some n => rw [named.innermost_unique inner (sound found)]

theorem moduleOf_eq_none_iff (t : Tree) (path : Path) :
    r.moduleOf t path = none ↔ ∀ (k : String) (m : Module), r[k]? = some m →
      ¬ (m.path.absolute = (t.normalize path).absolute ∧
        m.path.parts <+: (t.normalize path).parts) := by
  have deepest := isDeepest_foldl (r.all.filter ((t.normalize path).isBelow ·.path))
  have nowhere : r.moduleOf t path = none ↔
      r.all.filter ((t.normalize path).isBelow ·.path) = [] := by
    unfold moduleOf
    dsimp only
    constructor
    · intro missing
      rwa [missing] at deepest
    · intro empty
      rw [empty]
      rfl
  rw [nowhere, List.filter_eq_nil_iff]
  constructor
  · intro outside k m stored ⟨absolute, above⟩
    exact outside m (mem_all_iff.mpr ⟨k, stored⟩) (isBelow_iff.mpr ⟨absolute.symm, above⟩)
  · intro outside m member below
    obtain ⟨k, stored⟩ := mem_all_iff.mp member
    obtain ⟨absolute, above⟩ := isBelow_iff.mp below
    exact outside k m stored ⟨absolute.symm, above⟩

/-- A path belongs to no module exactly if no module's directory contains it, and otherwise to the
one module with the longest directory that does, whichever order modules are looked at. -/
theorem path_in_innermost_module (searches : List (Tree × Path)) (t : Tree) (path : Path) :
    let r := afterSearches searches
    let p := t.normalize path
    (r.moduleOf t path = none ↔ ∀ (k : String) (m : Module), r[k]? = some m →
      ¬ (m.path.absolute = p.absolute ∧ m.path.parts <+: p.parts)) ∧
    (∀ m, r.moduleOf t path = some m ↔ r.Innermost p m) ∧
    (∀ m n, r.Innermost p m → r.Innermost p n → m = n) ∧
    ∀ order : List Module, order.Perm r.all →
      (order.filter (p.isBelow ·.path)).foldl deeper none = r.moduleOf t path := by
  intro r p
  have named : r.Named := named_afterSearches searches
  have found (m : Module) : r.moduleOf t path = some m ↔ r.Innermost p m :=
    named.foldl_deeper_iff (List.Perm.refl _)
  refine ⟨moduleOf_eq_none_iff t path, found, fun m n => named.innermost_unique,
    fun order any => Option.ext fun m => ?_⟩
  rw [found, named.foldl_deeper_iff any]

end Registry

end ModelAtlas.Addon
