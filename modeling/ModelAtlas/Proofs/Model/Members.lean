import Mathlib.Data.List.Induction
import Mathlib.Data.List.Nodup
import ModelAtlas.Model.Record

/-!
# Members by name

What is left where definitions of one name meet. `firstOfEach` keeps, of every name, the first
member, and nothing else changes. `collect` has the names in the order of their first definitions,
each with its last one, and the fields and the methods of a class are collected in this sense.
-/

namespace ModelAtlas.Model

open Std

variable {α : Type} {name : α → String}

/-! ### Looking up a name -/

/-- With names that occur once, looking up the name of a member finds the member. -/
theorem find?_name_iff {list : List α} (distinct : (list.map name).Nodup) (m : α) :
    list.find? (name · == name m) = some m ↔ m ∈ list := by
  constructor
  · exact List.mem_of_find?_eq_some
  · intro member
    induction list with
    | nil => cases member
    | cons head rest ih =>
      rw [List.map_cons, List.nodup_cons] at distinct
      cases member with
      | head => rw [List.find?_cons_of_pos (by simp)]
      | tail _ later =>
        have other : name head ≠ name m := fun same =>
          distinct.1 (same ▸ List.mem_map_of_mem later)
        rw [List.find?_cons_of_neg (by simpa using other), ih distinct.2 later]

theorem find?_name_eq_none_iff (list : List α) (n : String) :
    list.find? (name · == n) = none ↔ n ∉ list.map name := by
  simp [List.find?_eq_none]

/-! ### The first of each name -/

theorem firstUnseen_seen {seen : List String} {m : α} (known : name m ∈ seen) (rest : List α) :
    firstUnseen name seen (m :: rest) = firstUnseen name seen rest := by
  rw [firstUnseen, if_pos (List.contains_iff_mem.mpr known)]

theorem firstUnseen_fresh {seen : List String} {m : α} (fresh : name m ∉ seen) (rest : List α) :
    firstUnseen name seen (m :: rest) = m :: firstUnseen name (name m :: seen) rest := by
  rw [firstUnseen, if_neg (fun known => fresh (List.contains_iff_mem.mp known))]

theorem firstUnseen_sublist (seen : List String) (members : List α) :
    (firstUnseen name seen members).Sublist members := by
  induction members generalizing seen with
  | nil => exact .slnil
  | cons m rest ih =>
    by_cases known : name m ∈ seen
    · rw [firstUnseen_seen known]
      exact (ih seen).cons m
    · rw [firstUnseen_fresh known]
      exact (ih (name m :: seen)).cons_cons m

theorem not_mem_of_mem_firstUnseen {seen : List String} {members : List α} {m : α}
    (member : m ∈ firstUnseen name seen members) : name m ∉ seen := by
  induction members generalizing seen with
  | nil => cases member
  | cons first rest ih =>
    by_cases known : name first ∈ seen
    · rw [firstUnseen_seen known] at member
      exact ih member
    · rw [firstUnseen_fresh known] at member
      cases member with
      | head => exact known
      | tail _ later => exact fun inSeen => ih later (List.mem_cons_of_mem _ inSeen)

theorem nodup_firstUnseen (seen : List String) (members : List α) :
    ((firstUnseen name seen members).map name).Nodup := by
  induction members generalizing seen with
  | nil => exact List.nodup_nil
  | cons m rest ih =>
    by_cases known : name m ∈ seen
    · rw [firstUnseen_seen known]
      exact ih seen
    · rw [firstUnseen_fresh known, List.map_cons, List.nodup_cons]
      refine ⟨?_, ih (name m :: seen)⟩
      intro again
      obtain ⟨other, later, same⟩ := List.mem_map.mp again
      exact not_mem_of_mem_firstUnseen later (same ▸ List.mem_cons_self)

/-- A name that has not been seen is looked up as before. -/
theorem find?_firstUnseen {seen : List String} {n : String} (fresh : n ∉ seen) (members : List α) :
    (firstUnseen name seen members).find? (name · == n) = members.find? (name · == n) := by
  induction members generalizing seen with
  | nil => rfl
  | cons m rest ih =>
    by_cases known : name m ∈ seen
    · have other : name m ≠ n := fun same => fresh (same ▸ known)
      rw [firstUnseen_seen known, ih fresh, List.find?_cons_of_neg (by simpa using other)]
    · rw [firstUnseen_fresh known]
      by_cases same : name m = n
      · rw [List.find?_cons_of_pos (by simpa using same), List.find?_cons_of_pos (by simpa using same)]
      · rw [List.find?_cons_of_neg (by simpa using same), List.find?_cons_of_neg (by simpa using same)]
        refine ih fun inSeen => ?_
        rcases List.mem_cons.mp inSeen with again | inSeen
        · exact same again.symm
        · exact fresh inSeen

/-- Members with names of their own stay at the front. -/
theorem prefix_firstUnseen {seen : List String} {own : List α} (distinct : (own.map name).Nodup)
    (fresh : ∀ m ∈ own, name m ∉ seen) (rest : List α) :
    own <+: firstUnseen name seen (own ++ rest) := by
  induction own generalizing seen with
  | nil => exact List.nil_prefix
  | cons m own ih =>
    rw [List.map_cons, List.nodup_cons] at distinct
    rw [List.cons_append, firstUnseen_fresh (fresh m List.mem_cons_self), List.prefix_cons_inj]
    refine ih distinct.2 fun other inOwn inSeen => ?_
    rcases List.mem_cons.mp inSeen with again | inSeen
    · exact distinct.1 (again ▸ List.mem_map_of_mem inOwn)
    · exact fresh other (List.mem_cons_of_mem m inOwn) inSeen

/-- Strings that are their own names. -/
theorem firstUnseen_id (seen strings : List String) :
    firstUnseen id seen strings = (strings.filter (!seen.contains ·)).eraseDups := by
  induction strings generalizing seen with
  | nil => rfl
  | cons s rest ih =>
    by_cases known : id s ∈ seen
    · rw [firstUnseen_seen known, ih, List.filter_cons_of_neg (by simpa using known)]
    · rw [firstUnseen_fresh known, ih, List.filter_cons_of_pos (by simpa using known),
        List.eraseDups_cons, List.filter_filter]
      congr 3
      funext other
      simp [Bool.beq_eq_decide_eq]

theorem firstOfEach_id (strings : List String) : firstOfEach id strings = strings.eraseDups := by
  rw [firstOfEach, firstUnseen_id]
  congr 1
  exact List.filter_eq_self.mpr fun _ _ => rfl

/-! ### The last of each name -/

theorem redefine_known {members : List α} {m : α} (known : name m ∈ members.map name) :
    redefine name members m = members.map fun old => if name old == name m then m else old := by
  obtain ⟨old, member, same⟩ := List.mem_map.mp known
  rw [redefine, if_pos]
  exact List.any_eq_true.mpr ⟨old, member, by simpa using same⟩

theorem redefine_new {members : List α} {m : α} (fresh : name m ∉ members.map name) :
    redefine name members m = members ++ [m] := by
  rw [redefine, if_neg]
  intro known
  obtain ⟨old, member, same⟩ := List.any_eq_true.mp known
  exact fresh (eq_of_beq same ▸ List.mem_map_of_mem member)

theorem map_name_redefine (members : List α) (m : α) :
    (redefine name members m).map name =
      if name m ∈ members.map name then members.map name else members.map name ++ [name m] := by
  split
  case isTrue known =>
    rw [redefine_known known, List.map_map]
    refine List.map_congr_left fun old _ => ?_
    by_cases same : name old = name m
    · simp [same]
    · simp [same]
  case isFalse fresh => rw [redefine_new fresh, List.map_append, List.map_singleton]

theorem mem_redefine (members : List α) (m x : α) :
    x ∈ redefine name members m ↔ x = m ∨ x ∈ members ∧ name x ≠ name m := by
  by_cases known : name m ∈ members.map name
  · rw [redefine_known known, List.mem_map]
    constructor
    · rintro ⟨old, member, rfl⟩
      by_cases same : name old = name m
      · simp [same]
      · simp [same, member]
    · rintro (rfl | ⟨member, other⟩)
      · obtain ⟨old, member, same⟩ := List.mem_map.mp known
        exact ⟨old, member, by simp [same]⟩
      · exact ⟨x, member, by simp [other]⟩
  · rw [redefine_new known, List.mem_append, List.mem_singleton]
    constructor
    · rintro (member | rfl)
      · exact .inr ⟨member, fun same => known (same ▸ List.mem_map_of_mem member)⟩
      · exact .inl rfl
    · rintro (rfl | ⟨member, _⟩)
      · exact .inr rfl
      · exact .inl member

theorem collect_concat (definitions : List α) (m : α) :
    collect name (definitions ++ [m]) = redefine name (collect name definitions) m := by
  rw [collect, List.foldl_append, List.foldl_cons, List.foldl_nil, collect]

theorem eraseDups_concat (names : List String) (n : String) :
    (names ++ [n]).eraseDups = if n ∈ names then names.eraseDups else names.eraseDups ++ [n] := by
  rw [List.eraseDups_append]
  split
  case isTrue known => simp [List.removeAll, known]
  case isFalse fresh => simp [List.removeAll, fresh, List.eraseDups_cons]

theorem map_name_collect (definitions : List α) :
    (collect name definitions).map name = (definitions.map name).eraseDups := by
  induction definitions using List.reverseRecOn with
  | nil => rfl
  | append_singleton before m ih =>
    rw [collect_concat, map_name_redefine, ih, List.map_append, List.map_singleton, eraseDups_concat]
    simp only [List.mem_eraseDups]

theorem nodup_collect (definitions : List α) : ((collect name definitions).map name).Nodup := by
  induction definitions using List.reverseRecOn with
  | nil => exact List.nodup_nil
  | append_singleton before m ih =>
    rw [collect_concat, map_name_redefine]
    split
    case isTrue => exact ih
    case isFalse fresh =>
      refine List.nodup_append.mpr ⟨ih, by simp, ?_⟩
      rintro n known _ again rfl
      exact fresh (List.mem_singleton.mp again ▸ known)

/-- Of each name, the definition that stands last. -/
theorem mem_collect (definitions : List α) (x : α) :
    x ∈ collect name definitions ↔ definitions.reverse.find? (name · == name x) = some x := by
  induction definitions using List.reverseRecOn with
  | nil => simp [collect]
  | append_singleton before m ih =>
    rw [collect_concat, mem_redefine, ih, List.reverse_append, List.reverse_singleton,
      List.singleton_append]
    by_cases same : name m = name x
    · rw [List.find?_cons_of_pos (by simp [same])]
      simp [same, eq_comm]
    · rw [List.find?_cons_of_neg (by simp [same])]
      constructor
      · rintro (rfl | ⟨found, _⟩)
        · exact absurd rfl same
        · exact found
      · exact fun found => .inr ⟨found, Ne.symm same⟩

/-! ### Ways to redefine -/

theorem map_name_set {members : List α} {m : α} {i : Nat} (inside : i < members.length)
    (same : name members[i] = name m) : (members.set i m).map name = members.map name := by
  have named : i < (members.map name).length := by rwa [List.length_map]
  have kept : (members.map name)[i] = name m := by rw [List.getElem_map, same]
  rw [List.map_set, ← kept, List.set_getElem_self]

theorem supersede_known {members : List α} {m : α} {i : Nat}
    (found : members.findIdx? (name · == name m) = some i) :
    supersede name members m = members.set i m := by
  rw [supersede, found]

theorem supersede_new {members : List α} {m : α}
    (absent : members.findIdx? (name · == name m) = none) :
    supersede name members m = members ++ [m] := by
  rw [supersede, absent]

/-- Among distinct names the first place of a name is its only one. -/
theorem supersede_eq_redefine {members : List α} (distinct : (members.map name).Nodup) (m : α) :
    supersede name members m = redefine name members m := by
  cases found : members.findIdx? (name · == name m) with
  | none =>
    have fresh : name m ∉ members.map name := by
      intro known
      obtain ⟨old, member, same⟩ := List.mem_map.mp known
      have other := List.findIdx?_eq_none_iff.mp found old member
      simp [same] at other
    rw [supersede_new found, redefine_new fresh]
  | some i =>
    obtain ⟨inside, same, _⟩ := List.findIdx?_eq_some_iff_getElem.mp found
    have known : name m ∈ members.map name :=
      eq_of_beq same ▸ List.mem_map_of_mem (List.getElem_mem inside)
    rw [supersede_known found, redefine_known known]
    refine List.ext_getElem (by simp) fun j before after => ?_
    rw [List.length_set] at before
    rw [List.getElem_set, List.getElem_map]
    by_cases here : i = j
    · subst here
      rw [if_pos rfl, if_pos same]
    · have other : name members[j] ≠ name m := by
        intro again
        have first : i < (members.map name).length := by rwa [List.length_map]
        have second : j < (members.map name).length := by rwa [List.length_map]
        have twice : (members.map name)[i] = (members.map name)[j] := by
          rw [List.getElem_map, List.getElem_map, eq_of_beq same, again]
        exact here (distinct.getElem_inj_iff.mp twice)
      rw [if_neg here, if_neg (by simpa using other)]

namespace Placed

theorem define_known {p : Placed α} {m : α} {i : Nat} (known : p.places[name m]? = some i) :
    (p.define name m).members.toList = p.members.toList.set i m ∧
      (p.define name m).places = p.places := by
  unfold define
  split
  case h_1 j found =>
    obtain rfl : i = j := Option.some.inj (known.symm.trans found)
    exact ⟨Array.toList_set _ _ _ (p.inside found), rfl⟩
  case h_2 absent =>
    rw [known] at absent
    cases absent

theorem define_new {p : Placed α} {m : α} (unknown : p.places[name m]? = none) :
    (p.define name m).members.toList = p.members.toList ++ [m] ∧
      (p.define name m).places = p.places.insert (name m) p.members.toList.length := by
  unfold define
  split
  case h_1 i found =>
    rw [unknown] at found
    cases found
  case h_2 => exact ⟨Array.toList_push, rfl⟩

/-- The remembered places are those that a search would find. -/
def Indexed (name : α → String) (p : Placed α) : Prop :=
  ∀ n, p.places[n]? = p.members.toList.findIdx? (name · == n)

theorem Indexed.members_define {p : Placed α} (indexed : p.Indexed name) (m : α) :
    (p.define name m).members.toList = supersede name p.members.toList m := by
  cases found : p.members.toList.findIdx? (name · == name m) with
  | none => rw [supersede_new found, (define_new ((indexed _).trans found)).1]
  | some i => rw [supersede_known found, (define_known ((indexed _).trans found)).1]

theorem Indexed.define {p : Placed α} (indexed : p.Indexed name) (m : α) :
    (p.define name m).Indexed name := by
  intro n
  cases found : p.members.toList.findIdx? (name · == name m) with
  | none =>
    obtain ⟨members, places⟩ := define_new ((indexed _).trans found)
    rw [members, places, ExtTreeMap.getElem?_insert, List.findIdx?_append, List.findIdx?_singleton,
      ← indexed n]
    by_cases same : name m = n
    · subst same
      rw [indexed, found]
      simp
    · simp [same]
  | some i =>
    obtain ⟨members, places⟩ := define_known ((indexed _).trans found)
    obtain ⟨inside, same, _⟩ := List.findIdx?_eq_some_iff_getElem.mp found
    -- a place is found by the names alone, and those stay
    have names := congrArg (List.findIdx? (· == n)) (map_name_set inside (eq_of_beq same))
    rw [List.findIdx?_map, List.findIdx?_map] at names
    rw [members, places, indexed n]
    exact names.symm

theorem Indexed.members_foldl {p : Placed α} (indexed : p.Indexed name) (definitions : List α) :
    (definitions.foldl (Placed.define name) p).members.toList =
      definitions.foldl (supersede name) p.members.toList := by
  induction definitions generalizing p with
  | nil => rfl
  | cons m rest ih =>
    rw [List.foldl_cons, List.foldl_cons, ih (indexed.define m), indexed.members_define]

end Placed

theorem collectSearched_eq (definitions : List α) :
    collectSearched name definitions = collect name definitions := by
  induction definitions using List.reverseRecOn with
  | nil => rfl
  | append_singleton before m ih =>
    have step : collectSearched name (before ++ [m]) =
        supersede name (collectSearched name before) m := by
      rw [collectSearched, List.foldl_append, List.foldl_cons, List.foldl_nil, collectSearched]
    rw [step, ih, collect_concat, supersede_eq_redefine (nodup_collect before)]

theorem collectPlaced_eq (definitions : List α) :
    collectPlaced name definitions = collect name definitions := by
  have empty : ({} : Placed α).Indexed name := fun n => by simp
  rw [← collectSearched_eq, collectPlaced, empty.members_foldl]
  rfl

theorem fieldsOf_eq_collect (path : String) (c : Source.ClassDecl) :
    fieldsOf path c = collect FieldRecord.name (c.attributes.filterMap (fieldOf? path)) :=
  collectPlaced_eq _

theorem methodsOf_eq_collect (path : String) (c : Source.ClassDecl) :
    methodsOf path c = collect MethodRecord.name (c.methods.map (MethodRecord.ofDecl path)) :=
  collectSearched_eq _

end ModelAtlas.Model
