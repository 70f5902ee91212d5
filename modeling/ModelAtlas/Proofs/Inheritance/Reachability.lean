import ModelAtlas.Inheritance.Traversal
import ModelAtlas.Proofs.Inheritance.Consistency

/-!
# What the walks depend on

`lineage` depends on the records alone, and only on those that can be reached. `descendants` is closed
under inheritance and depends on the records alone too, since attached and detached children are
followed alike. So a lineage that changes belongs to a descendant of something that changed
(`mem_descendants_of_lineage_ne`).
-/

namespace ModelAtlas.Inheritance

open Model Std

namespace Graph

/-! ### Lineages -/

/-- Two graphs give the same lineage where they agree on everything that is reached. -/
theorem lineageFrom_congr {g h : Graph} (reached : String → Prop) (visited : Names)
    {stack : List String} (start : ∀ id ∈ stack, reached id)
    (agree : ∀ id, reached id → g.models[id]? = h.models[id]?)
    (closed : ∀ id r, reached id → g.models[id]? = some r → ∀ p ∈ r.parents, reached p) :
    g.lineageFrom visited stack = h.lineageFrom visited stack := by
  fun_induction lineageFrom g visited stack with
  | case1 visited => simp [lineageFrom]
  | case2 visited id stack seen ih =>
    rw [lineageFrom, if_pos seen]
    exact ih fun x member => start x (List.mem_cons_of_mem _ member)
  | case3 visited id stack unseen absent ih =>
    have elsewhere : h.models[id]? = none := agree id (start id List.mem_cons_self) ▸ absent
    rw [lineageFrom, if_neg unseen]
    split
    · exact ih fun x member => start x (List.mem_cons_of_mem _ member)
    · rename_i found
      rw [elsewhere] at found
      cases found
  | case4 visited id stack unseen r stored ih =>
    have here := start id List.mem_cons_self
    have elsewhere : h.models[id]? = some r := agree id here ▸ stored
    have next : ∀ x ∈ r.parents ++ stack, reached x := by
      intro x member
      rcases List.mem_append.mp member with parent | later
      · exact closed id r here stored x parent
      · exact start x (List.mem_cons_of_mem _ later)
    rw [lineageFrom, if_neg unseen]
    split
    · rename_i missing
      rw [elsewhere] at missing
      cases missing
    · rename_i x found
      rw [elsewhere] at found
      rw [← Option.some.inj found, ih next]

theorem head?_lineage (g : Graph) (id : String) : (g.lineage id).head? = g.get? id := by
  have unseen : ¬ (∅ : Names).contains id = true := by simp
  unfold lineage get?
  rw [lineageFrom, if_neg unseen]
  split
  · rename_i absent
    rw [lineageFrom, absent]
    rfl
  · rename_i r stored
    rw [stored]
    rfl

theorem lineage_congr {g h : Graph} (models : g.models = h.models) (id : String) :
    g.lineage id = h.lineage id :=
  lineageFrom_congr (fun _ => True) ∅ (fun _ _ => trivial) (fun _ _ => by rw [models])
    (fun _ _ _ _ _ _ => trivial)

/-! ### Descendants -/

theorem Consistent.mem_inheritors {g : Graph} (consistent : g.Consistent) (p c : String) :
    c ∈ g.inheritors p ↔ Lists g.models c p := by
  have attached := consistent.children p c
  have detached := consistent.detached p c
  unfold Under at attached detached
  rw [inheritors, List.mem_append, ExtTreeSet.mem_toList, ExtTreeSet.mem_toList, attached, detached]
  grind

theorem Consistent.children_eq_empty {g : Graph} (consistent : g.Consistent) {p : String}
    (detached : p ∈ g.detached) : g.children[p]?.getD ∅ = ∅ := by
  apply ExtTreeSet.ext_mem
  intro c
  have under := consistent.children p c
  unfold Under at under
  simp [under, detached]

/-- All inheritors of an identifier are attached, or all of them are detached. -/
theorem Consistent.inheritors_eq {g : Graph} (consistent : g.Consistent) (p : String) :
    g.inheritors p =
      ((if p ∈ g.detached then g.detached else g.children)[p]?.getD ∅ : Names).toList := by
  unfold inheritors
  split
  · rename_i detached
    rw [consistent.children_eq_empty detached, ExtTreeSet.toList_eq_nil_iff.mpr rfl, List.nil_append]
  · rename_i attached
    have none : g.detached[p]? = none := ExtTreeMap.getElem?_eq_none attached
    rw [none, Option.getD_none, ExtTreeSet.toList_eq_nil_iff.mpr rfl, List.append_nil]

theorem Consistent.inheritors_congr {g h : Graph} (consistentG : g.Consistent)
    (consistentH : h.Consistent) (models : g.models = h.models) (p : String) :
    g.inheritors p = h.inheritors p := by
  have same : ∀ c, c ∈ g.inheritors p ↔ c ∈ h.inheritors p := by
    intro c
    rw [consistentG.mem_inheritors, consistentH.mem_inheritors, models]
  rw [consistentG.inheritors_eq, consistentH.inheritors_eq] at same ⊢
  rw [ExtTreeSet.toList_inj]
  apply ExtTreeSet.ext_mem
  intro c
  simpa only [ExtTreeSet.mem_toList] using same c

theorem reach_congr {g h : Graph} (inheritors : ∀ id, g.inheritors id = h.inheritors id)
    (found : Names) (stack : List String) : g.reach found stack = h.reach found stack := by
  fun_induction reach g found stack with
  | case1 found => simp [reach]
  | case2 found id stack seen ih => rw [reach, if_pos seen, ih]
  | case3 found id stack unseen ih => rw [reach, if_neg unseen, ih, inheritors]

theorem Consistent.descendants_congr {g h : Graph} (consistentG : g.Consistent)
    (consistentH : h.Consistent) (models : g.models = h.models) (ids : List String) :
    g.descendants ids = h.descendants ids :=
  reach_congr (consistentG.inheritors_congr consistentH models) ∅ ids

theorem mem_reach_of_mem (g : Graph) (found : Names) (stack : List String) {x : String}
    (member : x ∈ found ∨ x ∈ stack) : x ∈ g.reach found stack := by
  fun_induction reach g found stack with
  | case1 found => simpa using member
  | case2 found id stack seen ih =>
    apply ih
    rcases member with old | new
    · exact Or.inl old
    · rcases List.mem_cons.mp new with rfl | later
      · exact Or.inl (ExtTreeSet.mem_iff_contains.mpr seen)
      · exact Or.inr later
  | case3 found id stack unseen ih =>
    apply ih
    rw [ExtTreeSet.mem_insert, Std.compare_eq_iff_eq, List.mem_append]
    rcases member with old | new
    · exact Or.inl (Or.inr old)
    · rcases List.mem_cons.mp new with same | later
      · exact Or.inl (Or.inl same.symm)
      · exact Or.inr (Or.inr later)

/-- What is found stays closed as long as open ends stand on the stack. -/
theorem reach_closed (g : Graph) (found : Names) (stack : List String)
    (closed : ∀ x ∈ found, ∀ y ∈ g.inheritors x, y ∈ found ∨ y ∈ stack) :
    ∀ x ∈ g.reach found stack, ∀ y ∈ g.inheritors x, y ∈ g.reach found stack := by
  fun_induction reach g found stack with
  | case1 found =>
    intro x member y inherits
    simpa using closed x member y inherits
  | case2 found id stack seen ih =>
    apply ih
    intro x member y inherits
    rcases closed x member y inherits with old | new
    · exact Or.inl old
    · rcases List.mem_cons.mp new with rfl | later
      · exact Or.inl (ExtTreeSet.mem_iff_contains.mpr seen)
      · exact Or.inr later
  | case3 found id stack unseen ih =>
    apply ih
    intro x member y inherits
    rw [ExtTreeSet.mem_insert, Std.compare_eq_iff_eq] at member
    rw [ExtTreeSet.mem_insert, Std.compare_eq_iff_eq, List.mem_append]
    rcases member with rfl | old
    · exact Or.inr (Or.inl inherits)
    · rcases closed x old y inherits with known | new
      · exact Or.inl (Or.inr known)
      · rcases List.mem_cons.mp new with same | later
        · exact Or.inl (Or.inl same.symm)
        · exact Or.inr (Or.inr later)

theorem mem_descendants_of_mem (g : Graph) {ids : List String} {x : String} (member : x ∈ ids) :
    x ∈ g.descendants ids :=
  g.mem_reach_of_mem ∅ ids (Or.inr member)

theorem Consistent.mem_descendants_of_lists {g : Graph} (consistent : g.Consistent)
    {ids : List String} {c p : String} (reached : p ∈ g.descendants ids)
    (lists : Lists g.models c p) : c ∈ g.descendants ids :=
  g.reach_closed ∅ ids (by simp) p reached c ((consistent.mem_inheritors p c).mpr lists)

/-- What is reached has every property that the start has and that inheritors take over. -/
theorem reach_induction (g : Graph) (P : String → Prop) (found : Names) (stack : List String)
    (known : ∀ x ∈ found, P x) (start : ∀ x ∈ stack, P x)
    (closed : ∀ x, P x → ∀ y ∈ g.inheritors x, P y) : ∀ x ∈ g.reach found stack, P x := by
  fun_induction reach g found stack with
  | case1 found => exact known
  | case2 found id stack seen ih =>
    exact ih known fun x later => start x (List.mem_cons_of_mem _ later)
  | case3 found id stack unseen ih =>
    have here : P id := start id List.mem_cons_self
    apply ih
    · intro x member
      rw [ExtTreeSet.mem_insert, Std.compare_eq_iff_eq] at member
      rcases member with rfl | old
      · exact here
      · exact known x old
    · intro x member
      rcases List.mem_append.mp member with inherits | later
      · exact closed id here x inherits
      · exact start x (List.mem_cons_of_mem _ later)

/-- If two graphs differ only in the records of some identifiers, every descendant that is lost
descends from one of these. -/
theorem Consistent.mem_descendants_of_changed {g h : Graph} (consistentG : g.Consistent)
    (consistentH : h.Consistent) {changed : List String}
    (kept : ∀ id, id ∉ changed → g.models[id]? = h.models[id]?) (ids : List String) :
    ∀ x ∈ g.descendants ids, x ∈ h.descendants ids ∨ x ∈ h.descendants changed := by
  apply g.reach_induction (fun x => x ∈ h.descendants ids ∨ x ∈ h.descendants changed) ∅ ids
  · simp
  · intro x member
    exact Or.inl (h.mem_descendants_of_mem member)
  · intro p inside c inherits
    obtain ⟨r, stored, listed⟩ := (consistentG.mem_inheritors p c).mp inherits
    by_cases new : c ∈ changed
    · exact Or.inr (h.mem_descendants_of_mem new)
    · have lists : Lists h.models c p := ⟨r, kept c new ▸ stored, listed⟩
      exact inside.imp (consistentH.mem_descendants_of_lists · lists)
        (consistentH.mem_descendants_of_lists · lists)

/-- If two graphs differ only in the records of some identifiers, everything with another lineage
descends from one of these. -/
theorem Consistent.mem_descendants_of_lineage_ne {g h : Graph} (consistent : h.Consistent)
    {changed : List String} (kept : ∀ id, id ∉ changed → g.models[id]? = h.models[id]?)
    {id : String} (different : g.lineage id ≠ h.lineage id) : id ∈ h.descendants changed := by
  apply Classical.byContradiction
  intro unaffected
  apply different
  symm
  -- nothing that is reached from `id` has changed
  apply lineageFrom_congr (fun x => x ∉ h.descendants changed) ∅
  · simpa using unaffected
  · intro x outside
    exact (kept x fun member => outside (h.mem_descendants_of_mem member)).symm
  · intro x r outside stored p listed inside
    exact outside (consistent.mem_descendants_of_lists inside ⟨r, stored, listed⟩)

/-! ### Answers -/

/-- The graphs give the same answers, as far as the children of stored identifiers are concerned. -/
structure SameAnswers (g h : Graph) : Prop where
  get? : ∀ id, g.get? id = h.get? id
  records : g.records = h.records
  parentsOf : ∀ id, g.parentsOf id = h.parentsOf id
  startingWith : ∀ head, g.startingWith head = h.startingWith head
  lineage : ∀ id, g.lineage id = h.lineage id
  descendants : ∀ ids, g.descendants ids = h.descendants ids
  childrenOf : ∀ id, (g.get? id).isSome → g.childrenOf id = h.childrenOf id

theorem Consistent.childrenOf_eq {g : Graph} (consistent : g.Consistent) (p : String) :
    g.childrenOf p = if p ∈ g.detached then [] else g.inheritors p := by
  rw [consistent.inheritors_eq]
  split
  · rename_i detached
    rw [childrenOf, consistent.children_eq_empty detached, ExtTreeSet.toList_eq_nil_iff]
  · rfl

theorem Consistent.sameAnswers {g h : Graph} (consistentG : g.Consistent)
    (consistentH : h.Consistent) (models : g.models = h.models) : SameAnswers g h where
  get? id := by rw [Graph.get?, Graph.get?, models]
  records := by rw [Graph.records, Graph.records, models]
  parentsOf id := by
    rw [Graph.parentsOf, Graph.parentsOf, consistentG.parents, consistentH.parents, models]
  startingWith head := by
    have names : g.names = h.names := ExtTreeSet.ext_mem fun id => by
      rw [consistentG.names, consistentH.names, models]
    rw [Graph.startingWith, Graph.startingWith, names]
  lineage := lineage_congr models
  descendants := consistentG.descendants_congr consistentH models
  childrenOf id stored := by
    have present : id ∈ g.models := ExtTreeMap.mem_iff_isSome_getElem?.mpr stored
    rw [consistentG.childrenOf_eq, consistentH.childrenOf_eq,
      if_neg fun detached => consistentG.absent id detached present,
      if_neg fun detached => consistentH.absent id detached (models ▸ present),
      consistentG.inheritors_congr consistentH models]

end Graph

end ModelAtlas.Inheritance
