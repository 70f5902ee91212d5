import ModelAtlas.Proofs.Inheritance.Keyed

/-!
# Consistent graphs

In a consistent graph the maps agree with the records. Adding and removing records keeps it so
(`Consistent.add`, `Consistent.remove`). Which children of an identifier without a record count as
detached depends on the past; everything else follows from the records (`Consistent.ext`).
-/

namespace ModelAtlas.Inheritance

open Model Std

/-- The record of `child` lists `parent`. -/
def Lists (models : ExtTreeMap String ModelRecord) (child parent : String) : Prop :=
  ∃ r, models[child]? = some r ∧ parent ∈ r.parents

theorem lists_iff_of_stored {models : ExtTreeMap String ModelRecord} {id : String} {r : ModelRecord}
    (stored : models[id]? = some r) (p : String) : Lists models id p ↔ p ∈ r.parents := by
  simp [Lists, stored]

theorem mem_iff_getElem?_isSome {α : Type} (m : ExtTreeMap String α) (key : String) :
    key ∈ m ↔ ∃ x, m[key]? = some x := by
  rw [ExtTreeMap.mem_iff_isSome_getElem?, Option.isSome_iff_exists]

theorem Lists.mem {models : ExtTreeMap String ModelRecord} {c p : String}
    (lists : Lists models c p) : c ∈ models := by
  obtain ⟨r, stored, _⟩ := lists
  exact (mem_iff_getElem?_isSome _ _).mpr ⟨r, stored⟩

theorem lists_erase (models : ExtTreeMap String ModelRecord) (id c p : String) :
    Lists (models.erase id) c p ↔ c ≠ id ∧ Lists models c p := by
  simp only [Lists, ExtTreeMap.getElem?_erase, Std.compare_eq_iff_eq]
  by_cases same : id = c
  · simp [same]
  · simp [same, Ne.symm same]

theorem lists_insert (models : ExtTreeMap String ModelRecord) (id : String) (r : ModelRecord)
    (c p : String) :
    Lists (models.insert id r) c p ↔ (c = id ∧ p ∈ r.parents) ∨ (c ≠ id ∧ Lists models c p) := by
  simp only [Lists, ExtTreeMap.getElem?_insert, Std.compare_eq_iff_eq]
  by_cases same : id = c
  · simp [same]
  · simp [same, Ne.symm same]

namespace Graph

/-- The maps agree with the records. -/
structure Consistent (g : Graph) : Prop where
  identified : ∀ (id : String) (r : ModelRecord), g.models[id]? = some r → r.identifier = id
  parents : ∀ id : String, g.parents[id]? = g.models[id]?.map ModelRecord.parents
  names : ∀ id, id ∈ g.names ↔ id ∈ g.models
  byFile : ∀ path id, Under g.byFile path id ↔ ∃ r, g.models[id]? = some r ∧ r.path = path
  children : ∀ p c, Under g.children p c ↔ Lists g.models c p ∧ p ∉ g.detached
  detached : ∀ p c, Under g.detached p c ↔ Lists g.models c p ∧ p ∈ g.detached
  absent : ∀ p ∈ g.detached, p ∉ g.models
  tidyFiles : Tidy g.byFile
  tidyChildren : Tidy g.children
  tidyDetached : Tidy g.detached

theorem consistent_empty : Consistent {} where
  identified := by simp
  parents := by simp
  names := by simp
  byFile := by simp [Under]
  children := by simp [Under, Lists]
  detached := by simp [Under]
  absent := by simp
  tidyFiles := tidy_empty
  tidyChildren := tidy_empty
  tidyDetached := tidy_empty

/-- Consistent graphs with the same records and the same detached identifiers are the same. -/
theorem Consistent.ext {g h : Graph} (consistentG : g.Consistent) (consistentH : h.Consistent)
    (models : g.models = h.models) (detached : ∀ p, p ∈ g.detached ↔ p ∈ h.detached) : g = h := by
  have byFile : g.byFile = h.byFile := consistentG.tidyFiles.ext consistentH.tidyFiles fun path id => by
    rw [consistentG.byFile, consistentH.byFile, models]
  have children : g.children = h.children :=
    consistentG.tidyChildren.ext consistentH.tidyChildren fun p c => by
      rw [consistentG.children, consistentH.children, models, detached]
  have detachedSets : g.detached = h.detached :=
    consistentG.tidyDetached.ext consistentH.tidyDetached fun p c => by
      rw [consistentG.detached, consistentH.detached, models, detached]
  have parents : g.parents = h.parents := ExtTreeMap.ext_getElem? fun id => by
    rw [consistentG.parents, consistentH.parents, models]
  have names : g.names = h.names := ExtTreeSet.ext_mem fun id => by
    rw [consistentG.names, consistentH.names, models]
  obtain ⟨_, _, _, _, _, _⟩ := g
  obtain ⟨_, _, _, _, _, _⟩ := h
  simp_all

/-! ### One step at a time -/

theorem foldl_release (g : Graph) (id : String) (listed : List String) :
    listed.foldl (fun g parent => g.release id parent) g =
      { g with
        children := eraseAll g.children listed id
        detached := eraseAll g.detached listed id } := by
  induction listed generalizing g with
  | nil => rfl
  | cons parent rest ih => rw [List.foldl_cons, ih]; rfl

theorem mem_insertAt_of_mem {m : ExtTreeMap String Names} {key : String} (present : key ∈ m)
    (x k : String) : k ∈ insertAt m key x ↔ k ∈ m := by
  rw [insertAt, ExtTreeMap.mem_alter]
  split
  · rename_i same
    rw [← Std.compare_eq_iff_eq.mp same]
    simpa using present
  · rfl

theorem foldl_attach (g : Graph) (id : String) (listed : List String) :
    listed.foldl (fun g parent => g.attach id parent) g =
      { g with
        children := insertAll g.children (listed.filter (!g.detached.contains ·)) id
        detached := insertAll g.detached (listed.filter (g.detached.contains ·)) id } := by
  induction listed generalizing g with
  | nil => rfl
  | cons parent rest ih =>
    rw [List.foldl_cons, ih, attach]
    cases known : g.detached.contains parent with
    | true =>
      -- the set grows, but no key is new
      have keys (k : String) :
          (insertAt g.detached parent id).contains k = g.detached.contains k := by
        rw [Bool.eq_iff_iff, ← ExtTreeMap.mem_iff_contains, ← ExtTreeMap.mem_iff_contains]
        exact mem_insertAt_of_mem (ExtTreeMap.mem_iff_contains.mpr known) id k
      simp [keys, known, insertAll]
    | false => simp [known, insertAll]

theorem erase_eq_self {α : Type} {m : ExtTreeMap String α} {key : String} (absent : m[key]? = none) :
    m.erase key = m := by
  apply ExtTreeMap.ext_getElem?
  intro k
  rw [ExtTreeMap.getElem?_erase]
  split
  · rename_i same
    rw [← Std.compare_eq_iff_eq.mp same, absent]
  · rfl

theorem detach_eq (g : Graph) (id : String) :
    g.detach id =
      { g with
        children := g.children.erase id
        detached := moved g.children g.detached id } := by
  unfold detach moved
  cases found : g.children[id]? with
  | none => simp only [erase_eq_self found]
  | some members => rfl

theorem reattach_eq (g : Graph) (id : String) :
    g.reattach id =
      { g with
        children := moved g.detached g.children id
        detached := g.detached.erase id } := by
  unfold reattach moved
  cases found : g.detached[id]? with
  | none => simp only [erase_eq_self found]
  | some members => rfl

/-- What removing a stored record does to each map. -/
theorem remove_eq {g : Graph} {id : String} {r : ModelRecord} (stored : g.models[id]? = some r)
    (listed : g.parents[id]? = some r.parents) :
    g.remove id =
      { models := g.models.erase id
        byFile := eraseAt g.byFile r.path id
        children := (eraseAll g.children r.parents id).erase id
        parents := g.parents.erase id
        detached := moved (eraseAll g.children r.parents id) (eraseAll g.detached r.parents id) id
        names := g.names.erase id } := by
  unfold remove
  simp only [stored, listed, Option.getD_some, foldl_release, detach_eq]

/-- What adding a record does to each map if none is stored under its identifier. -/
theorem add_eq {g : Graph} {r : ModelRecord} (fresh : r.identifier ∉ g.models) :
    g.add r =
      { models := g.models.insert r.identifier r
        byFile := insertAt g.byFile r.path r.identifier
        children := moved
          (insertAll g.detached (r.parents.filter (g.detached.contains ·)) r.identifier)
          (insertAll g.children (r.parents.filter (!g.detached.contains ·)) r.identifier) r.identifier
        parents := g.parents.insert r.identifier r.parents
        detached :=
          (insertAll g.detached (r.parents.filter (g.detached.contains ·)) r.identifier).erase
            r.identifier
        names := g.names.insert r.identifier } := by
  have unknown : g.models.contains r.identifier = false := by
    rw [← Bool.not_eq_true, ← ExtTreeMap.mem_iff_contains]
    exact fresh
  unfold add
  simp only [unknown, Bool.false_eq_true, if_false, foldl_attach, reattach_eq]

/-! ### Removing -/

theorem Consistent.parents_of_stored {g : Graph} (consistent : g.Consistent) {id : String}
    {r : ModelRecord} (stored : g.models[id]? = some r) : g.parents[id]? = some r.parents := by
  rw [consistent.parents, stored]
  rfl

theorem remove_of_absent {g : Graph} {id : String} (absent : g.models[id]? = none) :
    g.remove id = g := by
  unfold remove
  rw [absent]

section Removal

variable {g : Graph} {id : String} {r : ModelRecord}

/-- After a removal, identifiers stay detached as long as a record lists them. -/
theorem Consistent.under_detached_remove (consistent : g.Consistent)
    (stored : g.models[id]? = some r) (p c : String) :
    Under (g.remove id).detached p c ↔
      (p ∈ g.detached ∨ p = id) ∧ c ≠ id ∧ Lists g.models c p := by
  have own := lists_iff_of_stored stored
  have attached : id ∉ g.detached := fun detached =>
    consistent.absent id detached ((mem_iff_getElem?_isSome _ _).mpr ⟨r, stored⟩)
  rw [remove_eq stored (consistent.parents_of_stored stored), under_moved, under_eraseAll,
    under_eraseAll, consistent.children, consistent.detached]
  grind

theorem Consistent.under_children_remove (consistent : g.Consistent)
    (stored : g.models[id]? = some r) (p c : String) :
    Under (g.remove id).children p c ↔
      ¬ (p ∈ g.detached ∨ p = id) ∧ c ≠ id ∧ Lists g.models c p := by
  have own := lists_iff_of_stored stored
  rw [remove_eq stored (consistent.parents_of_stored stored), under_erase, under_eraseAll,
    consistent.children]
  grind

theorem Consistent.tidyDetached_remove (consistent : g.Consistent)
    (stored : g.models[id]? = some r) : Tidy (g.remove id).detached := by
  rw [remove_eq stored (consistent.parents_of_stored stored)]
  exact tidy_moved (tidy_eraseAll consistent.tidyChildren _ _)
    (tidy_eraseAll consistent.tidyDetached _ _) id

theorem Consistent.mem_detached_remove (consistent : g.Consistent)
    (stored : g.models[id]? = some r) (p : String) :
    p ∈ (g.remove id).detached ↔
      (p ∈ g.detached ∨ p = id) ∧ ∃ c, c ≠ id ∧ Lists g.models c p := by
  rw [(consistent.tidyDetached_remove stored).mem_iff]
  simp only [consistent.under_detached_remove stored]
  exact exists_and_left

end Removal

theorem models_remove (g : Graph) (id : String) : (g.remove id).models = g.models.erase id := by
  unfold remove
  cases stored : g.models[id]? with
  | none => simp only [erase_eq_self stored]
  | some r => simp only [foldl_release, detach_eq]

theorem Consistent.remove {g : Graph} (consistent : g.Consistent) (id : String) :
    (g.remove id).Consistent := by
  cases stored : g.models[id]? with
  | none => rwa [remove_of_absent stored]
  | some r =>
    have models := models_remove g id
    have eq := remove_eq stored (consistent.parents_of_stored stored)
    have keys := consistent.mem_detached_remove stored
    constructor
    case identified =>
      intro k x found
      rw [models, ExtTreeMap.getElem?_erase] at found
      split at found
      · cases found
      · exact consistent.identified k x found
    case parents =>
      intro k
      rw [eq]
      simp only [ExtTreeMap.getElem?_erase]
      split
      · rfl
      · exact consistent.parents k
    case names =>
      intro k
      rw [eq]
      simp only [ExtTreeSet.mem_erase, ExtTreeMap.mem_erase, consistent.names]
    case byFile =>
      intro path k
      rw [eq]
      simp only [under_eraseAt, consistent.byFile, ExtTreeMap.getElem?_erase, Std.compare_eq_iff_eq]
      grind
    case children =>
      intro p c
      rw [consistent.under_children_remove stored, models, lists_erase, keys]
      grind
    case detached =>
      intro p c
      rw [consistent.under_detached_remove stored, models, lists_erase, keys]
      grind
    case absent =>
      intro p detached
      rw [models, ExtTreeMap.mem_erase, ne_eq, Std.compare_eq_iff_eq]
      rintro ⟨different, present⟩
      rcases ((keys p).mp detached).1 with before | same
      · exact consistent.absent p before present
      · exact different same.symm
    case tidyFiles =>
      rw [eq]
      exact tidy_eraseAt consistent.tidyFiles _ _
    case tidyChildren =>
      rw [eq]
      exact tidy_erase (tidy_eraseAll consistent.tidyChildren _ _) _
    case tidyDetached => exact consistent.tidyDetached_remove stored

/-! ### Adding -/

section Addition

variable {g : Graph} {r : ModelRecord}

theorem Consistent.under_detached_add (consistent : g.Consistent)
    (fresh : r.identifier ∉ g.models) (p c : String) :
    Under (g.add r).detached p c ↔
      (p ∈ g.detached ∧ p ≠ r.identifier) ∧ Lists (g.add r).models c p := by
  rw [add_eq fresh, under_erase, under_insertAll, consistent.detached, lists_insert, List.mem_filter,
    ← ExtTreeMap.mem_iff_contains]
  have unlisted : ¬ Lists g.models r.identifier p := fun lists => fresh lists.mem
  grind

theorem Consistent.under_children_add (consistent : g.Consistent)
    (fresh : r.identifier ∉ g.models) (p c : String) :
    Under (g.add r).children p c ↔
      ¬ (p ∈ g.detached ∧ p ≠ r.identifier) ∧ Lists (g.add r).models c p := by
  rw [add_eq fresh, under_moved, under_insertAll, under_insertAll, consistent.detached,
    consistent.children, lists_insert, List.mem_filter, List.mem_filter, Bool.not_eq_true',
    ← Bool.not_eq_true, ← ExtTreeMap.mem_iff_contains, ← ExtTreeMap.mem_iff_contains]
  have unlisted : ¬ Lists g.models r.identifier p := fun lists => fresh lists.mem
  grind

theorem Consistent.tidyDetached_add (consistent : g.Consistent)
    (fresh : r.identifier ∉ g.models) : Tidy (g.add r).detached := by
  rw [add_eq fresh]
  exact tidy_erase (tidy_insertAll consistent.tidyDetached _ _) _

theorem Consistent.lists_of_mem_detached (consistent : g.Consistent) {p : String}
    (detached : p ∈ g.detached) : ∃ c, Lists g.models c p := by
  obtain ⟨c, under⟩ := (consistent.tidyDetached.mem_iff p).mp detached
  exact ⟨c, ((consistent.detached p c).mp under).1⟩

theorem Consistent.mem_detached_add_fresh (consistent : g.Consistent)
    (fresh : r.identifier ∉ g.models) (p : String) :
    p ∈ (g.add r).detached ↔ p ∈ g.detached ∧ p ≠ r.identifier := by
  rw [(consistent.tidyDetached_add fresh).mem_iff]
  simp only [consistent.under_detached_add fresh]
  constructor
  · rintro ⟨c, kept, _⟩
    exact kept
  · intro kept
    obtain ⟨c, lists⟩ := consistent.lists_of_mem_detached kept.1
    refine ⟨c, kept, ?_⟩
    rw [add_eq fresh, lists_insert]
    exact Or.inr ⟨fun same => fresh (same ▸ lists.mem), lists⟩

theorem Consistent.add_fresh (consistent : g.Consistent) (fresh : r.identifier ∉ g.models) :
    (g.add r).Consistent := by
  have eq := add_eq fresh
  have keys := consistent.mem_detached_add_fresh fresh
  constructor
  case identified =>
    intro k x found
    rw [eq] at found
    simp only [ExtTreeMap.getElem?_insert, Std.compare_eq_iff_eq] at found
    split at found
    · rename_i same
      rw [← Option.some.inj found, same]
    · exact consistent.identified k x found
  case parents =>
    intro k
    rw [eq]
    simp only [ExtTreeMap.getElem?_insert]
    split
    · rfl
    · exact consistent.parents k
  case names =>
    intro k
    rw [eq]
    simp only [ExtTreeSet.mem_insert, ExtTreeMap.mem_insert, consistent.names]
  case byFile =>
    intro path k
    have unknown : g.models[r.identifier]? = none := ExtTreeMap.getElem?_eq_none fresh
    rw [eq]
    simp only [under_insertAt, consistent.byFile, ExtTreeMap.getElem?_insert, Std.compare_eq_iff_eq]
    grind
  case children =>
    intro p c
    rw [consistent.under_children_add fresh, keys, and_comm]
  case detached =>
    intro p c
    rw [consistent.under_detached_add fresh, keys, and_comm]
  case absent =>
    intro p detached
    rw [eq, ExtTreeMap.mem_insert, Std.compare_eq_iff_eq]
    rintro (same | present)
    · exact ((keys p).mp detached).2 same.symm
    · exact consistent.absent p ((keys p).mp detached).1 present
  case tidyFiles =>
    rw [eq]
    exact tidy_insertAt consistent.tidyFiles _ _
  case tidyChildren =>
    rw [eq]
    exact tidy_moved (tidy_insertAll consistent.tidyDetached _ _)
      (tidy_insertAll consistent.tidyChildren _ _) _
  case tidyDetached => exact consistent.tidyDetached_add fresh

end Addition

theorem not_mem_models_remove (g : Graph) (id : String) : id ∉ (g.remove id).models := by
  rw [models_remove, ExtTreeMap.mem_erase]
  simp

/-- Adding first makes room for the record. -/
theorem add_eq_add_remove (g : Graph) (r : ModelRecord) :
    g.add r = (g.remove r.identifier).add r := by
  have gone : (g.remove r.identifier).models.contains r.identifier = false := by
    rw [← Bool.not_eq_true, ← ExtTreeMap.mem_iff_contains]
    exact not_mem_models_remove g r.identifier
  cases stored : g.models[r.identifier]? with
  | none => rw [remove_of_absent stored]
  | some old =>
    have known : g.models.contains r.identifier := by
      rw [← ExtTreeMap.mem_iff_contains, mem_iff_getElem?_isSome]
      exact ⟨old, stored⟩
    unfold add
    simp only [known, gone, if_true, Bool.false_eq_true, if_false]

theorem Consistent.add {g : Graph} (consistent : g.Consistent) (r : ModelRecord) :
    (g.add r).Consistent := by
  rw [add_eq_add_remove]
  exact (consistent.remove _).add_fresh (not_mem_models_remove g r.identifier)

theorem models_add (g : Graph) (r : ModelRecord) :
    (g.add r).models = g.models.insert r.identifier r := by
  rw [add_eq_add_remove, add_eq (not_mem_models_remove g r.identifier), models_remove]
  apply ExtTreeMap.ext_getElem?
  intro k
  simp only [ExtTreeMap.getElem?_insert, ExtTreeMap.getElem?_erase]
  split <;> rfl

end Graph

end ModelAtlas.Inheritance
