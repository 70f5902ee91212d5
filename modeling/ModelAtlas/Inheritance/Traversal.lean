import ModelAtlas.Inheritance.Graph

/-!
# Walking the graph

`lineage` follows parents depth first, which is the order in which members are merged. `descendants`
follows children. Both visit each identifier once, so cycles do no harm.
-/

namespace ModelAtlas.Inheritance

open Model Std

/-- How many of some keys are not in a set yet. -/
def unseen (keys : List String) (seen : Names) : Nat := keys.countP fun k => !seen.contains k

theorem contains_insert_names (seen : Names) (id k : String) :
    (seen.insert id).contains k = (id == k || seen.contains k) := by
  rw [ExtTreeSet.contains_insert]
  by_cases same : id = k
  · simp [same]
  · have different : compare id k ≠ .eq := fun h => same (LawfulEqCmp.eq_of_compare h)
    rw [beq_false_of_ne same, beq_false_of_ne different]

theorem unseen_insert_le (keys : List String) (seen : Names) (id : String) :
    unseen keys (seen.insert id) ≤ unseen keys seen := by
  apply List.countP_mono_left
  intro k _ unseenAfter
  simp only [contains_insert_names, Bool.not_or, Bool.and_eq_true] at unseenAfter
  exact unseenAfter.2

theorem unseen_insert_lt {keys : List String} {seen : Names} {id : String} (stored : id ∈ keys)
    (fresh : seen.contains id = false) : unseen keys (seen.insert id) < unseen keys seen := by
  induction keys with
  | nil => cases stored
  | cons k rest ih =>
    have smaller := unseen_insert_le rest seen id
    unfold unseen at smaller ih ⊢
    rw [List.countP_cons, List.countP_cons]
    by_cases same : id = k
    · subst same
      rw [contains_insert_names, fresh]
      simp only [beq_self_eq_true, Bool.true_or, Bool.not_true, Bool.not_false]
      simp only [Bool.false_eq_true, if_false, if_true]
      omega
    · have less := ih (by cases stored with
        | head => exact absurd rfl same
        | tail _ inRest => exact inRest)
      rw [contains_insert_names, beq_false_of_ne same, Bool.false_or]
      omega

namespace Graph

/-- The identifiers with a record. -/
def ids (g : Graph) : List String := g.models.keys

theorem mem_ids_of_getElem? {g : Graph} {id : String} {r : ModelRecord}
    (stored : g.models[id]? = some r) : id ∈ g.ids := by
  unfold ids
  rw [ExtTreeMap.mem_keys]
  exact ExtTreeMap.mem_iff_isSome_getElem?.2 (by simp [stored])

/-- Depth first from a stack of identifiers, leaving out those visited before. -/
def lineageFrom (g : Graph) (visited : Names) : List String → List ModelRecord
  | [] => []
  | id :: stack =>
    if visited.contains id then lineageFrom g visited stack
    else
      match _stored : g.models[id]? with
      | none => lineageFrom g (visited.insert id) stack
      | some record => record :: lineageFrom g (visited.insert id) (record.parents ++ stack)
termination_by stack => (unseen g.ids visited, stack.length)
decreasing_by
  · exact Prod.Lex.right _ (by simp)
  · exact Prod.Lex.right' _ (unseen_insert_le ..) (by simp)
  · rename_i fresh
    exact Prod.Lex.left _ _
      (unseen_insert_lt (mem_ids_of_getElem? _stored) (Bool.not_eq_true _ ▸ fresh))

/-- The records reached from `id` through declared parents: itself first, then each parent in the
order declared with all that follows from it. -/
def lineage (g : Graph) (id : String) : List ModelRecord := g.lineageFrom ∅ [id]

/-- Everything that lists `id` as a parent, attached or not. -/
def inheritors (g : Graph) (id : String) : List String :=
  (g.children[id]?.getD ∅).toList ++ (g.detached[id]?.getD ∅).toList

/-- The identifiers that anything inherits from. -/
def bases (g : Graph) : List String := g.children.keys ++ g.detached.keys

theorem inheritors_eq_nil {g : Graph} {id : String} (absent : id ∉ g.bases) :
    g.inheritors id = [] := by
  simp only [bases, List.mem_append, ExtTreeMap.mem_keys, not_or] at absent
  simp [inheritors, ExtTreeMap.getElem?_eq_none absent.1, ExtTreeMap.getElem?_eq_none absent.2]

/-- Adds to `found` what can be reached from a stack of identifiers through children. -/
def reach (g : Graph) (found : Names) : List String → Names
  | [] => found
  | id :: stack =>
    if found.contains id then reach g found stack
    else reach g (found.insert id) (g.inheritors id ++ stack)
termination_by stack => (unseen g.bases found, stack.length)
decreasing_by
  · exact Prod.Lex.right _ (by simp)
  · rename_i fresh
    by_cases known : id ∈ g.bases
    · exact Prod.Lex.left _ _ (unseen_insert_lt known (Bool.not_eq_true _ ▸ fresh))
    · exact Prod.Lex.right' _ (unseen_insert_le ..) (by simp [inheritors_eq_nil known])

/-- Some identifiers with everything that inherits from them. -/
def descendants (g : Graph) (ids : List String) : Names := g.reach ∅ ids

end Graph

end ModelAtlas.Inheritance
