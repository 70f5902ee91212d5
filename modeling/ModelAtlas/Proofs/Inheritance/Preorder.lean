import Mathlib.Logic.Relation
import ModelAtlas.Proofs.Inheritance.History
import ModelAtlas.Proofs.Inheritance.Reachability
import ModelAtlas.Proofs.Inheritance.Worklist

/-!
# Lineages are in preorder

`visit` is the recursive way to follow parents: it skips what has been visited and what has no record,
and otherwise emits the record and visits the parents in declared order. Working off a stack emits
the same records in the same order.
-/

namespace ModelAtlas.Inheritance

open Model Std

namespace Graph

/-! ### The recursive way -/

/-- What a visit that starts with `before` has visited in the end, and what it has emitted. -/
structure Visited (g : Graph) (before : Names) where
  visited : Names
  records : List ModelRecord
  /-- Nothing is forgotten, which is why visiting one after the other ends. -/
  grown : unseen g.ids visited ≤ unseen g.ids before

mutual

def visit (g : Graph) (visited : Names) (id : String) : Visited g visited :=
  if _seen : visited.contains id then ⟨visited, [], Nat.le_refl _⟩
  else
    match _stored : g.models[id]? with
    | none => ⟨visited, [], Nat.le_refl _⟩
    | some record =>
      let parents := visitAll g (visited.insert id) record.parents
      ⟨parents.visited, record :: parents.records, Nat.le_trans parents.grown (unseen_insert_le ..)⟩
termination_by (unseen g.ids visited, 0)
decreasing_by
  exact Prod.Lex.left _ _
    (unseen_insert_lt (mem_ids_of_getElem? _stored) (Bool.not_eq_true _ ▸ _seen))

def visitAll (g : Graph) (visited : Names) : List String → Visited g visited
  | [] => ⟨visited, [], Nat.le_refl _⟩
  | id :: rest =>
    let first := visit g visited id
    let others := visitAll g first.visited rest
    ⟨others.visited, first.records ++ others.records, Nat.le_trans others.grown first.grown⟩
termination_by ids => (unseen g.ids visited, ids.length + 1)
decreasing_by
  · exact Prod.Lex.right _ (by simp)
  · exact Prod.Lex.right' _ first.grown (by simp)

end

section Cases

variable {g : Graph} {visited : Names} {id : String}

theorem visit_seen (seen : visited.contains id = true) :
    g.visit visited id = ⟨visited, [], Nat.le_refl _⟩ := by
  rw [visit, dif_pos seen]

theorem visit_unstored (absent : g.models[id]? = none) :
    g.visit visited id = ⟨visited, [], Nat.le_refl _⟩ := by
  rw [visit]
  split
  · rfl
  · split
    · rfl
    · rename_i r stored
      rw [absent] at stored
      cases stored

theorem visit_stored (fresh : visited.contains id = false) {r : ModelRecord}
    (stored : g.models[id]? = some r) :
    (g.visit visited id).records = r :: (g.visitAll (visited.insert id) r.parents).records ∧
      (g.visit visited id).visited = (g.visitAll (visited.insert id) r.parents).visited := by
  rw [visit, dif_neg (by simp [fresh])]
  split
  · rename_i absent
    rw [stored] at absent
    cases absent
  · rename_i x found
    obtain rfl : r = x := Option.some.inj (stored.symm.trans found)
    exact ⟨rfl, rfl⟩

theorem lineageFrom_seen (seen : visited.contains id = true) (stack : List String) :
    g.lineageFrom visited (id :: stack) = g.lineageFrom visited stack := by
  rw [lineageFrom, if_pos seen]

theorem lineageFrom_unstored (fresh : visited.contains id = false) (absent : g.models[id]? = none)
    (stack : List String) :
    g.lineageFrom visited (id :: stack) = g.lineageFrom (visited.insert id) stack := by
  rw [lineageFrom, if_neg (by simp [fresh])]
  split
  · rfl
  · rename_i r stored
    rw [absent] at stored
    cases stored

theorem lineageFrom_stored (fresh : visited.contains id = false) {r : ModelRecord}
    (stored : g.models[id]? = some r) (stack : List String) :
    g.lineageFrom visited (id :: stack) =
      r :: g.lineageFrom (visited.insert id) (r.parents ++ stack) := by
  rw [lineageFrom, if_neg (by simp [fresh])]
  split
  · rename_i absent
    rw [stored] at absent
    cases absent
  · rename_i x found
    obtain rfl : r = x := Option.some.inj (stored.symm.trans found)
    rfl

end Cases

theorem contains_insert_unstored {g : Graph} {id : String} (absent : g.models[id]? = none)
    (visited : Names) {k : String} (present : k ∈ g.models) :
    (visited.insert id).contains k = visited.contains k := by
  have different : id ≠ k := by
    rintro rfl
    obtain ⟨r, stored⟩ := (mem_iff_getElem?_isSome _ _).mp present
    rw [absent] at stored
    cases stored
  rw [contains_insert_names, beq_false_of_ne different, Bool.false_or]

/-- Whether an identifier without a record counts as visited makes no difference. -/
theorem lineageFrom_visited_congr {g : Graph} {visited others : Names}
    (same : ∀ id ∈ g.models, visited.contains id = others.contains id) (stack : List String) :
    g.lineageFrom visited stack = g.lineageFrom others stack := by
  fun_induction lineageFrom g visited stack generalizing others with
  | case1 visited => simp [lineageFrom]
  | case2 visited id stack seen ih =>
    cases also : others.contains id with
    | true => rw [lineageFrom_seen also, ih same]
    | false =>
      -- only one of the sets has it, so it has no record
      have absent : g.models[id]? = none := by
        apply ExtTreeMap.getElem?_eq_none
        intro present
        rw [← same id present, seen] at also
        cases also
      rw [lineageFrom_unstored also absent]
      apply ih
      intro k present
      rw [contains_insert_unstored absent others present, same k present]
  | case3 visited id stack unseen absent ih =>
    have kept : ∀ k ∈ g.models, (visited.insert id).contains k = others.contains k := by
      intro k present
      rw [contains_insert_unstored absent visited present, same k present]
    cases also : others.contains id with
    | true => rw [lineageFrom_seen also, ih kept]
    | false =>
      rw [lineageFrom_unstored also absent]
      apply ih
      intro k present
      rw [kept k present, contains_insert_unstored absent others present]
  | case4 visited id stack unseen r stored ih =>
    have present : id ∈ g.models := (mem_iff_getElem?_isSome _ _).mpr ⟨r, stored⟩
    have fresh : others.contains id = false := by
      rw [← same id present]
      exact Bool.not_eq_true _ ▸ unseen
    rw [lineageFrom_stored fresh stored]
    congr 1
    apply ih
    intro k also
    rw [contains_insert_names, contains_insert_names, same k also]

mutual

theorem lineageFrom_visit (g : Graph) (visited : Names) (id : String) (stack : List String) :
    g.lineageFrom visited (id :: stack) =
      (g.visit visited id).records ++ g.lineageFrom (g.visit visited id).visited stack := by
  cases seen : visited.contains id with
  | true => rw [lineageFrom_seen seen, visit_seen seen, List.nil_append]
  | false =>
    cases stored : g.models[id]? with
    | none =>
      rw [lineageFrom_unstored seen stored, visit_unstored stored, List.nil_append]
      apply lineageFrom_visited_congr
      intro k present
      exact contains_insert_unstored stored visited present
    | some r =>
      obtain ⟨records, after⟩ := visit_stored seen stored
      rw [lineageFrom_stored seen stored, records, after, List.cons_append,
        lineageFrom_visitAll g (visited.insert id) r.parents stack]
termination_by (unseen g.ids visited, 0)
decreasing_by
  exact Prod.Lex.left _ _ (unseen_insert_lt (mem_ids_of_getElem? stored) seen)

theorem lineageFrom_visitAll (g : Graph) (visited : Names) (ids stack : List String) :
    g.lineageFrom visited (ids ++ stack) =
      (g.visitAll visited ids).records ++ g.lineageFrom (g.visitAll visited ids).visited stack := by
  cases ids with
  | nil => simp [visitAll]
  | cons id rest =>
    rw [List.cons_append, lineageFrom_visit g visited id (rest ++ stack),
      lineageFrom_visitAll g (g.visit visited id).visited rest stack, visitAll, List.append_assoc]
termination_by (unseen g.ids visited, ids.length + 1)
decreasing_by
  · exact Prod.Lex.right _ (by simp)
  · exact Prod.Lex.right' _ (g.visit visited id).grown (by simp)

end

/-! ### The stack -/

/-- What a turn puts on the stack: the parents of a record, so that the first one is next. -/
def parentsPushed (g : Graph) (id : String) : List String :=
  ((g.models[id]?).map fun r => r.parents.reverse).getD []

theorem mem_parentsPushed (g : Graph) (id p : String) : p ∈ g.parentsPushed id ↔ Lists g.models id p := by
  unfold parentsPushed Lists
  cases g.models[id]? with
  | none => simp
  | some r => simp

theorem parentsPushed_silent (g : Graph) {id : String} (absent : id ∉ g.ids) :
    g.parentsPushed id = [] := by
  have none : g.models[id]? = none := by
    apply ExtTreeMap.getElem?_eq_none
    intro present
    exact absent (ExtTreeMap.mem_keys.mpr present)
  simp [parentsPushed, none]

/-- What has been emitted, with what is still to come, does not change. -/
theorem emitted_turn (g : Graph) (w : Worklist) :
    (w.turn g.parentsPushed).order.filterMap g.get? ++
        g.lineageFrom (w.turn g.parentsPushed).visited (w.turn g.parentsPushed).stack.reverse =
      w.order.filterMap g.get? ++ g.lineageFrom w.visited w.stack.reverse := by
  rcases Worklist.turn_cases g.parentsPushed w with ⟨_, turned⟩ | ⟨below, id, split, seen, turned⟩ |
    ⟨below, id, split, fresh, turned⟩
  · rw [turned]
  · rw [turned, split, List.reverse_append, List.reverse_singleton, List.singleton_append,
      lineageFrom_seen seen]
  · rw [turned, split, List.reverse_append, List.reverse_append, List.reverse_singleton,
      List.singleton_append, List.filterMap_append, List.append_assoc]
    congr 1
    cases stored : g.models[id]? with
    | none =>
      rw [lineageFrom_unstored fresh stored]
      simp [parentsPushed, get?, stored]
    | some r =>
      rw [lineageFrom_stored fresh stored]
      simp [parentsPushed, get?, stored]

theorem emitted_iterate (g : Graph) (id : String) (n : Nat) :
    let w := (Worklist.turn g.parentsPushed)^[n] { stack := [id] }
    w.order.filterMap g.get? ++ g.lineageFrom w.visited w.stack.reverse = g.lineage id := by
  apply Worklist.iterate_turn (P := fun w : Worklist =>
    w.order.filterMap g.get? ++ g.lineageFrom w.visited w.stack.reverse = g.lineage id)
  · intro w before
    exact (emitted_turn g w).trans before
  · rfl

/-- With an empty stack, everything has been emitted. -/
theorem emitted_of_done (g : Graph) {id : String} {n : Nat}
    (done : ((Worklist.turn g.parentsPushed)^[n] { stack := [id] }).stack = []) :
    ((Worklist.turn g.parentsPushed)^[n] { stack := [id] }).order.filterMap g.get? = g.lineage id := by
  have emitted := g.emitted_iterate id n
  dsimp only at emitted
  rwa [done, List.reverse_nil, lineageFrom, List.append_nil] at emitted

theorem pushed_eq (g : Graph) (w : Worklist) :
    w.pushed g.parentsPushed = ((w.order.filterMap g.get?).map (·.parents.length)).sum := by
  unfold Worklist.pushed
  induction w.order with
  | nil => rfl
  | cons id rest ih =>
    rw [List.map_cons, List.sum_cons, ih]
    cases stored : g.models[id]? with
    | none => simp [parentsPushed, get?, stored]
    | some r => simp [parentsPushed, get?, stored]

/-- The stack runs empty, and then everything has been emitted. -/
theorem lineage_worked_off (g : Graph) (id : String) :
    ∃ n, let w := (Worklist.turn g.parentsPushed)^[n] { stack := [id] }
      w.stack = [] ∧ w.order.filterMap g.get? = g.lineage id ∧
        n = 1 + ((g.lineage id).map (·.parents.length)).sum := by
  obtain ⟨n, done, spent⟩ :=
    Worklist.exists_turns (fun _ => g.parentsPushed_silent) { stack := [id] }
  have emitted := g.emitted_of_done done
  refine ⟨n, done, emitted, ?_⟩
  rw [pushed_eq, pushed_eq, emitted] at spent
  simpa using spent

/-! ### What is in a lineage -/

theorem mem_lineage_iff (g : Graph) (id : String) (r : ModelRecord) :
    r ∈ g.lineage id ↔ ∃ x, Relation.ReflTransGen (Lists g.models) id x ∧ g.get? x = some r := by
  obtain ⟨n, done, emitted, _⟩ := g.lineage_worked_off id
  have covers := Worklist.covers_iterate g.parentsPushed [id] n
  have follows : (fun a b => b ∈ g.parentsPushed a) = Lists g.models := by
    funext a b
    exact propext (g.mem_parentsPushed a b)
  rw [← emitted, List.mem_filterMap]
  simp only [covers.ordered, covers.mem_visited_iff done, follows, List.mem_singleton, exists_eq_left]

/-- Every record is stored under its own identifier. -/
def Identified (g : Graph) : Prop :=
  ∀ (id : String) (r : ModelRecord), g.models[id]? = some r → r.identifier = id

theorem nodup_lineage {g : Graph} (identified : g.Identified) (id : String) :
    ((g.lineage id).map (·.identifier)).Nodup := by
  obtain ⟨n, _, emitted, _⟩ := g.lineage_worked_off id
  have distinct := (Worklist.covers_iterate g.parentsPushed [id] n).distinct
  rw [← emitted, List.map_filterMap]
  have own {x name : String} (named : name ∈ (g.get? x).map (·.identifier)) : name = x := by
    obtain ⟨r, stored, same⟩ := Option.map_eq_some_iff.mp named
    exact same.symm.trans (identified x r stored)
  refine List.Pairwise.filterMap _ ?_ distinct
  intro a b different nameA ofA nameB ofB same
  exact different ((own ofA).symm.trans (same.trans (own ofB)))

/-- In any map of records, cyclic or not, working off the stack ends after one turn for the start and
for each parent of each record that is met, and gives what the recursive visit gives: the record of
`id` first, exactly the records that declared parents lead to, and no identifier twice. -/
theorem lineage_preorder (g : Graph) (id : String) :
    (∃ n, let w := (Worklist.turn g.parentsPushed)^[n] { stack := [id] }
      w.stack = [] ∧ w.order.filterMap g.get? = g.lineage id ∧
        n = 1 + ((g.lineage id).map (·.parents.length)).sum) ∧
    g.lineage id = (g.visit ∅ id).records ∧
    (g.Identified → ((g.lineage id).map (·.identifier)).Nodup) ∧
    (g.lineage id).head? = g.get? id ∧
    ∀ r, r ∈ g.lineage id ↔
      ∃ x, Relation.ReflTransGen (Lists g.models) id x ∧ g.get? x = some r := by
  refine ⟨g.lineage_worked_off id, ?_, fun identified => nodup_lineage identified id,
    g.head?_lineage id, g.mem_lineage_iff id⟩
  rw [lineage, lineageFrom_visit, lineageFrom, List.append_nil]

/-- Two ways lead from `a` to `d`, which leads back, and one leads nowhere. -/
def diamond : Graph := Graph.run {} [
  .add (.bare "a" ["b", "c"] "a.py" "A" .regular), .add (.bare "b" ["d", "gone"] "b.py" "B" .regular),
  .add (.bare "c" ["d"] "c.py" "C" .regular), .add (.bare "d" ["a"] "d.py" "D" .regular)]

theorem diamond_lineage : (diamond.lineage "a").map (·.identifier) = ["a", "b", "d", "c"] := by
  have done : ((Worklist.turn diamond.parentsPushed)^[7] { stack := ["a"] }).stack = [] := by decide
  rw [← diamond.emitted_of_done done]
  decide

theorem diamond_preorder :
    diamond.Identified ∧ ((diamond.lineage "a").map (·.identifier)).Nodup ∧
      (diamond.visit ∅ "a").records.map (·.identifier) = ["a", "b", "d", "c"] := by
  have consistent : diamond.Consistent := consistent_empty.run _
  obtain ⟨_, preorder, distinct, _⟩ := diamond.lineage_preorder "a"
  refine ⟨consistent.identified, distinct consistent.identified, ?_⟩
  rw [← preorder]
  exact diamond_lineage

end Graph

end ModelAtlas.Inheritance
