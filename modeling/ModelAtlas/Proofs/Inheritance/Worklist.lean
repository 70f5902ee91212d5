import Mathlib.Algebra.GroupWithZero.Nat
import Mathlib.Logic.Function.Iterate
import Mathlib.Logic.Relation
import ModelAtlas.Inheritance.Traversal

/-!
# Working off a stack

Both walks through a graph work off a stack. One turn takes the last identifier off; if it is new, it
is visited and what comes next to it is put on. Where only finitely many identifiers have anything
next to them, cycles included, the stack runs empty, after one turn for everything that was ever put
on it (`exists_turns`). By then exactly what can be reached has been visited, once each
(`Covers.mem_visited_iff`).
-/

namespace ModelAtlas.Inheritance

open Std

structure Worklist where
  visited : Names := ∅
  /-- What is left to do. The last one is next. -/
  stack : List String
  /-- What has been visited, the first one first. -/
  order : List String := []

namespace Worklist

def turn (next : String → List String) (w : Worklist) : Worklist :=
  match w.stack.getLast? with
  | none => w
  | some id =>
    if w.visited.contains id then { w with stack := w.stack.dropLast }
    else ⟨w.visited.insert id, w.stack.dropLast ++ next id, w.order ++ [id]⟩

/-- How much all visits so far have put on the stack. -/
def pushed (next : String → List String) (w : Worklist) : Nat :=
  (w.order.map fun id => (next id).length).sum

variable {next : String → List String}

theorem turn_seen {visited : Names} {below order : List String} {id : String}
    (seen : visited.contains id = true) :
    turn next ⟨visited, below ++ [id], order⟩ = ⟨visited, below, order⟩ := by
  simp [turn, seen]

theorem turn_fresh {visited : Names} {below order : List String} {id : String}
    (fresh : visited.contains id = false) :
    turn next ⟨visited, below ++ [id], order⟩ =
      ⟨visited.insert id, below ++ next id, order ++ [id]⟩ := by
  simp [turn, fresh]

/-- Either there is nothing to do, or the last one has been visited, or it is visited now. -/
theorem turn_cases (next : String → List String) (w : Worklist) :
    (w.stack = [] ∧ turn next w = w) ∨
    (∃ below id, w.stack = below ++ [id] ∧ w.visited.contains id = true ∧
      turn next w = ⟨w.visited, below, w.order⟩) ∨
    (∃ below id, w.stack = below ++ [id] ∧ w.visited.contains id = false ∧
      turn next w = ⟨w.visited.insert id, below ++ next id, w.order ++ [id]⟩) := by
  obtain ⟨visited, stack, order⟩ := w
  rcases List.eq_nil_or_concat stack with rfl | ⟨below, id, rfl⟩
  · exact Or.inl ⟨rfl, rfl⟩
  rw [List.concat_eq_append]
  cases seen : visited.contains id with
  | true => exact Or.inr (Or.inl ⟨below, id, rfl, seen, turn_seen seen⟩)
  | false => exact Or.inr (Or.inr ⟨below, id, rfl, seen, turn_fresh seen⟩)

/-- What every turn keeps holds after any number of turns. -/
theorem iterate_turn {P : Worklist → Prop} (step : ∀ w, P w → P (turn next w)) {w : Worklist}
    (start : P w) (n : Nat) : P ((turn next)^[n] w) := by
  induction n generalizing w with
  | zero => exact start
  | succ n ih => exact ih (step w start)

/-! ### The stack runs empty -/

theorem length_stack_turn {w : Worklist} (busy : w.stack ≠ []) :
    1 + (turn next w).stack.length + w.pushed next =
      w.stack.length + (turn next w).pushed next := by
  rcases turn_cases next w with ⟨done, _⟩ | ⟨below, id, split, _, turned⟩ | ⟨below, id, split, _, turned⟩
  · exact absurd done busy
  · rw [turned, split]
    simp only [pushed, List.length_append, List.length_singleton]
    omega
  · rw [turned, split]
    simp only [pushed, List.length_append, List.length_singleton, List.map_append, List.sum_append,
      List.map_singleton, List.sum_singleton]
    omega

/-- A turn visits something new that has a next, or shortens the stack. -/
theorem turn_smaller {keys : List String} (silent : ∀ id, id ∉ keys → next id = []) {w : Worklist}
    (busy : w.stack ≠ []) :
    unseen keys (turn next w).visited < unseen keys w.visited ∨
      unseen keys (turn next w).visited ≤ unseen keys w.visited ∧
        (turn next w).stack.length < w.stack.length := by
  rcases turn_cases next w with ⟨done, _⟩ | ⟨below, id, split, _, turned⟩ |
    ⟨below, id, split, fresh, turned⟩
  · exact absurd done busy
  · exact Or.inr (by simp [turned, split])
  · rw [turned]
    by_cases known : id ∈ keys
    · exact Or.inl (unseen_insert_lt known fresh)
    · exact Or.inr ⟨unseen_insert_le .., by simp [split, silent id known]⟩

theorem exists_turns {keys : List String} (silent : ∀ id, id ∉ keys → next id = []) (w : Worklist) :
    ∃ n, ((turn next)^[n] w).stack = [] ∧
      n + w.pushed next = w.stack.length + ((turn next)^[n] w).pushed next := by
  by_cases busy : w.stack = []
  · exact ⟨0, busy, by simp [busy]⟩
  · obtain ⟨n, empty, spent⟩ := exists_turns silent (turn next w)
    have first := @length_stack_turn next w busy
    refine ⟨n + 1, ?_, ?_⟩
    · rw [Function.iterate_succ_apply]
      exact empty
    · rw [Function.iterate_succ_apply]
      omega
termination_by (unseen keys w.visited, w.stack.length)
decreasing_by
  rcases turn_smaller silent busy with fewer | ⟨noMore, shorter⟩
  · exact Prod.Lex.left _ _ fewer
  · exact Prod.Lex.right' _ noMore shorter

/-! ### What is visited -/

/-- Nothing gets lost between what has been visited and the stack, and nothing else gets in. -/
structure Covers (next : String → List String) (start : List String) (w : Worklist) : Prop where
  started : ∀ x ∈ start, x ∈ w.visited ∨ x ∈ w.stack
  closed : ∀ x ∈ w.visited, ∀ y ∈ next x, y ∈ w.visited ∨ y ∈ w.stack
  reached : ∀ x, x ∈ w.visited ∨ x ∈ w.stack →
    ∃ s ∈ start, Relation.ReflTransGen (fun a b => b ∈ next a) s x
  ordered : ∀ x, x ∈ w.order ↔ x ∈ w.visited
  distinct : w.order.Nodup

theorem covers_start (next : String → List String) (start : List String) :
    Covers next start { stack := start } where
  started x member := Or.inr member
  closed := by simp
  reached x known := by
    have member : x ∈ start := by simpa using known
    exact ⟨x, member, .refl⟩
  ordered := by simp
  distinct := List.nodup_nil

theorem Covers.turned {start : List String} {w : Worklist} (covers : Covers next start w) :
    Covers next start (w.turn next) := by
  rcases turn_cases next w with ⟨_, turned⟩ | ⟨below, id, split, seen, turned⟩ |
    ⟨below, id, split, fresh, turned⟩
  · rwa [turned]
  · have visited : id ∈ w.visited := ExtTreeSet.mem_iff_contains.mpr seen
    have still (x : String) : x ∈ w.visited ∨ x ∈ w.stack → x ∈ w.visited ∨ x ∈ below := by
      rw [split, List.mem_append, List.mem_singleton]
      rintro (old | left | rfl)
      · exact Or.inl old
      · exact Or.inr left
      · exact Or.inl visited
    rw [turned]
    refine ⟨fun x member => still x (covers.started x member),
      fun x member y follows => still y (covers.closed x member y follows), ?_,
      covers.ordered, covers.distinct⟩
    intro x known
    apply covers.reached x
    rw [split, List.mem_append]
    exact known.imp_right Or.inl
  · have mem_insert (x : String) : x ∈ w.visited.insert id ↔ x = id ∨ x ∈ w.visited := by
      rw [ExtTreeSet.mem_insert, Std.compare_eq_iff_eq, eq_comm]
    have unvisited : id ∉ w.visited := by
      rw [ExtTreeSet.mem_iff_contains, fresh]
      exact Bool.false_ne_true
    have still (x : String) (known : x ∈ w.visited ∨ x ∈ w.stack) :
        x ∈ w.visited.insert id ∨ x ∈ below ++ next id := by
      rw [split, List.mem_append, List.mem_singleton] at known
      rw [mem_insert, List.mem_append]
      grind
    obtain ⟨s, member, way⟩ := covers.reached id (Or.inr (by simp [split]))
    rw [turned]
    refine ⟨fun x member => still x (covers.started x member), ?_, ?_, ?_, ?_⟩
    · intro x member y follows
      rcases (mem_insert x).mp member with rfl | old
      · exact Or.inr (List.mem_append_right _ follows)
      · exact still y (covers.closed x old y follows)
    · intro x known
      rw [mem_insert, List.mem_append] at known
      rcases known with (rfl | old) | left | new
      · exact ⟨s, member, way⟩
      · exact covers.reached x (Or.inl old)
      · exact covers.reached x (Or.inr (by simp [split, left]))
      · exact ⟨s, member, way.tail new⟩
    · intro x
      rw [mem_insert, List.mem_append, List.mem_singleton, covers.ordered]
      exact or_comm
    · rw [List.nodup_append]
      refine ⟨covers.distinct, by simp, ?_⟩
      rintro x visited y single rfl
      rw [List.mem_singleton] at single
      exact unvisited ((covers.ordered id).mp (single ▸ visited))

theorem covers_iterate (next : String → List String) (start : List String) (n : Nat) :
    Covers next start ((turn next)^[n] { stack := start }) :=
  @iterate_turn next (Covers next start) (fun _ covers => covers.turned) _
    (covers_start next start) n

/-- When there is nothing left to do, exactly what can be reached has been visited. -/
theorem Covers.mem_visited_iff {start : List String} {w : Worklist} (covers : Covers next start w)
    (done : w.stack = []) (x : String) :
    x ∈ w.visited ↔ ∃ s ∈ start, Relation.ReflTransGen (fun a b => b ∈ next a) s x := by
  constructor
  · intro member
    exact covers.reached x (Or.inl member)
  · rintro ⟨s, member, way⟩
    induction way with
    | refl => simpa [done] using covers.started s member
    | tail _ follows ih => simpa [done] using covers.closed _ ih _ follows

end Worklist

end ModelAtlas.Inheritance
