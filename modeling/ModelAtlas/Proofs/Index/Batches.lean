import ModelAtlas.Proofs.Index.Updates

/-!
# Reading files into a graph

A graph reflects some files if it holds exactly what they declare. Reading all of them into an empty
graph gets there, and so does reading again those that have changed, in any order, as long as no two
files declare the same identifier.
-/

namespace ModelAtlas.Index

open Files Inheritance Model Std

/-- What the file under each key declares. -/
abbrev Scan := String → List ModelRecord

def Scan.Located (scan : Scan) : Prop := ∀ key, ∀ r ∈ scan key, r.path = key

/-- Of the files that count, no two declare the same identifier. -/
def Scan.Unambiguous (scan : Scan) (counts : String → Prop) : Prop :=
  ∀ key other id, counts key → counts other →
    lastNamed (scan key) id ≠ none → lastNamed (scan other) id ≠ none → key = other

def Reflects (g : Graph) (counts : String → Prop) (scan : Scan) : Prop :=
  ∀ id r, g.models[id]? = some r ↔ ∃ key, counts key ∧ lastNamed (scan key) id = some r

theorem Scan.Located.path {scan : Scan} (located : scan.Located) {key id : String} {r : ModelRecord}
    (named : lastNamed (scan key) id = some r) : r.path = key :=
  located key r (mem_of_lastNamed named).1

/-! ### From scratch -/

theorem Reflects.addAll {g : Graph} {counts : String → Prop} {scan : Scan}
    (reflects : Reflects g counts scan) {key : String}
    (unambiguous : scan.Unambiguous fun k => k = key ∨ counts k) :
    Reflects (g.addAll (scan key)) (fun k => k = key ∨ counts k) scan := by
  intro id r
  rw [Graph.getElem?_models_addAll, Option.or_eq_some_iff, reflects id r]
  constructor
  · rintro (named | ⟨_, other, isOther, named⟩)
    · exact ⟨key, Or.inl rfl, named⟩
    · exact ⟨other, Or.inr isOther, named⟩
  · rintro ⟨other, rfl | isOther, named⟩
    · exact Or.inl named
    · cases taken : lastNamed (scan key) id with
      | none => exact Or.inr ⟨rfl, other, isOther, named⟩
      | some x =>
        have same := unambiguous key other id (Or.inl rfl) (Or.inr isOther) (by simp [taken])
          (by simp [named])
        subst same
        exact Or.inl (taken.symm.trans named)

theorem Reflects.congr {g : Graph} {counts others : String → Prop} {scan : Scan}
    (reflects : Reflects g counts scan) (same : ∀ key, counts key ↔ others key) :
    Reflects g others scan := by
  have equal : counts = others := funext fun key => propext (same key)
  exact equal ▸ reflects

theorem Reflects.foldl_addAll {g : Graph} {counts : String → Prop} {scan : Scan}
    (reflects : Reflects g counts scan) (keys : List String)
    (unambiguous : scan.Unambiguous fun k => k ∈ keys ∨ counts k) :
    Reflects (keys.foldl (fun g key => g.addAll (scan key)) g) (fun k => k ∈ keys ∨ counts k)
      scan := by
  induction keys generalizing g counts with
  | nil => exact reflects.congr (by simp)
  | cons key rest ih =>
    have sorted : ∀ k, (k ∈ rest ∨ k = key ∨ counts k) ↔ (k ∈ key :: rest ∨ counts k) := by
      intro k
      rw [List.mem_cons]
      grind
    have first : scan.Unambiguous fun k => k = key ∨ counts k :=
      fun k other id isKey isOther =>
        unambiguous k other id ((sorted k).mp (Or.inr isKey)) ((sorted other).mp (Or.inr isOther))
    have later : scan.Unambiguous fun k => k ∈ rest ∨ k = key ∨ counts k :=
      fun k other id isKey isOther =>
        unambiguous k other id ((sorted k).mp isKey) ((sorted other).mp isOther)
    exact (ih (reflects.addAll first) later).congr sorted

theorem reflects_empty (scan : Scan) : Reflects {} (fun _ => False) scan := by
  intro id r
  simp

/-! ### Again -/

/-- While files are read again: what is stored comes from new declarations of the files that are done
and old ones of the others, and nothing is missing but what a file that is done has taken over. -/
structure Underway (g : Graph) (counts : String → Prop) (old new : Scan) (done : List String) :
    Prop where
  fromDone : ∀ id r, g.models[id]? = some r → r.path ∈ done → lastNamed (new r.path) id = some r
  fromRest : ∀ id r, g.models[id]? = some r → r.path ∉ done →
    counts r.path ∧ lastNamed (old r.path) id = some r
  finished : ∀ key ∈ done, ∀ id r, lastNamed (new key) id = some r → g.models[id]? = some r
  waiting : ∀ key, key ∉ done → counts key → ∀ id r, lastNamed (old key) id = some r →
    g.models[id]? = some r ∨ ∃ other ∈ done, lastNamed (new other) id ≠ none

section Underway

variable {g : Graph} {counts : String → Prop} {old new : Scan} {done : List String}

theorem Reflects.underway (reflects : Reflects g counts old) (located : old.Located) :
    Underway g counts old new [] where
  fromDone _ _ _ member := nomatch member
  fromRest id r stored _ := by
    obtain ⟨key, isKey, named⟩ := (reflects id r).mp stored
    have here := located.path named
    rw [here]
    exact ⟨isKey, named⟩
  finished _ member := nomatch member
  waiting key _ isKey id r named := Or.inl ((reflects id r).mpr ⟨key, isKey, named⟩)

theorem Underway.commit (underway : Underway g counts old new done) (consistent : g.Consistent)
    (before : old.Located) (located : new.Located) (unambiguous : new.Unambiguous counts)
    (known : ∀ key ∈ done, counts key) {key : String} (isKey : counts key) :
    Underway (commit g key (new key)).2 counts old new (key :: done) := by
  refine ⟨?_, ?_, ?_, ?_⟩
  · intro id r stored member
    rcases (models_commit_eq_some consistent).mp stored with named | ⟨_, kept, elsewhere⟩
    · rw [located.path named]
      exact named
    · exact underway.fromDone id r kept ((List.mem_cons.mp member).resolve_left elsewhere)
  · intro id r stored outside
    rw [List.mem_cons, not_or] at outside
    rcases (models_commit_eq_some consistent).mp stored with named | ⟨_, kept, _⟩
    · exact absurd (located.path named) outside.1
    · exact underway.fromRest id r kept outside.2
  · intro other member id r named
    rw [models_commit_eq_some consistent]
    by_cases same : other = key
    · exact Or.inl (same ▸ named)
    · have earlier := (List.mem_cons.mp member).resolve_left same
      refine Or.inr ⟨?_, underway.finished other earlier id r named, ?_⟩
      · apply Classical.byContradiction
        intro taken
        exact same (unambiguous other key id (known other earlier) isKey (by simp [named]) taken)
      · rw [located.path named]
        exact same
  · intro other outside isOther id r named
    rw [List.mem_cons, not_or] at outside
    rcases underway.waiting other outside.2 isOther id r named with stored | ⟨taker, member, takes⟩
    · by_cases free : lastNamed (new key) id = none
      · refine Or.inl ((models_commit_eq_some consistent).mpr (Or.inr ⟨free, stored, ?_⟩))
        rw [before.path named]
        exact outside.1
      · exact Or.inr ⟨key, List.mem_cons_self, free⟩
    · exact Or.inr ⟨taker, List.mem_cons_of_mem _ member, takes⟩

/-- Once every file that has changed is done, the graph reflects the files as they are. -/
theorem Underway.reflects (underway : Underway g counts old new done)
    (unambiguous : new.Unambiguous counts) (known : ∀ key ∈ done, counts key)
    (unchanged : ∀ key, counts key → key ∉ done → old key = new key) : Reflects g counts new := by
  intro id r
  constructor
  · intro stored
    by_cases isDone : r.path ∈ done
    · exact ⟨r.path, known _ isDone, underway.fromDone id r stored isDone⟩
    · obtain ⟨isKey, named⟩ := underway.fromRest id r stored isDone
      exact ⟨r.path, isKey, unchanged _ isKey isDone ▸ named⟩
  · rintro ⟨key, isKey, named⟩
    by_cases isDone : key ∈ done
    · exact underway.finished key isDone id r named
    · have was : lastNamed (old key) id = some r := (unchanged key isKey isDone).symm ▸ named
      rcases underway.waiting key isDone isKey id r was with stored | ⟨taker, member, takes⟩
      · exact stored
      · have same := unambiguous taker key id (known taker member) isKey takes (by simp [named])
        exact absurd (same ▸ member) isDone

end Underway

theorem Underway.recommit {t : Tree} {g : Graph} {counts : String → Prop} {old : Scan}
    {done keys : List String} (underway : Underway g counts old (scanFile t) done)
    (consistent : g.Consistent) (before : old.Located) (located : Scan.Located (scanFile t))
    (unambiguous : Scan.Unambiguous (scanFile t) counts) (known : ∀ key ∈ done, counts key)
    (isKey : ∀ key ∈ keys, counts key) :
    Underway (ModelIndex.recommit t g keys) counts old (scanFile t) (keys.reverse ++ done) := by
  induction keys generalizing g done with
  | nil => exact underway
  | cons key rest ih =>
    obtain ⟨first, others⟩ := List.forall_mem_cons.mp isKey
    have step := underway.commit consistent before located unambiguous known first
    have later := ih step (commit_consistent consistent key _)
      (List.forall_mem_cons.mpr ⟨first, known⟩) others
    rw [List.reverse_cons, List.append_assoc]
    exact later

/-- Reading again all files that have changed makes a graph reflect them. -/
theorem Reflects.recommit {t : Tree} {g : Graph} {counts : String → Prop} {old : Scan}
    {keys : List String} (reflects : Reflects g counts old) (consistent : g.Consistent)
    (before : old.Located) (located : Scan.Located (scanFile t))
    (unambiguous : Scan.Unambiguous (scanFile t) counts) (isKey : ∀ key ∈ keys, counts key)
    (unchanged : ∀ key, counts key → key ∉ keys → old key = scanFile t key) :
    Reflects (ModelIndex.recommit t g keys) counts (scanFile t) := by
  have committed := (reflects.underway before).recommit consistent before located unambiguous
    (fun _ member => nomatch member) isKey
  rw [List.append_nil] at committed
  apply committed.reflects unambiguous
  · intro key member
    exact isKey key (List.mem_reverse.mp member)
  · intro key counted outside
    exact unchanged key counted fun member => outside (List.mem_reverse.mpr member)

end ModelAtlas.Index
