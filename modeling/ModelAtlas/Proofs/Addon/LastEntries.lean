import Mathlib.Data.List.Induction
import Mathlib.Logic.Relation
import ModelAtlas.Addon.Manifest
import ModelAtlas.Proofs.Source.Statements

/-!
# The last entry of each key

A manifest takes its entries one after the other, and yet each of its parts is what the last entry of
one key says, whatever the entries before it say (`foldl_enter`). Entries of other keys and the order
of entries with different keys do not show. In a text the entries are the pairs of the dictionaries at
its top (`manifest_of_text`).
-/

namespace ModelAtlas.Addon

open Source

/-! ### Values -/

/-- The value of the last entry with a key. -/
def lastValue (entries : List (String × Expr)) (key : String) : Option Expr :=
  entries.reverse.lookup key

theorem lastValue_append (entries later : List (String × Expr)) (key : String) :
    lastValue (entries ++ later) key = (lastValue later key).or (lastValue entries key) := by
  rw [lastValue, List.reverse_append, List.lookup_append]
  rfl

theorem lastValue_single (entry : String × Expr) (key : String) :
    lastValue [entry] key = if key = entry.1 then some entry.2 else none := by
  obtain ⟨k, value⟩ := entry
  simp only [lastValue, List.reverse_singleton, List.lookup_cons, List.lookup_nil]
  by_cases same : key = k
  · rw [if_pos same, beq_iff_eq.mpr same]
  · rw [if_neg same, beq_eq_false_iff_ne.mpr same]

theorem lastValue_concat (entries : List (String × Expr)) (entry : String × Expr) (key : String) :
    lastValue (entries ++ [entry]) key =
      if key = entry.1 then some entry.2 else lastValue entries key := by
  rw [lastValue_append, lastValue_single]
  split <;> rfl

theorem lastValue_cons (entry : String × Expr) (later : List (String × Expr)) (key : String) :
    lastValue (entry :: later) key =
      (lastValue later key).or (if key = entry.1 then some entry.2 else none) := by
  rw [← lastValue_single, ← lastValue_append]
  rfl

theorem lastValue_eq_some_iff {entries : List (String × Expr)} {key : String} {value : Expr} :
    lastValue entries key = some value ↔
      entries.reverse.find? (·.1 == key) = some (key, value) := by
  rw [lastValue]
  induction entries.reverse with
  | nil => simp
  | cons entry others ih =>
    obtain ⟨k, v⟩ := entry
    rw [List.lookup_cons, List.find?_cons]
    by_cases same : key = k
    · subst same
      simp
    · rw [beq_eq_false_iff_ne.mpr same, beq_eq_false_iff_ne.mpr (Ne.symm same)]
      exact ih

/-! ### Rearranging entries -/

/-- One change of some entries that is not seen under the keys of `seen`: an entry of another key is
put in, or two neighbours of different keys change places. Read backwards the first takes an entry
out, and the two together move one. -/
inductive Unseen (seen : List String) : List (String × Expr) → List (String × Expr) → Prop
  | insert (before after : List (String × Expr)) {entry : String × Expr} :
      entry.1 ∉ seen → Unseen seen (before ++ after) (before ++ entry :: after)
  | swap (before after : List (String × Expr)) {first second : String × Expr} :
      first.1 ≠ second.1 →
        Unseen seen (before ++ first :: second :: after) (before ++ second :: first :: after)

variable {seen : List String} {entries others : List (String × Expr)}

theorem Unseen.lastValue_eq (change : Unseen seen entries others) {key : String}
    (member : key ∈ seen) : lastValue others key = lastValue entries key := by
  cases change with
  | insert before after unread =>
    have other := ne_of_mem_of_not_mem member unread
    rw [lastValue_append, lastValue_append, lastValue_cons, if_neg other, Option.or_none]
  | swap before after different =>
    rename_i first second
    rw [lastValue_append, lastValue_append]
    congr 1
    simp only [lastValue_cons]
    -- at most one of the two has the key
    by_cases isFirst : key = first.1
    · have notSecond : key ≠ second.1 := fun same => different (isFirst.symm.trans same)
      rw [if_neg notSecond, Option.or_none, Option.or_none]
    · rw [if_neg isFirst, Option.or_none, Option.or_none]

theorem lastValue_eq_of_unseen (changes : Relation.EqvGen (Unseen seen) entries others) {key : String}
    (member : key ∈ seen) : lastValue others key = lastValue entries key := by
  induction changes with
  | rel _ _ change => exact change.lastValue_eq member
  | refl _ => rfl
  | symm _ _ _ ih => exact ih.symm
  | trans _ _ _ _ _ first second => exact second.trans first

namespace Manifest

/-- The keys that a manifest reads. -/
def keys : List String := ["name", "version", "depends", "auto_install"]

/-- What the last entries say, each key by itself. -/
def ofLast (value : String → Option Expr) : Manifest where
  displayName := (value "name").bind Expr.str?
  version := (value "version").bind Expr.str?
  depends := ((value "depends").map stringsOf).getD []
  autoInstall := ((value "auto_install").map isAutomatic).getD false

theorem ofLast_congr {value other : String → Option Expr}
    (same : ∀ key ∈ keys, other key = value key) : ofLast other = ofLast value := by
  simp only [keys, List.forall_mem_cons] at same
  obtain ⟨name, version, depends, install, _⟩ := same
  simp only [ofLast, name, version, depends, install]

/-- An entry stands for its key from now on. -/
theorem enter_ofLast (value : String → Option Expr) (entry : String × Expr) :
    enter (ofLast value) entry =
      ofLast fun key => if key = entry.1 then some entry.2 else value key := by
  obtain ⟨key, e⟩ := entry
  simp only [enter, beq_iff_eq]
  split
  · subst key; rfl
  · split
    · subst key; rfl
    · split
      · subst key; rfl
      · split
        · subst key; rfl
        · simp_all [ofLast, eq_comm]

theorem foldl_enter (entries : List (String × Expr)) :
    entries.foldl enter {} = ofLast (lastValue entries) := by
  induction entries using List.reverseRecOn with
  | nil => rfl
  | append_singleton entries entry ih =>
    rw [List.foldl_append, ih, List.foldl_cons, List.foldl_nil, enter_ofLast]
    congr 1
    funext key
    exact (lastValue_concat entries entry key).symm

theorem bind_str? (value : Option Expr) :
    value.bind Expr.str? = match value with
      | some (.str text) => some text
      | _ => none := by
  cases value with
  | none => rfl
  | some e => cases e <;> rfl

theorem parse_eq (file : SourceFile) :
    parse file =
      if file.manifestEntries = [] then none else some (ofLast (lastValue file.manifestEntries)) := by
  unfold parse ofEntries
  rw [foldl_enter]
  simp only [List.isEmpty_iff]

/-- There is a manifest in a file just if the file has entries. Its parts are then read from the last
entry of one key each, and one of the wrong shape counts as none. So two files have the same manifest
if their entries differ in entries of other keys, and in the order of entries with different keys. -/
theorem parse_by_last_entries (file : SourceFile) :
    let entries := file.manifestEntries
    (parse file = none ↔ entries = []) ∧
    (∀ m, parse file = some m →
      (m.displayName = match lastValue entries "name" with
        | some (.str title) => some title
        | _ => none) ∧
      (m.version = match lastValue entries "version" with
        | some (.str version) => some version
        | _ => none) ∧
      (m.depends = match lastValue entries "depends" with
        | some (.list items) | some (.tuple items) => items.filterMap Expr.str?
        | _ => []) ∧
      (m.autoInstall = match lastValue entries "auto_install" with
        | some (.bool install) => install
        | some (.list _) => true
        | _ => false)) ∧
    ∀ other : SourceFile, Relation.EqvGen (Unseen keys) entries other.manifestEntries →
      (other.manifestEntries = [] ↔ entries = []) → parse other = parse file := by
  intro entries
  have parsed : parse file = if entries = [] then none else some (ofLast (lastValue entries)) :=
    parse_eq file
  refine ⟨?_, ?_, ?_⟩
  · rw [parsed]
    split <;> simp_all
  · intro m found
    rw [parsed, Option.ite_none_left_eq_some, Option.some.injEq] at found
    obtain ⟨_, rfl⟩ := found
    refine ⟨bind_str? _, bind_str? _, ?_, ?_⟩
    · show ((lastValue entries "depends").map stringsOf).getD [] = _
      cases lastValue entries "depends" with
      | none => rfl
      | some value => cases value <;> rfl
    · show ((lastValue entries "auto_install").map isAutomatic).getD false = _
      cases lastValue entries "auto_install" with
      | none => rfl
      | some value => cases value <;> rfl
  · intro other changes together
    have last : ofLast (lastValue other.manifestEntries) = ofLast (lastValue entries) :=
      ofLast_congr fun key member => lastValue_eq_of_unseen changes member
    rw [parsed, parse_eq other, last]
    simp only [together]

/-- A later entry of the wrong shape hides the right one before it. -/
example : ofEntries [("name", .str "Sales"), ("auto_install", .list []), ("name", .bool true)] =
    some { autoInstall := true } := by rfl

end Manifest

/-! ### Manifests in texts -/

/-- The pairs of the dictionaries at the top of a text. -/
def topPairs (text : String) : List Node := (topStatements text).flatMap Node.pairs

theorem manifestEntries_eq_nil_iff {path text : String} :
    (SourceFile.parse path text).manifestEntries = [] ↔
      ∀ pair ∈ topPairs text, ∀ entry, ¬ Node.Enters pair entry := by
  rw [manifestEntries_parse, topPairs]
  simp only [List.filterMap_eq_nil_iff, Option.eq_none_iff_forall_ne_some, ne_eq,
    Node.entry?_eq_some_iff]

theorem lastValue_parse {path text key : String} {value : Expr} :
    lastValue (SourceFile.parse path text).manifestEntries key = some value ↔
      Node.LastDeclared Node.Enters Prod.fst (topPairs text) (key, value) := by
  rw [lastValue_eq_some_iff, manifestEntries_parse, topPairs]
  exact @Node.find?_reverse_filterMap _ _ _ _ (key, value) _ fun _ _ => Node.entry?_eq_some_iff

/-- A text has a manifest just if some pair at its top has a string literal as its key. Each part of
the manifest comes from the last such pair of one key. -/
theorem manifest_of_text (path text : String) :
    (Manifest.parse (.parse path text) = none ↔
      ∀ pair ∈ topPairs text, ∀ entry, ¬ Node.Enters pair entry) ∧
    ∀ m, Manifest.parse (.parse path text) = some m → ∃ value : String → Option Expr,
      m = .ofLast value ∧ ∀ key v, value key = some v ↔
        Node.LastDeclared Node.Enters Prod.fst (topPairs text) (key, v) := by
  rw [Manifest.parse_eq, ← @manifestEntries_eq_nil_iff path]
  constructor
  · split <;> simp_all
  · intro m found
    have parsed := (Option.ite_none_left_eq_some.mp found).2
    exact ⟨_, (Option.some.inj parsed).symm, fun _ _ => lastValue_parse⟩

end ModelAtlas.Addon
