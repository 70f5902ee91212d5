import ModelAtlas.Proofs.Model.Members

/-!
# Arguments of field constructors

A field is the same however the arguments of its constructor are passed: named arguments may stand
in any order, and arguments that are known by their position may be given their names instead.
-/

namespace ModelAtlas.Model

open Source

variable {α : Type} {name : α → String}

/-! ### Looking up in other orders -/

theorem find?_name_perm {list other : List α} (reordered : other.Perm list)
    (distinct : (list.map name).Nodup) (n : String) :
    other.find? (name · == n) = list.find? (name · == n) := by
  cases found : list.find? (name · == n) with
  | none =>
    rw [find?_name_eq_none_iff] at found ⊢
    rwa [(reordered.map name).mem_iff]
  | some m =>
    obtain rfl : name m = n := by simpa using List.find?_some found
    rw [find?_name_iff ((reordered.map name).nodup_iff.mpr distinct), reordered.mem_iff]
    exact List.mem_of_find?_eq_some found

section Insertion

variable {added list merged : List α} (ordered : list.Sublist merged)
  (inserted : merged.Perm (added ++ list))
include inserted

include ordered in
/-- What is inserted under other names does not change what a name leads to. -/
theorem find?_name_of_inserted {n : String} (other : n ∉ added.map name) :
    merged.find? (name · == n) = list.find? (name · == n) := by
  have none : added.filter (name · == n) = [] := by
    rw [List.filter_eq_nil_iff]
    intro m member isNamed
    exact other (eq_of_beq isNamed ▸ List.mem_map_of_mem member)
  -- what `list` has of the name is part of what `merged` has, and just as much
  have few : (merged.filter (name · == n)).length = (list.filter (name · == n)).length := by
    rw [(inserted.filter _).length_eq, List.filter_append, none, List.nil_append]
  have same := (ordered.filter (name · == n)).eq_of_length few.symm
  rw [← List.head?_filter, ← List.head?_filter, same]

theorem find?_name_inserted {m : α} (member : m ∈ added) (distinct : (added.map name).Nodup)
    (fresh : name m ∉ list.map name) : merged.find? (name · == name m) = some m := by
  cases found : merged.find? (name · == name m) with
  | none =>
    rw [find?_name_eq_none_iff] at found
    exact absurd (List.mem_map_of_mem (inserted.mem_iff.mpr (List.mem_append_left _ member))) found
  | some other =>
    have same : name other = name m := by simpa using List.find?_some found
    rcases List.mem_append.mp (inserted.mem_iff.mp (List.mem_of_find?_eq_some found)) with new | old
    · rw [List.inj_on_of_nodup_map distinct new member same]
    · exact absurd (same ▸ List.mem_map_of_mem old) fresh

end Insertion

/-! ### Names for positional arguments -/

/-- The names of the arguments that may be passed by position, with their positions. -/
def FieldKind.positions (k : FieldKind) : List (String × Nat) :=
  ("string", k.labelPosition) ::
    if k.isRelational then [("comodel_name", 0)]
    else if k = .selection then [("selection", 0)]
    else []

/-- The positional arguments of a call that have a meaning, with their names. -/
def namedPositional (kind : FieldKind) (call : Call) : List (String × Expr) :=
  kind.positions.filterMap fun (n, i) => call.positional[i]?.map (n, ·)

/-- `named` passes by name what `call` passes by position: the arguments `added`, which stand
anywhere among the named arguments of `call`. Positional arguments without a meaning are dropped. -/
structure PassesByName (kind : FieldKind) (call : Call) (added : List Keyword) (named : Call) :
    Prop where
  positional : named.positional = []
  values : added.map (fun k => (k.name, k.value)) = namedPositional kind call
  fresh : ∀ k ∈ added, k.name ∉ call.keywords.map (·.name)
  ordered : call.keywords.Sublist named.keywords
  inserted : named.keywords.Perm (added ++ call.keywords)

theorem FieldKind.nodup_positions (k : FieldKind) : (k.positions.map (·.1)).Nodup := by
  cases k <;> decide

theorem mem_namedPositional {kind : FieldKind} {call : Call} {n : String} {v : Expr} :
    (n, v) ∈ namedPositional kind call ↔
      ∃ i, (n, i) ∈ kind.positions ∧ call.positional[i]? = some v := by
  simp [namedPositional]

theorem names_namedPositional (kind : FieldKind) (call : Call) :
    ((namedPositional kind call).map (·.1)).Sublist (kind.positions.map (·.1)) := by
  rw [namedPositional]
  induction kind.positions with
  | nil => exact .slnil
  | cons first rest ih =>
    simp only [List.filterMap_cons, List.map_cons]
    cases call.positional[first.2]? with
    | none =>
      simp only [Option.map_none]
      exact ih.cons _
    | some v =>
      simp only [Option.map_some, List.map_cons]
      exact ih.cons_cons _

section Passing

variable {kind : FieldKind} {call named : Call} {added : List Keyword} {n : String} {i : Nat}

namespace PassesByName

variable (passes : PassesByName kind call added named)
include passes

theorem names_added : added.map (·.name) = (namedPositional kind call).map (·.1) := by
  rw [← passes.values, List.map_map]
  rfl

theorem nodup_added : (added.map (·.name)).Nodup := by
  rw [passes.names_added]
  exact (names_namedPositional kind call).nodup kind.nodup_positions

theorem keyword_of_not_added (other : n ∉ added.map (·.name)) :
    named.keyword n = call.keyword n :=
  find?_name_of_inserted passes.ordered passes.inserted other

theorem keyword_eq (other : n ∉ kind.positions.map (·.1)) : named.keyword n = call.keyword n := by
  refine passes.keyword_of_not_added fun member => other ?_
  rw [passes.names_added] at member
  exact (names_namedPositional kind call).mem member

/-- What stands at a position is what its name leads to now. If nothing stands there, the name leads
to what it did before. -/
theorem keyword_cases (known : (n, i) ∈ kind.positions) :
    (call.positional[i]? = none ∧ named.keyword n = call.keyword n) ∨
      ∃ k, call.positional[i]? = some k.value ∧ call.keyword n = none ∧
        named.keyword n = some k := by
  cases found : call.positional[i]? with
  | none =>
    refine .inl ⟨rfl, passes.keyword_of_not_added ?_⟩
    rw [passes.names_added]
    intro listed
    obtain ⟨⟨m, v⟩, member, same⟩ := List.mem_map.mp listed
    obtain rfl : m = n := same
    obtain ⟨j, also, present⟩ := mem_namedPositional.mp member
    -- a name has only one position
    obtain rfl : j = i := congrArg Prod.snd
      (List.inj_on_of_nodup_map kind.nodup_positions also known rfl)
    rw [found] at present
    cases present
  | some v =>
    have listed : (n, v) ∈ added.map fun k => (k.name, k.value) := by
      rw [passes.values]
      exact mem_namedPositional.mpr ⟨i, known, found⟩
    obtain ⟨k, member, same⟩ := List.mem_map.mp listed
    obtain ⟨rfl, rfl⟩ := Prod.mk.inj same
    have fresh := passes.fresh k member
    exact .inr ⟨k, rfl, (find?_name_eq_none_iff _ _).mpr fresh,
      find?_name_inserted passes.inserted member passes.nodup_added fresh⟩

theorem keywordStr_eq (known : (n, i) ∈ kind.positions) :
    FieldRecord.keywordStr named n =
      (FieldRecord.keywordStr call n).or (call.positional[i]?.bind Expr.str?) := by
  unfold FieldRecord.keywordStr
  rcases passes.keyword_cases known with ⟨nothing, same⟩ | ⟨k, present, absent, found⟩
  · rw [nothing, same, Option.bind_none, Option.or_none]
  · rw [present, absent, found]
    rfl

theorem labelOf_eq : FieldRecord.labelOf kind named = FieldRecord.labelOf kind call := by
  rw [FieldRecord.labelOf, FieldRecord.labelOf, passes.positional,
    passes.keywordStr_eq (List.mem_cons_self)]
  simp

theorem comodelOf_eq (relational : kind.isRelational) :
    FieldRecord.comodelOf named = FieldRecord.comodelOf call := by
  have known : ("comodel_name", 0) ∈ kind.positions := by
    simp [FieldKind.positions, relational]
  rw [FieldRecord.comodelOf, FieldRecord.comodelOf, passes.positional, passes.keywordStr_eq known,
    List.head?_eq_getElem? (l := call.positional)]
  simp

theorem selectionOf_eq (isSelection : kind = .selection) :
    FieldRecord.selectionOf named = FieldRecord.selectionOf call := by
  have known : ("selection", 0) ∈ kind.positions := by
    rw [isSelection]
    decide
  rw [FieldRecord.selectionOf, FieldRecord.selectionOf, passes.positional,
    List.head?_eq_getElem? (l := call.positional)]
  rcases passes.keyword_cases known with ⟨nothing, same⟩ | ⟨k, present, absent, found⟩
  · rw [nothing, same]
    rfl
  · rw [present, absent, found]
    rfl

end PassesByName

end Passing

/-! ### Records -/

/-- A field depends on its call only through what stands at each position and under each name. -/
theorem FieldRecord.ofCall_congr {call other : Call} (keywords : other.keyword = call.keyword)
    (positional : other.positional = call.positional) (name : String) (kind : FieldKind)
    (location : Location) : ofCall name kind other location = ofCall name kind call location := by
  simp only [ofCall, keywordBool, keywordStr, keywordText, labelOf, comodelOf, selectionOf,
    positional, keywords]

theorem PassesByName.ofCall_eq {kind : FieldKind} {call named : Call} {added : List Keyword}
    (passes : PassesByName kind call added named) (name : String) (location : Location) :
    FieldRecord.ofCall name kind named location = FieldRecord.ofCall name kind call location := by
  -- besides label, comodel and selection, nothing is read by position
  have never : ∀ n ∈ ["required", "readonly", "compute", "related", "default", "help", "domain"],
      n ∉ kind.positions.map (·.1) := by
    cases kind <;> decide
  have keyword (n : String)
      (member : n ∈ ["required", "readonly", "compute", "related", "default", "help", "domain"]) :
      named.keyword n = call.keyword n := passes.keyword_eq (never n member)
  have comodel : (if kind.isRelational then FieldRecord.comodelOf named else none) =
      if kind.isRelational then FieldRecord.comodelOf call else none :=
    ite_congr rfl (fun relational => passes.comodelOf_eq relational) fun _ => rfl
  have selection : (if kind = .selection then FieldRecord.selectionOf named else none) =
      if kind = .selection then FieldRecord.selectionOf call else none :=
    ite_congr rfl (fun isSelection => passes.selectionOf_eq isSelection) fun _ => rfl
  simp only [FieldRecord.ofCall, FieldRecord.keywordBool, FieldRecord.keywordStr,
    FieldRecord.keywordText, passes.labelOf_eq, comodel, selection, keyword, List.mem_cons,
    true_or, or_true]

/-- A field does not depend on the order of its named arguments, nor on whether its label and its
first argument are passed by position or by name. -/
theorem record_independent_of_spelling (name : String) (kind : FieldKind) (call : Call)
    (location : Location) :
    (∀ keywords : List Keyword, keywords.Perm call.keywords → (call.keywords.map (·.name)).Nodup →
      FieldRecord.ofCall name kind { call with keywords := keywords } location =
        FieldRecord.ofCall name kind call location) ∧
    ∀ added named, PassesByName kind call added named →
      FieldRecord.ofCall name kind named location = FieldRecord.ofCall name kind call location := by
  refine ⟨fun keywords reordered distinct => ?_, fun _ _ passes => passes.ofCall_eq name location⟩
  have found : CallOf.keyword { call with keywords := keywords } = call.keyword :=
    funext (find?_name_perm reordered distinct)
  exact FieldRecord.ofCall_congr found rfl name kind location

def requiredArgument : Keyword := ⟨"required", .bool true, "True"⟩

def helpArgument : Keyword := ⟨"help", .str "Who pays", "'Who pays'"⟩

def labelArgument : Keyword := ⟨"string", .other "_('Payer')", "_('Payer')"⟩

def comodelArgument : Keyword := ⟨"comodel_name", .str "res.partner", "'res.partner'"⟩

/-- Two arguments by position, the label in a shape that gives none. -/
def payerCall : Call where
  callee := .qualified fieldsAlias "Many2one"
  positional := [comodelArgument.value, labelArgument.value, .bool false]
  keywords := [requiredArgument, helpArgument]

/-- The same by name, in between the others. -/
def namedPayerCall : Call where
  callee := .qualified fieldsAlias "Many2one"
  positional := []
  keywords := [requiredArgument, labelArgument, helpArgument, comodelArgument]

theorem payer_passesByName :
    PassesByName .many2one payerCall [labelArgument, comodelArgument] namedPayerCall where
  positional := rfl
  values := rfl
  fresh := by decide
  ordered := .cons_cons _ (.cons _ (.cons_cons _ (.cons _ .slnil)))
  inserted := (List.Perm.swap _ _ _).trans
    (.cons _ (List.perm_append_singleton comodelArgument [requiredArgument, helpArgument]))

/-- A relational field keeps its record when its named arguments change places, and when its other
arguments are passed by name. -/
theorem payer_record_kept :
    [helpArgument, requiredArgument].Perm payerCall.keywords ∧
    (payerCall.keywords.map (·.name)).Nodup ∧
    PassesByName .many2one payerCall [labelArgument, comodelArgument] namedPayerCall ∧
    FieldRecord.ofCall "payer_id" .many2one
        { payerCall with keywords := [helpArgument, requiredArgument] } ⟨"/ws/a.py", {}⟩ =
      .ofCall "payer_id" .many2one payerCall ⟨"/ws/a.py", {}⟩ ∧
    FieldRecord.ofCall "payer_id" .many2one namedPayerCall ⟨"/ws/a.py", {}⟩ =
      .ofCall "payer_id" .many2one payerCall ⟨"/ws/a.py", {}⟩ ∧
    (FieldRecord.ofCall "payer_id" .many2one payerCall ⟨"/ws/a.py", {}⟩).comodel =
      some "res.partner" ∧
    (FieldRecord.ofCall "payer_id" .many2one payerCall ⟨"/ws/a.py", {}⟩).label = none := by
  obtain ⟨reorder, rename⟩ :=
    record_independent_of_spelling "payer_id" .many2one payerCall ⟨"/ws/a.py", {}⟩
  have reordered : [helpArgument, requiredArgument].Perm payerCall.keywords := .swap _ _ _
  have distinct : (payerCall.keywords.map (·.name)).Nodup := by decide
  exact ⟨reordered, distinct, payer_passesByName, reorder _ reordered distinct,
    rename _ _ payer_passesByName, rfl, rfl⟩

end ModelAtlas.Model
