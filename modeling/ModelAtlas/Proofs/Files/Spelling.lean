import ModelAtlas.Files.Tree

/-!
# Spellings of paths

The text of an absolute path is read back into the names it was made of. Detours through `.`, or
through a name and back through `..`, do not change where a path leads.
-/

namespace ModelAtlas.Files

/-- What a directory can have an entry under. -/
structure IsName (name : String) : Prop where
  nonempty : name ≠ ""
  notHere : name ≠ "."
  notAbove : name ≠ ".."
  noSlash : '/' ∉ name.toList

instance (name : String) : Decidable (IsName name) :=
  decidable_of_iff (name ≠ "" ∧ name ≠ "." ∧ name ≠ ".." ∧ '/' ∉ name.toList)
    ⟨fun ⟨a, b, c, d⟩ => ⟨a, b, c, d⟩, fun ⟨a, b, c, d⟩ => ⟨a, b, c, d⟩⟩

/-- What can stand between two slashes: a name, `.` or `..`. -/
def IsPiece (piece : String) : Prop := piece ≠ "" ∧ '/' ∉ piece.toList

theorem IsName.isPiece {name : String} (isName : IsName name) : IsPiece name :=
  ⟨isName.nonempty, isName.noSlash⟩

/-! ### Reading texts -/

namespace Path

theorem toList_text (pieces : List String) :
    (ofParts pieces).text.toList = '/' :: ['/'].intercalate (pieces.map String.toList) := by
  simp [text, ofParts]

theorem splitSlash_text {pieces : List String} (nonempty : pieces ≠ [])
    (noSlash : ∀ p ∈ pieces, '/' ∉ p.toList) :
    splitSlash (ofParts pieces).text = "" :: pieces := by
  have cut : (ofParts pieces).text.toList.splitOn '/' = [] :: pieces.map String.toList := by
    rw [toList_text]
    have parts := List.splitOn_append_cons_self (a := '/') []
      (['/'].intercalate (pieces.map String.toList))
    rw [List.nil_append] at parts
    rw [parts, List.splitOn_intercalate '/' (by simpa using noSlash) (by simpa using nonempty)]
    rfl
  unfold splitSlash
  rw [cut]
  simp [Function.comp_def]

theorem text_inj {pieces others : List String} (nonempty : pieces ≠ []) (alsoNonempty : others ≠ [])
    (valid : ∀ p ∈ pieces, IsPiece p) (alsoValid : ∀ p ∈ others, IsPiece p)
    (same : (ofParts pieces).text = (ofParts others).text) : pieces = others := by
  have cut := congrArg splitSlash same
  rw [splitSlash_text nonempty fun p member => (valid p member).2,
    splitSlash_text alsoNonempty fun p member => (alsoValid p member).2] at cut
  exact List.tail_eq_of_cons_eq cut

theorem parse_text {pieces : List String} (noSlash : ∀ p ∈ pieces, '/' ∉ p.toList) :
    parse (ofParts pieces).text = ofParts (pieces.filter fun p => !p.isEmpty && p != ".") := by
  cases pieces with
  | nil => decide
  | cons first rest =>
    unfold parse
    rw [splitSlash_text (by simp) noSlash, toList_text]
    rfl

theorem parse_text_of_names {names : List String} (valid : ∀ n ∈ names, IsName n) :
    parse (ofParts names).text = ofParts names := by
  rw [parse_text fun n member => (valid n member).noSlash]
  congr
  rw [List.filter_eq_self]
  intro n member
  simp [(valid n member).nonempty, (valid n member).notHere]

theorem text_append_singleton {pieces : List String} (nonempty : pieces ≠ []) (last : String) :
    (ofParts (pieces ++ [last])).text = (ofParts pieces).text ++ "/" ++ last := by
  unfold text ofParts
  dsimp only
  rw [String.intercalate_append_of_ne_nil nonempty (by simp), String.intercalate_singleton]
  simp [String.append_assoc]

theorem getLast?_text {pieces : List String} (nonempty : pieces ≠ [])
    (valid : ∀ p ∈ pieces, IsPiece p) : (ofParts pieces).text.toList.getLast? ≠ some '/' := by
  obtain ⟨init, last, rfl⟩ : ∃ init last, pieces = init ++ [last] :=
    ⟨_, _, (List.dropLast_concat_getLast nonempty).symm⟩
  obtain ⟨present, noSlash⟩ : IsPiece last := valid last (by simp)
  have chars : last.toList ≠ [] := by simpa using present
  have ends : (ofParts (init ++ [last])).text.toList.getLast? = some (last.toList.getLast chars) := by
    by_cases alone : init = []
    · simp [alone, text, ofParts, List.getLast?_cons, List.getLast?_eq_some_getLast chars]
    · rw [text_append_singleton alone, String.toList_append, List.getLast?_append,
        List.getLast?_eq_some_getLast chars]
      rfl
  rw [ends]
  intro slash
  apply noSlash
  rw [← Option.some.inj slash]
  exact List.getLast_mem chars

theorem walkPieces_text {pieces : List String} (nonempty : pieces ≠ [])
    (valid : ∀ p ∈ pieces, IsPiece p) : Tree.walkPieces (ofParts pieces).text = pieces := by
  have cut : (splitSlash (ofParts pieces).text).filter (!·.isEmpty) = pieces := by
    rw [splitSlash_text nonempty fun p member => (valid p member).2]
    rw [List.filter_cons_of_neg (by simp), List.filter_eq_self]
    intro p member
    simp [(valid p member).1]
  unfold Tree.walkPieces
  simp [cut, getLast?_text nonempty valid]

theorem joinText_text {names : List String} (valid : ∀ n ∈ names, IsName n) {extra : String}
    (relative : extra.toList.head? ≠ some '/') :
    joinText (ofParts names).text extra = (ofParts (names ++ [extra])).text := by
  unfold joinText
  rw [if_neg (by simpa using relative)]
  cases names with
  | nil => simp [text, ofParts]
  | cons first rest =>
    have shown : ¬ (ofParts (first :: rest)).text.isEmpty := by simp [text, ofParts]
    have open_ := getLast?_text (List.cons_ne_nil first rest) fun n member => (valid n member).isPiece
    rw [text_append_singleton (List.cons_ne_nil first rest), if_neg (by simp [shown, open_])]

end Path

/-! ### Detours -/

/-- A spelling of some names: `.` may stand anywhere, and so may a name with `..` behind it. -/
inductive Detour : List String → List String → Prop where
  | direct (names : List String) : Detour names names
  | stay {before after names : List String} :
      Detour (before ++ after) names → Detour (before ++ "." :: after) names
  | back {before after names : List String} {name : String} : IsName name →
      Detour (before ++ after) names → Detour (before ++ name :: ".." :: after) names

/-- What `clean` does with one part. The parts kept so far stand last one first. -/
def cleanStep (out : List String) (part : String) : List String :=
  if part == "." then out
  else match out with
    | last :: rest => if part == ".." && last != ".." then rest else part :: out
    | [] => [part]

theorem cleanStep_name {name : String} (valid : IsName name) (out : List String) :
    cleanStep out name = name :: out := by
  unfold cleanStep
  cases out with
  | nil => simp [valid.notHere]
  | cons last rest => simp [valid.notHere, valid.notAbove]

theorem cleanStep_back {name : String} (valid : IsName name) (out : List String) :
    cleanStep (name :: out) ".." = out := by
  simp [cleanStep, valid.notAbove]

theorem foldl_cleanStep_names {names : List String} (valid : ∀ n ∈ names, IsName n)
    (out : List String) : names.foldl cleanStep out = names.reverse ++ out := by
  induction names generalizing out with
  | nil => rfl
  | cons name rest ih =>
    obtain ⟨first, others⟩ := List.forall_mem_cons.mp valid
    rw [List.foldl_cons, cleanStep_name first, ih others, List.reverse_cons, List.append_assoc]
    rfl

theorem Detour.noSlash {pieces names : List String} (detour : Detour pieces names)
    (valid : ∀ n ∈ names, IsName n) : ∀ p ∈ pieces, p ≠ "" ∧ '/' ∉ p.toList := by
  induction detour with
  | direct => exact fun p member => ⟨(valid p member).nonempty, (valid p member).noSlash⟩
  | stay _ ih =>
    intro p member
    rw [List.mem_append, List.mem_cons] at member
    rcases member with before | rfl | after
    · exact ih valid p (List.mem_append_left _ before)
    · decide
    · exact ih valid p (List.mem_append_right _ after)
  | back isName _ ih =>
    intro p member
    rw [List.mem_append, List.mem_cons, List.mem_cons] at member
    rcases member with before | rfl | rfl | after
    · exact ih valid p (List.mem_append_left _ before)
    · exact ⟨isName.nonempty, isName.noSlash⟩
    · decide
    · exact ih valid p (List.mem_append_right _ after)

theorem Detour.foldl_cleanStep {pieces names : List String} (detour : Detour pieces names)
    (out : List String) : pieces.foldl cleanStep out = names.foldl cleanStep out := by
  induction detour with
  | direct => rfl
  | stay _ ih =>
    rw [List.foldl_append] at ih ⊢
    exact ih
  | back isName _ ih =>
    rw [List.foldl_append] at ih ⊢
    rw [List.foldl_cons, List.foldl_cons, cleanStep_name isName, cleanStep_back isName]
    exact ih

theorem foldl_cleanStep_filter (pieces : List String) (present : ∀ p ∈ pieces, p ≠ "")
    (out : List String) :
    (pieces.filter fun p => !p.isEmpty && p != ".").foldl cleanStep out =
      pieces.foldl cleanStep out := by
  induction pieces generalizing out with
  | nil => rfl
  | cons p rest ih =>
    obtain ⟨first, others⟩ := List.forall_mem_cons.mp present
    by_cases here : p = "."
    · subst here
      rw [List.filter_cons_of_neg (by simp), ih others]
      rfl
    · rw [List.filter_cons_of_pos (by simp [first, here]), List.foldl_cons, ih others]
      rfl

/-- However a path is spelled, cleaning its text leads to its names. -/
theorem Detour.clean_parse {pieces names : List String} (detour : Detour pieces names)
    (valid : ∀ n ∈ names, IsName n) :
    (Path.parse (Path.ofParts pieces).text).clean = Path.ofParts names := by
  have pieceWise := detour.noSlash valid
  rw [Path.parse_text fun p member => (pieceWise p member).2]
  have parts : (pieces.filter fun p => !p.isEmpty && p != ".").foldl cleanStep [] =
      names.reverse := by
    rw [foldl_cleanStep_filter pieces (fun p member => (pieceWise p member).1),
      detour.foldl_cleanStep, foldl_cleanStep_names valid, List.append_nil]
  show (⟨true, _⟩ : Path) = ⟨true, names⟩
  rw [← List.reverse_reverse names, ← parts]
  rfl

end ModelAtlas.Files
