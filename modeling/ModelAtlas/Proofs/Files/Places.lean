import ModelAtlas.Proofs.Files.Discovery

/-!
# Places without links

A walk ends at a place that is free of links. So a path is its own normal form exactly if it is such a
place, and what is found below a root is one unless a link was followed on the way
(`normalize_eq_self_iff`).
-/

namespace ModelAtlas.Files

open Std

/-! ### Parts of a written path -/

theorem not_mem_of_mem_splitOn {α : Type} [BEq α] [LawfulBEq α] {x : α} {text piece : List α}
    (member : piece ∈ text.splitOn x) : x ∉ piece := by
  induction text generalizing piece with
  | nil =>
    rw [List.splitOn_nil, List.mem_singleton] at member
    simp [member]
  | cons first rest ih =>
    rw [List.splitOn_cons_eq_if_modifyHead] at member
    split at member
    · rcases List.mem_cons.mp member with rfl | later
      · simp
      · exact ih later
    · rename_i other
      obtain ⟨head, tail, split⟩ := List.exists_cons_of_ne_nil (List.splitOn_ne_nil x rest)
      rw [split, List.modifyHead_cons] at member
      rw [split] at ih
      rcases List.mem_cons.mp member with rfl | later
      · have different : x ≠ first := fun same => other (by simp [same])
        simp [different, ih List.mem_cons_self]
      · exact ih (List.mem_cons_of_mem _ later)

theorem Path.isPiece_of_mem_parse {text part : String} (member : part ∈ (Path.parse text).parts) :
    IsPiece part := by
  have cut : part ∈ splitSlash text ∧ part ≠ "" := by
    unfold Path.parse at member
    dsimp only at member
    cases pieces : splitSlash text with
    | nil =>
      rw [pieces] at member
      simp [Path.ofPieces] at member
    | cons first rest =>
      rw [pieces] at member
      unfold Path.ofPieces at member
      dsimp only at member
      split at member
      · obtain ⟨later, kept⟩ := List.mem_filter.mp member
        simp only [Bool.and_eq_true, Bool.not_eq_true', String.isEmpty_eq_false_iff] at kept
        exact ⟨List.mem_cons_of_mem _ later, kept.1⟩
      · rename_i shown
        rcases List.mem_cons.mp member with rfl | later
        · refine ⟨List.mem_cons_self, ?_⟩
          rintro rfl
          simp at shown
        · obtain ⟨later, kept⟩ := List.mem_filter.mp later
          simp only [Bool.and_eq_true, Bool.not_eq_true', String.isEmpty_eq_false_iff] at kept
          exact ⟨List.mem_cons_of_mem _ later, kept.1⟩
  refine ⟨cut.2, ?_⟩
  obtain ⟨piece, inText, rfl⟩ := List.mem_map.mp cut.1
  rw [String.toList_ofList]
  exact not_mem_of_mem_splitOn inText

namespace Tree

/-! ### Where walks end -/

theorem WellFormed.dir_dropLast {t : Tree} (formed : t.WellFormed) {here : List String}
    (dir : t.entry? here = some .dir) : t.entry? here.dropLast = some .dir := by
  by_cases top : here = []
  · rw [top]
    rfl
  · apply formed.inside here.dropLast (here.getLast top)
    rw [List.dropLast_concat_getLast top, dir]
    exact Option.some_ne_none _

theorem WellFormed.dir_above {t : Tree} (formed : t.WellFormed) {parts rest : List String}
    (dir : t.entry? (parts ++ rest) = some .dir) : t.entry? parts = some .dir := by
  by_cases last : rest = []
  · simpa [last] using dir
  · apply formed.above last
    rw [dir]
    exact Option.some_ne_none _

/-- A walk from a directory ends at a directory or at a file. -/
theorem WellFormed.entry?_walk {t : Tree} (formed : t.WellFormed) {links : Nat}
    {here place pieces : List String} (dir : t.entry? here = some .dir)
    (walked : t.walk links here pieces = .ok place) :
    t.entry? place = some .dir ∨ ∃ content, t.entry? place = some (.file content) := by
  fun_induction walk t links here pieces with
  | case1 links here =>
    cases walked
    exact Or.inl dir
  | case2 links here piece rest isHere ih => exact ih dir walked
  | case3 links here piece rest notHere isAbove ih => exact ih (formed.dir_dropLast dir) walked
  | case4 => cases walked
  | case5 links here piece rest notHere notAbove found ih => exact ih found walked
  | case6 links here piece rest notHere notAbove content found last =>
    cases walked
    exact Or.inr ⟨content, found⟩
  | case7 => cases walked
  | case8 => cases walked
  | case9 here piece rest notHere notAbove target found links start ih =>
    apply ih _ walked
    unfold start
    split
    · rfl
    · exact dir

theorem WellFormed.unlinked {t : Tree} (formed : t.WellFormed) {parts : List String}
    (present : t.entry? parts ≠ none) (noLink : ∀ target, t.entry? parts ≠ some (.link target)) :
    t.Unlinked parts := by
  rintro above target ⟨rest, rfl⟩ found
  by_cases last : rest = []
  · subst last
    rw [List.append_nil] at noLink
    exact noLink target found
  · rw [formed.above last present] at found
    cases found

/-- Names with no link on the way, nor at the end. -/
def IsPlace (t : Tree) (parts : List String) : Prop :=
  (∀ n ∈ parts, IsName n) ∧ t.Unlinked parts

instance (t : Tree) (parts : List String) : Decidable (t.IsPlace parts) :=
  inferInstanceAs (Decidable ((∀ n ∈ parts, IsName n) ∧ t.Unlinked parts))

theorem WellFormed.isPlace_of_walk {t : Tree} (formed : t.WellFormed) {links : Nat}
    {here place pieces : List String} (dir : t.entry? here = some .dir)
    (walked : t.walk links here pieces = .ok place) : t.IsPlace place := by
  obtain isDir | ⟨content, isFile⟩ := formed.entry?_walk dir walked
  · have present : t.entry? place ≠ none := by simp [isDir]
    exact ⟨formed.names place present, formed.unlinked present (by simp [isDir])⟩
  · have present : t.entry? place ≠ none := by simp [isFile]
    exact ⟨formed.names place present, formed.unlinked present (by simp [isFile])⟩

theorem WellFormed.resolve_eq_self_iff {t : Tree} (formed : t.WellFormed) {parts place : List String}
    (resolved : t.resolve parts = .ok place) : parts = place ↔ t.IsPlace parts := by
  constructor
  · rintro rfl
    exact formed.isPlace_of_walk rfl resolved
  · rintro ⟨valid, unlinked⟩
    have arrived := @walk_straight t maxLinks [] place parts valid (by simpa using unlinked) resolved
    simpa using arrived.symm

theorem WellFormed.walk_into {t : Tree} (formed : t.WellFormed) (links : Nat)
    {here names : List String} (dir : t.entry? (here ++ names) = some .dir) (rest : List String) :
    t.walk links here (names ++ rest) = t.walk links (here ++ names) rest := by
  induction names generalizing here with
  | nil => simp
  | cons name others ih =>
    rw [List.append_cons] at dir ⊢
    have first := formed.dir_above dir
    have isName : IsName name := formed.names (here ++ [name]) (by simp [first]) name (by simp)
    rw [List.cons_append, walk_dir isName first, ih dir]

/-- Where a walk can go on, it comes to the end of its first part. -/
theorem walk_start {t : Tree} {links : Nat} {here place before after : List String}
    (walked : t.walk links here (before ++ after) = .ok place) :
    ∃ there, t.walk links here before = .ok there := by
  fun_induction walk t links here before with
  | case1 links here => exact ⟨here, rfl⟩
  | case2 links here piece rest isHere ih =>
    rw [List.cons_append, walk, if_pos isHere] at walked
    exact ih walked
  | case3 links here piece rest notHere isAbove ih =>
    rw [List.cons_append, walk, if_neg notHere, if_pos isAbove] at walked
    exact ih walked
  | case4 links here piece rest notHere notAbove missing =>
    rw [List.cons_append, walk, if_neg notHere, if_neg notAbove, missing] at walked
    cases walked
  | case5 links here piece rest notHere notAbove found ih =>
    rw [List.cons_append, walk, if_neg notHere, if_neg notAbove, found] at walked
    exact ih walked
  | case6 links here piece rest notHere notAbove content found last => exact ⟨_, rfl⟩
  | case7 links here piece rest notHere notAbove content found more =>
    rw [List.cons_append, walk, if_neg notHere, if_neg notAbove, found] at walked
    have further : ¬ (rest ++ after).isEmpty := by
      simp only [List.isEmpty_iff, List.append_eq_nil_iff] at more ⊢
      exact fun none => more none.1
    rw [if_neg further] at walked
    cases walked
  | case8 here piece rest notHere notAbove target found =>
    rw [List.cons_append, walk, if_neg notHere, if_neg notAbove, found] at walked
    cases walked
  | case9 here piece rest notHere notAbove target found links start ih =>
    rw [List.cons_append, walk, if_neg notHere, if_neg notAbove, found] at walked
    dsimp only at walked
    rw [← List.append_assoc] at walked
    exact ih walked

end Tree

/-! ### Cleaned paths -/

/-- The parts of a cleaned path, last one first: names, behind any number of `..`. -/
inductive Cleaned : List String → Prop where
  | ups (count : Nat) : Cleaned (List.replicate count "..")
  | name {name : String} {above : List String} :
      IsName name → Cleaned above → Cleaned (name :: above)

theorem Cleaned.push {out : List String} (cleaned : Cleaned out) {part : String}
    (isPiece : IsPiece part) : Cleaned (cleanStep out part) := by
  by_cases here : part = "."
  · simpa [cleanStep, here] using cleaned
  · by_cases up : part = ".."
    · subst up
      cases cleaned with
      | ups count =>
        cases count with
        | zero => exact .ups 1
        | succ count => exact .ups (count + 2)
      | name isName above =>
        rw [cleanStep_back isName]
        exact above
    · have isName : IsName part := ⟨isPiece.1, here, up, isPiece.2⟩
      rw [cleanStep_name isName]
      exact .name isName cleaned

theorem cleaned_parts {p : Path} (pieces : ∀ n ∈ p.parts, IsPiece n) :
    Cleaned p.clean.parts.reverse := by
  have folded : ∀ (parts out : List String), (∀ n ∈ parts, IsPiece n) → Cleaned out →
      Cleaned (parts.foldl cleanStep out) := by
    intro parts
    induction parts with
    | nil => exact fun _ _ cleaned => cleaned
    | cons part rest ih =>
      intro out pieces cleaned
      obtain ⟨first, others⟩ := List.forall_mem_cons.mp pieces
      exact ih _ others (cleaned.push first)
  have parts : p.clean.parts.reverse = p.parts.foldl cleanStep [] := List.reverse_reverse _
  rw [parts]
  exact folded p.parts [] pieces (.ups 0)

theorem clean_of_names {p : Path} (valid : ∀ n ∈ p.parts, IsName n) : p.clean = p := by
  have parts : p.parts.foldl cleanStep [] = p.parts.reverse := by
    rw [foldl_cleanStep_names valid, List.append_nil]
  show (⟨p.absolute, (p.parts.foldl cleanStep []).reverse⟩ : Path) = p
  rw [parts, List.reverse_reverse]

namespace Tree

/-! ### Normal forms -/

theorem resolve_ups (t : Tree) (count : Nat) : t.resolve (List.replicate count "..") = .ok [] := by
  induction count with
  | zero => exact t.resolve_nil
  | succ count ih =>
    rw [List.replicate_succ, resolve, walk_back]
    exact ih

/-- `found` is the longest part of some parts that leads somewhere, and `rest` the names behind it. -/
structure Followed (t : Tree) (parts found rest place : List String) : Prop where
  split : parts = found ++ rest
  names : ∀ n ∈ rest, IsName n
  resolved : t.resolve found = .ok place
  stuck : ∀ name more, rest = name :: more → ∃ e, t.resolve (found ++ [name]) = .error e

theorem followed_of_cleaned (t : Tree) {back : List String} (cleaned : Cleaned back)
    (missing : List String) :
    ∃ found rest place, t.Followed back.reverse found rest place ∧
      t.follow back missing = some (place ++ rest ++ missing) := by
  induction cleaned generalizing missing with
  | ups count =>
    have resolved : t.resolve (List.replicate count "..").reverse = .ok [] := by
      rw [List.reverse_replicate]
      exact t.resolve_ups count
    refine ⟨_, [], [], ⟨(List.append_nil _).symm, by simp, resolved, by simp⟩, ?_⟩
    exact follow_of_ok resolved missing
  | @name name above isName _ ih =>
    cases whole : t.resolve (name :: above).reverse with
    | ok place =>
      refine ⟨_, [], place, ⟨(List.append_nil _).symm, by simp, whole, by simp⟩, ?_⟩
      rw [follow_of_ok whole, List.append_nil]
    | error e =>
      obtain ⟨found, rest, place, followed, same⟩ := ih (name :: missing)
      rw [List.reverse_cons, followed.split] at whole
      refine ⟨found, rest ++ [name], place, ⟨?_, ?_, followed.resolved, ?_⟩, ?_⟩
      · rw [List.reverse_cons, followed.split, List.append_assoc]
      · intro n member
        rcases List.mem_append.mp member with before | last
        · exact followed.names n before
        · rw [List.mem_singleton.mp last]
          exact isName
      · intro next more shown
        cases rest with
        | nil =>
          cases shown
          rw [List.append_nil] at whole
          exact ⟨e, whole⟩
        | cons first others =>
          cases shown
          exact followed.stuck _ _ rfl
      · rw [follow_of_error (by rw [List.reverse_cons, followed.split]; exact whole) isName, same]
        simp

/-- The normal form of an absolute path: where the longest part leads to, and the names behind it. -/
theorem normalize_followed (t : Tree) {p : Path} (absolute : p.absolute = true)
    (pieces : ∀ n ∈ p.parts, IsPiece n) :
    ∃ found rest place, t.Followed p.clean.parts found rest place ∧
      t.normalize p = .ofParts (place ++ rest) := by
  obtain ⟨found, rest, place, followed, same⟩ := t.followed_of_cleaned (cleaned_parts pieces) []
  rw [List.reverse_reverse] at followed
  rw [List.append_nil] at same
  exact ⟨found, rest, place, followed, normalize_of_follow absolute same⟩

theorem normalize_of_isPlace {t : Tree} {p : Path} (absolute : p.absolute = true)
    (isPlace : t.IsPlace p.parts) : t.normalize p = p := by
  obtain ⟨valid, unlinked⟩ := isPlace
  have leads : t.LeadsTo p.clean.parts p.parts := by
    rw [clean_of_names valid]
    exact t.leadsTo_self valid
  rw [leads.normalize absolute unlinked, Path.ofParts, ← absolute]

/-! ### What is found -/

/-- A file that some names lead to from a directory. Every name is looked up by a walk of its own. -/
inductive Reaches (t : Tree) : List String → List String → Prop where
  | file {place target : List String} {name : String} :
      t.entry? (place ++ [name]) ≠ none → t.walk maxLinks place [name] = .ok target →
      Reaches t place [name]
  | into {place target rest : List String} {name : String} :
      t.entry? (place ++ [name]) ≠ none → t.walk maxLinks place [name] = .ok target →
      Reaches t target rest → Reaches t place (name :: rest)

theorem reaches_of_mem_filesBelow {t : Tree} (formed : t.WellFormed) {depth : Nat}
    {inside : List (List String)} {shown place parts : List String}
    (member : parts ∈ t.filesBelow depth inside shown place) :
    ∃ rest, parts = shown ++ rest ∧ t.Reaches place rest := by
  induction depth generalizing inside shown place with
  | zero => cases member
  | succ depth ih =>
    rw [filesBelow, List.mem_flatMap] at member
    obtain ⟨name, listed, member⟩ := member
    have present := mem_namesIn.mp listed
    have straight : (∀ target, t.entry? (place ++ [name]) ≠ some (.link target)) →
        t.walk maxLinks place [name] = .ok (place ++ [name]) :=
      walk_of_present formed maxLinks present
    split at member
    · cases member
    · rename_i content found
      rw [List.mem_singleton] at member
      exact ⟨[name], member, .file present (straight (by simp [found]))⟩
    · rename_i found
      obtain ⟨rest, rfl, reaches⟩ := ih member
      exact ⟨name :: rest, by simp, .into present (straight (by simp [found])) reaches⟩
    · split at member
      · cases member
      · rename_i target walked
        split at member
        · rw [List.mem_singleton] at member
          exact ⟨[name], member, .file present walked⟩
        · split at member
          · cases member
          · obtain ⟨rest, rfl, reaches⟩ := ih member
            exact ⟨name :: rest, by simp, .into present walked reaches⟩
        · cases member

theorem Reaches.names {t : Tree} (formed : t.WellFormed) {place rest : List String}
    (reaches : t.Reaches place rest) : rest ≠ [] ∧ ∀ n ∈ rest, IsName n := by
  induction reaches with
  | file present _ =>
    refine ⟨by simp, fun n member => formed.names _ present n ?_⟩
    exact List.mem_append_right _ member
  | into present _ _ ih =>
    refine ⟨by simp, ?_⟩
    rintro n (_ | ⟨_, later⟩)
    · exact formed.names _ present _ (by simp)
    · exact ih.2 n later

/-- From a directory on the way that is its own place, the next name leads on. -/
theorem Reaches.onward {t : Tree} (formed : t.WellFormed) {place before after : List String}
    {name : String} (reaches : t.Reaches place (before ++ name :: after))
    (dir : t.entry? (place ++ before) = some .dir) :
    ∃ target, t.walk maxLinks (place ++ before) [name] = .ok target := by
  induction before generalizing place with
  | nil =>
    rw [List.append_nil]
    cases reaches with
    | file _ walked => exact ⟨_, walked⟩
    | into _ walked _ => exact ⟨_, walked⟩
  | cons first others ih =>
    rw [List.append_cons] at dir ⊢
    rw [List.cons_append] at reaches
    have isDir := formed.dir_above dir
    have straight : t.walk maxLinks place [first] = .ok (place ++ [first]) :=
      walk_of_present formed maxLinks (by simp [isDir]) (by simp [isDir])
    cases h : others ++ name :: after with
    | nil => simp at h
    | cons second more =>
      rw [h] at reaches
      cases reaches with
      | into _ walked later =>
        rw [straight] at walked
        cases walked
        exact ih (h ▸ later) dir

/-- The parts of a path that discovery may find. -/
structure Found (t : Tree) (base rest place : List String) : Prop where
  pieces : ∀ n ∈ base, IsPiece n
  resolved : t.resolve base = .ok place
  reaches : t.Reaches place rest

theorem found_of_mem_discover {t : Tree} (formed : t.WellFormed) {root p : Path} {pattern : String}
    {found : List Path} (searched : t.discover root pattern = .ok found) (member : p ∈ found) :
    ∃ base rest place, p = .ofParts (base ++ rest) ∧ t.Found base rest place := by
  unfold discover at searched
  dsimp only at searched
  split at searched
  · cases searched
  · cases searched
    cases member
  · cases searched
    simp only [List.mem_map, List.mem_mergeSort, List.mem_filter] at member
    obtain ⟨parts, ⟨listed, _⟩, rfl⟩ := member
    unfold filesUnder at listed
    split at listed
    case isFalse => cases listed
    case isTrue =>
      split at listed
      · cases listed
      · rename_i place resolved
        split at listed
        · obtain ⟨rest, rfl, reaches⟩ := reaches_of_mem_filesBelow formed listed
          refine ⟨_, rest, place, rfl, fun n isPart => ?_, resolved, reaches⟩
          exact Path.isPiece_of_mem_parse (List.takeWhile_subset _ isPart)
        · cases listed

theorem Found.pieces_append {t : Tree} (formed : t.WellFormed) {base rest place : List String}
    (found : t.Found base rest place) : ∀ n ∈ base ++ rest, IsPiece n := by
  intro n member
  rcases List.mem_append.mp member with above | below
  · exact found.pieces n above
  · exact ((found.reaches.names formed).2 n below).isPiece

/-- Behind a directory without links, the next name of what is found leads somewhere. -/
theorem Found.onward {t : Tree} (formed : t.WellFormed) {base rest place above more : List String}
    {name : String} (found : t.Found base rest place) (split : base ++ rest = above ++ name :: more)
    (dir : t.entry? above = some .dir) : ∃ target, t.resolve (above ++ [name]) = .ok target := by
  rw [List.append_cons] at split
  rcases List.append_eq_append_iff.mp split with ⟨between, ahead, behind⟩ | ⟨between, behind, _⟩
  · rcases List.eq_nil_or_concat between with rfl | ⟨before, last, rfl⟩
    · rw [ahead, List.append_nil]
      exact ⟨place, found.resolved⟩
    · rw [List.concat_eq_append] at ahead behind
      rw [← List.append_assoc] at ahead
      obtain ⟨rfl, last⟩ := List.append_inj' ahead rfl
      cases last
      have isDir := formed.dir_above dir
      have straight : t.resolve base = .ok base :=
        formed.resolve (by simp [isDir]) (by simp [isDir])
      rw [found.resolved] at straight
      cases straight
      have reaches := found.reaches
      rw [behind, List.append_assoc] at reaches
      obtain ⟨target, walked⟩ := reaches.onward formed dir
      refine ⟨target, ?_⟩
      rw [resolve, formed.walk_into maxLinks (by simpa using dir)]
      exact walked
  · have resolved := found.resolved
    rw [behind] at resolved
    exact walk_start resolved

theorem Followed.isPlace {t : Tree} (formed : t.WellFormed) {parts found rest : List String}
    (followed : t.Followed parts found rest found)
    (onward : ∀ name more, parts = found ++ name :: more → t.entry? found = some .dir →
      ∃ target, t.resolve (found ++ [name]) = .ok target) : t.IsPlace parts := by
  obtain ⟨valid, unlinked⟩ := formed.isPlace_of_walk rfl followed.resolved
  have split := followed.split
  subst split
  refine ⟨List.forall_mem_append.mpr ⟨valid, followed.names⟩, ?_⟩
  intro above target start isLink
  rcases List.prefix_or_prefix_of_prefix start (List.prefix_append found rest) with higher | lower
  · exact unlinked above target higher isLink
  · obtain ⟨inner, rfl⟩ := lower
    cases inner with
    | nil =>
      rw [List.append_nil] at isLink
      exact unlinked found target (List.prefix_refl _) isLink
    | cons name others =>
      -- so the first name behind `found` leads somewhere, and `found` is not the longest part
      obtain ⟨more, joined⟩ := start
      rw [List.append_assoc, List.append_cancel_left_eq] at joined
      have dir : t.entry? found = some .dir :=
        formed.above (List.cons_ne_nil name others) (by simp [isLink])
      obtain ⟨e, failed⟩ := followed.stuck name (others ++ more) joined.symm
      obtain ⟨place, resolved⟩ := onward name (others ++ more) (by rw [← joined]; rfl) dir
      rw [failed] at resolved
      cases resolved

/-- A path that is found is its own normal form just if no link, nor a detour, is on its way. -/
theorem Found.normalize_eq_self_iff {t : Tree} (formed : t.WellFormed)
    {base rest place : List String} (found : t.Found base rest place) :
    t.normalize (.ofParts (base ++ rest)) = .ofParts (base ++ rest) ↔ t.IsPlace (base ++ rest) := by
  constructor
  · intro same
    obtain ⟨start, behind, there, followed, normal⟩ :=
      @normalize_followed t (.ofParts (base ++ rest)) rfl (found.pieces_append formed)
    have parts : base ++ rest = there ++ behind := congrArg Path.parts (same.symm.trans normal)
    have valid : ∀ n ∈ base ++ rest, IsName n := by
      rw [parts]
      exact List.forall_mem_append.mpr
        ⟨(formed.isPlace_of_walk rfl followed.resolved).1, followed.names⟩
    have cleaned : (Path.ofParts (base ++ rest)).clean.parts = base ++ rest :=
      congrArg Path.parts (@clean_of_names (.ofParts (base ++ rest)) valid)
    rw [cleaned] at followed
    have unmoved : start = there := List.append_cancel_right (followed.split.symm.trans parts)
    subst unmoved
    exact followed.isPlace formed fun name more split dir => found.onward formed split dir
  · exact fun isPlace => normalize_of_isPlace rfl isPlace

theorem normalize_eq_self_iff {t : Tree} (formed : t.WellFormed) {root p : Path} {pattern : String}
    {found : List Path} (searched : t.discover root pattern = .ok found) (member : p ∈ found) :
    t.normalize p = p ↔ t.IsPlace p.parts := by
  obtain ⟨base, rest, place, rfl, isFound⟩ := found_of_mem_discover formed searched member
  exact isFound.normalize_eq_self_iff formed

end Tree

end ModelAtlas.Files
