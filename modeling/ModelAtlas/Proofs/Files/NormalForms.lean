import ModelAtlas.Proofs.Files.Places

/-!
# Normal forms

Paths are cleaned before they are followed, so a detour in the spelling of a path never shows in its
normal form. The normal form is its own, unless the path could only not be followed further because
it had led through too many links: then the name it stopped at may lead on from where it stopped.
-/

namespace ModelAtlas.Files

/-! ### Cleaned paths -/

theorem Cleaned.shown {back : List String} (cleaned : Cleaned back) :
    ∀ n ∈ back, IsPiece n ∧ n ≠ "." := by
  induction cleaned with
  | ups count =>
    intro n member
    rw [List.eq_of_mem_replicate member]
    exact ⟨⟨by decide, by decide⟩, by decide⟩
  | name isName _ ih => exact List.forall_mem_cons.mpr ⟨⟨isName.isPiece, isName.notHere⟩, ih⟩

theorem foldl_cleanStep_ups (count : Nat) :
    (List.replicate count "..").foldl cleanStep [] = List.replicate count ".." := by
  induction count with
  | zero => rfl
  | succ count ih =>
    rw [List.replicate_succ', List.foldl_append, ih, ← List.replicate_succ']
    cases count with
    | zero => rfl
    | succ count => rfl

theorem clean_of_cleaned {p : Path} (cleaned : Cleaned p.parts.reverse) : p.clean = p := by
  have kept : ∀ back, Cleaned back → back.reverse.foldl cleanStep [] = back := by
    intro back cleaned
    induction cleaned with
    | ups count => rw [List.reverse_replicate, foldl_cleanStep_ups]
    | name isName _ ih =>
      rw [List.reverse_cons, List.foldl_append, ih]
      exact cleanStep_name isName _
  have parts := kept _ cleaned
  rw [List.reverse_reverse] at parts
  show (⟨p.absolute, (p.parts.foldl cleanStep []).reverse⟩ : Path) = p
  rw [parts, List.reverse_reverse]

/-- A relative path without `.` is read back from its text. -/
theorem Path.parse_text_of_relative {p : Path} (relative : p.absolute = false)
    (shown : ∀ n ∈ p.parts, IsPiece n ∧ n ≠ ".") : Path.parse p.text = p := by
  obtain ⟨absolute, parts⟩ := p
  cases relative
  cases parts with
  | nil => decide
  | cons first rest =>
    have chars : (Path.text ⟨false, first :: rest⟩).toList =
        ['/'].intercalate ((first :: rest).map String.toList) := by
      simp [Path.text]
    have noSlash : ∀ piece ∈ (first :: rest).map String.toList, '/' ∉ piece := by
      intro piece member
      obtain ⟨n, isPart, rfl⟩ := List.mem_map.mp member
      exact (shown n isPart).1.2
    have pieces : splitSlash (Path.text ⟨false, first :: rest⟩) = first :: rest := by
      unfold splitSlash
      rw [chars, List.splitOn_intercalate '/' noSlash (by simp)]
      simp [Function.comp_def]
    have starts : (Path.text ⟨false, first :: rest⟩).toList.head? ≠ some '/' := by
      obtain ⟨⟨nonempty, open_⟩, _⟩ := shown first List.mem_cons_self
      obtain ⟨c, others, letters⟩ : ∃ c others, first.toList = c :: others :=
        List.exists_cons_of_ne_nil (by simpa using nonempty)
      rw [chars, List.map_cons, letters]
      rw [letters, List.mem_cons, not_or] at open_
      cases rest with
      | nil => simpa using Ne.symm open_.1
      | cons second more => simpa [List.intercalate_cons_cons] using Ne.symm open_.1
    unfold Path.parse
    rw [pieces, beq_false_of_ne starts]
    obtain ⟨⟨nonempty, _⟩, _⟩ := shown first List.mem_cons_self
    have kept : rest.filter (fun n => !n.isEmpty && n != ".") = rest := by
      rw [List.filter_eq_self]
      intro n member
      obtain ⟨⟨present, _⟩, notHere⟩ := shown n (List.mem_cons_of_mem _ member)
      simp [present, notHere]
    simp [Path.ofPieces, nonempty, kept]

namespace Tree

/-! ### Links to spare -/

/-- A walk that does not run out of links does not change if there are more. -/
theorem walk_more_links {t : Tree} {links more : Nat} {here pieces : List String}
    (atLeast : links ≤ more) (enough : t.walk links here pieces ≠ .error .tooManyLinks) :
    t.walk more here pieces = t.walk links here pieces := by
  fun_induction walk t links here pieces generalizing more with
  | case1 links here => rw [walk]
  | case2 links here piece rest isHere ih =>
    rw [walk, if_pos isHere]
    exact ih atLeast enough
  | case3 links here piece rest notHere isAbove ih =>
    rw [walk, if_neg notHere, if_pos isAbove]
    exact ih atLeast enough
  | case4 links here piece rest notHere notAbove missing =>
    rw [walk, if_neg notHere, if_neg notAbove, missing]
  | case5 links here piece rest notHere notAbove found ih =>
    rw [walk, if_neg notHere, if_neg notAbove, found]
    exact ih atLeast enough
  | case6 links here piece rest notHere notAbove content found last =>
    rw [walk, if_neg notHere, if_neg notAbove, found]
    exact if_pos last
  | case7 links here piece rest notHere notAbove content found further =>
    rw [walk, if_neg notHere, if_neg notAbove, found]
    exact if_neg further
  | case8 => exact absurd rfl enough
  | case9 here piece rest notHere notAbove target found links start =>
    rename_i ih
    cases more with
    | zero => omega
    | succ more =>
      rw [walk, if_neg notHere, if_neg notAbove, found]
      exact ih (by omega) enough

/-- Where there is no link, none is needed. -/
theorem walk_without_links {t : Tree} {here : List String} {name : String}
    (noLink : ∀ target, t.entry? (here ++ [name]) ≠ some (.link target)) (links more : Nat) :
    t.walk more here [name] = t.walk links here [name] := by
  cases found : t.entry? (here ++ [name]) with
  | none => simp [walk, found]
  | some e =>
    cases e with
    | link target => exact absurd found (noLink target)
    | dir => simp [walk, found]
    | file content => simp [walk, found]

/-- Nothing lies below a file. -/
theorem WellFormed.walk_past_file {t : Tree} (formed : t.WellFormed) {links : Nat}
    {here place before : List String} {content : List UInt8} (dir : t.entry? here = some .dir)
    (walked : t.walk links here before = .ok place) (isFile : t.entry? place = some (.file content))
    {after : List String} (further : after ≠ []) :
    t.walk links here (before ++ after) = .error .notDirectory := by
  fun_induction walk t links here before with
  | case1 links here =>
    cases walked
    rw [dir] at isFile
    cases isFile
  | case2 links here piece rest isHere ih =>
    rw [List.cons_append, walk, if_pos isHere]
    exact ih dir walked
  | case3 links here piece rest notHere isAbove ih =>
    rw [List.cons_append, walk, if_neg notHere, if_pos isAbove]
    exact ih (formed.dir_dropLast dir) walked
  | case4 => cases walked
  | case5 links here piece rest notHere notAbove found ih =>
    rw [List.cons_append, walk, if_neg notHere, if_neg notAbove, found]
    exact ih found walked
  | case6 links here piece rest notHere notAbove content found last =>
    rw [List.cons_append, walk, if_neg notHere, if_neg notAbove, found]
    exact if_neg (by simp [further])
  | case7 => cases walked
  | case8 => cases walked
  | case9 here piece rest notHere notAbove target found links start ih =>
    rw [List.cons_append, walk, if_neg notHere, if_neg notAbove, found]
    dsimp only
    rw [← List.append_assoc]
    refine ih ?_ walked
    unfold start
    split
    · rfl
    · exact dir

/-- Whatever leads on from a place leads on from a directory. -/
theorem WellFormed.dir_of_walk {t : Tree} (formed : t.WellFormed) {links : Nat}
    {here place target before after : List String} (dir : t.entry? here = some .dir)
    (walked : t.walk links here before = .ok place)
    (onward : t.walk links here (before ++ after) = .ok target) (further : after ≠ []) :
    t.entry? place = some .dir := by
  obtain isDir | ⟨content, isFile⟩ := formed.entry?_walk dir walked
  · exact isDir
  · rw [formed.walk_past_file dir walked isFile further] at onward
    cases onward

/-- A place leads to itself, whatever the path it was found by. -/
theorem WellFormed.resolve_place {t : Tree} (formed : t.WellFormed) {found place : List String}
    (resolved : t.resolve found = .ok place) : t.resolve place = .ok place := by
  obtain dir | ⟨content, isFile⟩ := formed.entry?_walk rfl resolved
  · exact formed.resolve (by simp [dir]) (by simp [dir])
  · exact formed.resolve (by simp [isFile]) (by simp [isFile])

/-! ### The longest part that leads somewhere -/

theorem prefix_of_stuck {t : Tree} {start more other place : List String} {name : String}
    {e : AccessError} (stuck : t.resolve (start ++ [name]) = .error e)
    (part : other <+: start ++ name :: more) (resolved : t.resolve other = .ok place) :
    other <+: start := by
  rcases List.prefix_or_prefix_of_prefix part (List.prefix_append start (name :: more)) with
    shorter | ⟨between, rfl⟩
  · exact shorter
  · cases between with
    | nil => simp
    | cons next others =>
      obtain ⟨behind, joined⟩ := part
      rw [List.append_assoc, List.append_cancel_left_eq] at joined
      cases joined
      rw [List.append_cons] at resolved
      obtain ⟨there, walked⟩ := walk_start resolved
      rw [← resolve, stuck] at walked
      cases walked

theorem Followed.longest {t : Tree} {parts found rest place : List String}
    (followed : t.Followed parts found rest place) {other there : List String}
    (part : other <+: parts) (resolved : t.resolve other = .ok there) : other <+: found := by
  rw [followed.split] at part
  cases rest with
  | nil => simpa using part
  | cons name more =>
    obtain ⟨e, stuck⟩ := followed.stuck name more rfl
    exact prefix_of_stuck stuck part resolved

theorem Followed.normalize {t : Tree} {p : Path} (absolute : p.absolute = true)
    (pieces : ∀ n ∈ p.parts, IsPiece n) {found rest place : List String}
    (followed : t.Followed p.clean.parts found rest place) :
    t.normalize p = .ofParts (place ++ rest) := by
  obtain ⟨further, behind, there, again, normal⟩ := t.normalize_followed absolute pieces
  have shorter : found <+: further := again.longest ⟨rest, followed.split.symm⟩ followed.resolved
  have longer : further <+: found := followed.longest ⟨behind, again.split.symm⟩ again.resolved
  obtain rfl := shorter.eq_of_length (Nat.le_antisymm shorter.length_le longer.length_le)
  obtain rfl := Except.ok.inj (followed.resolved.symm.trans again.resolved)
  rw [normal, List.append_cancel_left (followed.split.symm.trans again.split)]

/-! ### Normal forms of normal forms -/

theorem parts_normalize {t : Tree} (formed : t.WellFormed) {parts found rest place : List String}
    (followed : t.Followed parts found rest place) : ∀ n ∈ place ++ rest, IsName n :=
  List.forall_mem_append.mpr ⟨(formed.isPlace_of_walk rfl followed.resolved).1, followed.names⟩

theorem normalize_of_relative (t : Tree) {p : Path} (relative : p.absolute = false) :
    t.normalize p = p.clean := by
  have still : p.clean.absolute = false := relative
  unfold normalize
  dsimp only
  rw [if_neg (by simp [still])]

/-- The normal form of a path is read back from its text. -/
theorem parse_text_normalize {t : Tree} (formed : t.WellFormed) {p : Path}
    (pieces : ∀ n ∈ p.parts, IsPiece n) : Path.parse (t.normalize p).text = t.normalize p := by
  cases absolute : p.absolute with
  | true =>
    obtain ⟨found, rest, place, followed, normal⟩ := t.normalize_followed absolute pieces
    rw [normal, Path.parse_text_of_names (parts_normalize formed followed)]
  | false =>
    rw [t.normalize_of_relative absolute]
    refine Path.parse_text_of_relative absolute ?_
    intro n member
    exact (cleaned_parts pieces).shown n (List.mem_reverse.mpr member)

/-- A text that is joined to a relative one is relative. -/
theorem head?_joinText {base extra : String} (relative : base.toList.head? ≠ some '/')
    (behind : extra.toList.head? ≠ some '/') : (joinText base extra).toList.head? ≠ some '/' := by
  unfold joinText
  rw [if_neg (by simpa using behind)]
  cases chars : base.toList with
  | nil =>
    have empty : base = "" := String.toList_eq_nil_iff.mp chars
    subst empty
    simpa using behind
  | cons c rest =>
    rw [chars] at relative
    split <;> simpa [chars] using relative

/-- A relative root is normalized to no place, and nothing is found below it. -/
theorem discover_of_relative {t : Tree} (formed : t.WellFormed) {text pattern : String}
    (relative : (Path.parse text).absolute = false) (behind : pattern.toList.head? ≠ some '/')
    {found : List Path} (searched : t.discover (.parse text) pattern = .ok found) : found = [] := by
  have normal := t.normalize_of_relative relative
  have read := parse_text_normalize formed fun n => @Path.isPiece_of_mem_parse text n
  have starts : (t.normalize (.parse text)).text.toList.head? ≠ some '/' := by
    have same := congrArg Path.absolute read
    rw [normal] at same ⊢
    exact beq_eq_false_iff_ne.mp (same.trans relative)
  have nowhere : t.filesUnder
      (Search.ofText (joinText (t.normalize (.parse text)).text pattern)).base = [] := by
    refine if_neg fun absolute => ?_
    exact head?_joinText starts behind (eq_of_beq absolute)
  unfold discover at searched
  dsimp only at searched
  rw [nowhere] at searched
  split at searched
  · cases searched
  · exact (Except.ok.inj searched).symm
  · rw [← Except.ok.inj searched, List.filter_nil, List.mergeSort_nil]
    rfl

theorem text_normalize_inj {t u : Tree} (formed : t.WellFormed) (alsoFormed : u.WellFormed) {p q : Path}
    (pieces : ∀ n ∈ p.parts, IsPiece n) (alsoPieces : ∀ n ∈ q.parts, IsPiece n) :
    (t.normalize p).text = (u.normalize q).text ↔ t.normalize p = u.normalize q := by
  constructor
  · intro same
    have read := congrArg Path.parse same
    rwa [parse_text_normalize formed pieces, parse_text_normalize alsoFormed alsoPieces] at read
  · exact congrArg Path.text

/-- Following a path stops at a name because it has led through too many links, while the name leads
somewhere from the place where the path stops. -/
def ExceedsLinks (t : Tree) (p : Path) : Prop :=
  p.absolute = true ∧ ∃ found name more place target, p.clean.parts = found ++ name :: more ∧
    t.resolve found = .ok place ∧ t.resolve (found ++ [name]) = .error .tooManyLinks ∧
    t.resolve (place ++ [name]) = .ok target

section Stops

variable {t : Tree} {found place target : List String} {name : String}

/-- From the place where a path stops, the next name is looked up as it was on the path, but with all
links to spare. -/
theorem WellFormed.walk_from_stop (formed : t.WellFormed) (resolved : t.resolve found = .ok place)
    (onward : t.resolve (place ++ [name]) = .ok target) :
    t.walk maxLinks place [name] = .ok target ∧
      ∃ left ≤ maxLinks, t.resolve (found ++ [name]) = t.walk left place [name] := by
  have dir := formed.dir_of_walk rfl (formed.resolve_place resolved) onward (by simp)
  refine ⟨?_, walk_append resolved dir [name]⟩
  rw [Tree.resolve, formed.walk_into maxLinks (by simpa using dir), List.nil_append] at onward
  exact onward

theorem WellFormed.stop_exceeds (formed : t.WellFormed) (resolved : t.resolve found = .ok place)
    (onward : t.resolve (place ++ [name]) = .ok target) {e : AccessError}
    (stuck : t.resolve (found ++ [name]) = .error e) :
    t.resolve (found ++ [name]) = .error .tooManyLinks := by
  obtain ⟨spare, left, fewer, same⟩ := formed.walk_from_stop resolved onward
  rw [same] at stuck ⊢
  by_cases enough : t.walk left place [name] = .error .tooManyLinks
  · exact enough
  · rw [walk_more_links fewer enough, stuck] at spare
    cases spare

theorem WellFormed.stops_at_link (formed : t.WellFormed) (resolved : t.resolve found = .ok place)
    (onward : t.resolve (place ++ [name]) = .ok target) {e : AccessError}
    (stuck : t.resolve (found ++ [name]) = .error e) :
    ∃ text, t.entry? (place ++ [name]) = some (.link text) := by
  obtain ⟨spare, left, _, same⟩ := formed.walk_from_stop resolved onward
  by_cases link : ∃ text, t.entry? (place ++ [name]) = some (.link text)
  · exact link
  · rw [same, walk_without_links (not_exists.mp link) maxLinks left, spare] at stuck
    cases stuck

end Stops

/-- A normal form is its own just if its path did not exceed the number of links. -/
theorem normalize_normalize_iff {t : Tree} (formed : t.WellFormed) {p : Path}
    (absolute : p.absolute = true) (pieces : ∀ n ∈ p.parts, IsPiece n) :
    t.normalize (t.normalize p) = t.normalize p ↔ ¬ t.ExceedsLinks p := by
  obtain ⟨found, rest, place, followed, normal⟩ := t.normalize_followed absolute pieces
  have names := parts_normalize formed followed
  have parts : (Path.ofParts (place ++ rest)).clean.parts = place ++ rest :=
    congrArg Path.parts (@clean_of_names (.ofParts (place ++ rest)) names)
  have piecesAgain : ∀ n ∈ (Path.ofParts (place ++ rest)).parts, IsPiece n :=
    fun n member => (names n member).isPiece
  rw [normal]
  constructor
  · rintro same ⟨_, start, name, more, stop, target, split, resolved, stuck, onward⟩
    -- the path stopped where it is said to exceed the links
    have shorter : start <+: found :=
      followed.longest (split ▸ List.prefix_append start (name :: more)) resolved
    have longer : found <+: start :=
      prefix_of_stuck stuck (split ▸ followed.split ▸ List.prefix_append found rest) followed.resolved
    obtain rfl := shorter.eq_of_length (Nat.le_antisymm shorter.length_le longer.length_le)
    obtain rfl := Except.ok.inj (resolved.symm.trans followed.resolved)
    obtain rfl := List.append_cancel_left (followed.split.symm.trans split)
    -- so the normal form goes on through a link, and none is left in what it leads to
    obtain ⟨text, isLink⟩ := formed.stops_at_link resolved onward stuck
    obtain ⟨further, behind, there, again, normalAgain⟩ := t.normalize_followed rfl piecesAgain
    rw [parts] at again
    have unmoved : further = there := by
      have joined := congrArg Path.parts (same.symm.trans normalAgain)
      exact List.append_cancel_right (again.split.symm.trans joined)
    have through : stop ++ [name] <+: further := again.longest (by simp) onward
    exact (formed.isPlace_of_walk rfl again.resolved).2 _ text (unmoved ▸ through) isLink
  · intro within
    have again : t.Followed (place ++ rest) place rest place := by
      refine ⟨rfl, followed.names, formed.resolve_place followed.resolved, ?_⟩
      intro name more behind
      obtain ⟨e, stuck⟩ := followed.stuck name more behind
      cases next : t.resolve (place ++ [name]) with
      | error e => exact ⟨e, rfl⟩
      | ok target =>
        have exceeds := formed.stop_exceeds followed.resolved next stuck
        exact absurd ⟨absolute, found, name, more, place, target, behind ▸ followed.split,
          followed.resolved, exceeds, next⟩ within
    rw [← parts] at again
    exact again.normalize rfl piecesAgain

theorem key_key_iff {t : Tree} (formed : t.WellFormed) (text : String) :
    t.key (t.key text) = t.key text ↔ ¬ t.ExceedsLinks (.parse text) := by
  have pieces : ∀ n ∈ (Path.parse text).parts, IsPiece n := fun n => Path.isPiece_of_mem_parse
  have read := parse_text_normalize formed pieces
  have piecesAgain : ∀ n ∈ (t.normalize (.parse text)).parts, IsPiece n := by
    rw [← read]
    exact fun n => Path.isPiece_of_mem_parse
  unfold key
  rw [read, text_normalize_inj formed formed piecesAgain pieces]
  cases absolute : (Path.parse text).absolute with
  | true => exact normalize_normalize_iff formed absolute pieces
  | false =>
    have relative : (Path.parse text).clean.absolute = false := absolute
    rw [t.normalize_of_relative absolute, t.normalize_of_relative relative,
      clean_of_cleaned (cleaned_parts pieces)]
    simp [ExceedsLinks, absolute]

/-! ### Detours in the spelling -/

/-- A detour that comes back to where it started: nowhere, or to some name, stored or not. -/
inductive Aside : List String → Prop where
  | stay : Aside ["."]
  | back {name : String} : IsName name → Aside [name, ".."]

theorem Aside.noSlash {aside : List String} (isAside : Aside aside) : ∀ p ∈ aside, '/' ∉ p.toList := by
  cases isAside with
  | stay => decide
  | back isName => exact List.forall_mem_cons.mpr ⟨isName.noSlash, by decide⟩

theorem Aside.clean {aside : List String} (isAside : Aside aside) (before after : List String) :
    (Path.ofParts ((before ++ aside ++ after).filter fun p => !p.isEmpty && p != ".")).clean =
      (Path.ofParts ((before ++ after).filter fun p => !p.isEmpty && p != ".")).clean := by
  have skipped : ∀ out, (aside.filter fun p => !p.isEmpty && p != ".").foldl cleanStep out = out := by
    intro out
    cases isAside with
    | stay => rfl
    | @back name isName =>
      have kept : [name, ".."].filter (fun p => !p.isEmpty && p != ".") = [name, ".."] := by
        simp [isName.nonempty, isName.notHere]
      rw [kept, List.foldl_cons, List.foldl_cons, cleanStep_name isName, cleanStep_back isName,
        List.foldl_nil]
  have clean (parts : List String) :
      (Path.ofParts parts).clean = .ofParts (parts.foldl cleanStep []).reverse := rfl
  rw [clean, clean, List.filter_append, List.filter_append, List.filter_append, List.foldl_append,
    List.foldl_append, List.foldl_append, skipped]

/-- An absolute text starts with an empty piece, and all that counts of it are the pieces behind. -/
theorem parse_of_splitSlash {text : String} (absolute : (Path.parse text).absolute = true) :
    ∃ pieces, splitSlash text = "" :: pieces ∧
      Path.parse text = .ofParts (pieces.filter fun p => !p.isEmpty && p != ".") := by
  have starts : text.toList.head? = some '/' := beq_iff_eq.mp absolute
  obtain ⟨rest, chars⟩ : ∃ rest, text.toList = '/' :: rest := by
    cases letters : text.toList with
    | nil =>
      rw [letters] at starts
      cases starts
    | cons c rest =>
      rw [letters] at starts
      cases starts
      exact ⟨rest, rfl⟩
  refine ⟨(rest.splitOn '/').map String.ofList, ?_, ?_⟩
  · unfold splitSlash
    rw [chars, ← List.nil_append ('/' :: rest), List.splitOn_append_cons_self]
    rfl
  · unfold Path.parse splitSlash
    rw [chars, ← List.nil_append ('/' :: rest), List.splitOn_append_cons_self]
    rfl

theorem key_aside (t : Tree) {text : String} (absolute : (Path.parse text).absolute = true)
    {before after aside : List String} (cut : splitSlash text = before ++ after) (proper : before ≠ [])
    (isAside : Aside aside) :
    t.key (String.intercalate "/" (before ++ aside ++ after)) = t.key text := by
  obtain ⟨pieces, split, read⟩ := parse_of_splitSlash absolute
  obtain ⟨first, front, rfl⟩ := List.exists_cons_of_ne_nil proper
  rw [split, List.cons_append] at cut
  cases cut
  have noSlash : ∀ p ∈ front ++ aside ++ after, '/' ∉ p.toList := by
    intro p member
    have ours : p ∈ front ++ after → '/' ∉ p.toList := by
      intro inText
      obtain ⟨piece, isPiece, rfl⟩ := List.mem_map.mp (split ▸ List.mem_cons_of_mem "" inText)
      rw [String.toList_ofList]
      exact not_mem_of_mem_splitOn isPiece
    rcases List.mem_append.mp member with early | late
    · rcases List.mem_append.mp early with first | within
      · exact ours (List.mem_append_left _ first)
      · exact isAside.noSlash p within
    · exact ours (List.mem_append_right _ late)
  have spelled : String.intercalate "/" ("" :: front ++ aside ++ after) =
      (Path.ofParts (front ++ aside ++ after)).text := by
    have more : front ++ aside ++ after ≠ [] := by cases isAside <;> simp
    obtain ⟨next, others, shown⟩ := List.exists_cons_of_ne_nil more
    rw [List.cons_append, List.cons_append, shown]
    simp [Path.text, Path.ofParts, String.intercalate_cons_cons]
  unfold key normalize
  rw [spelled, Path.parse_text noSlash, read]
  dsimp only
  rw [isAside.clean front after]

/-- The key of a text is its own key, unless following the text exceeds the number of links; and it
does not depend on detours that come back, wherever they stand behind the root. -/
theorem key_is_normal_and_blind_to_asides {t : Tree} (formed : t.WellFormed) (text : String) :
    (t.key (t.key text) = t.key text ↔ ¬ t.ExceedsLinks (.parse text)) ∧
    ((Path.parse text).absolute = true → ∀ before after aside, splitSlash text = before ++ after →
      before ≠ [] → Aside aside →
        t.key (String.intercalate "/" (before ++ aside ++ after)) = t.key text) :=
  ⟨key_key_iff formed text, fun absolute _ _ _ cut proper isAside =>
    t.key_aside absolute cut proper isAside⟩

/-! ### Too many links -/

/-- Every link leads twice through the one before it, `e` to `i`, and all of them to the directory,
in which `k` leads back out. -/
def spiral : Tree :=
  (∅ : Tree).insert ["d"] .dir |>.insert ["e"] (.link "d") |>.insert ["f"] (.link "e/../e")
    |>.insert ["g"] (.link "f/../f") |>.insert ["h"] (.link "g/../g") |>.insert ["i"] (.link "h/../h")
    |>.insert ["d", "k"] (.link "../h")

theorem spiral_contents :
    spiral.WellFormed ∧ spiral.entry? ["d"] = some .dir ∧ spiral.entry? ["e"] = some (.link "d") ∧
    spiral.entry? ["f"] = some (.link "e/../e") ∧ spiral.entry? ["g"] = some (.link "f/../f") ∧
    spiral.entry? ["h"] = some (.link "g/../g") ∧ spiral.entry? ["i"] = some (.link "h/../h") ∧
    spiral.entry? ["d", "k"] = some (.link "../h") := by
  decide

/-- At the root, a name leads to the directory and takes a number of links for it. -/
def Takes (count : Nat) (name : String) : Prop :=
  ∀ links rest, spiral.walk (links + count) [] (name :: rest) = spiral.walk links ["d"] rest

theorem takes_twice {count : Nat} {name target inner : String} (takes : Takes count inner)
    (isName : IsName name) (isLink : spiral.entry? [name] = some (.link target))
    (pieces : walkPieces target = [inner, "..", inner]) : Takes (count + count + 1) name := by
  intro links rest
  rw [← Nat.add_assoc, walk_link isName isLink, ite_self, pieces, ← Nat.add_assoc]
  show spiral.walk (links + count + count) [] (inner :: ".." :: inner :: rest) = _
  rw [takes, walk_back, List.dropLast_singleton, takes]

theorem spiral_takes : Takes 7 "g" ∧ Takes 15 "h" ∧ Takes 31 "i" := by
  obtain ⟨_, dir, e, f, g, h, i, _⟩ := spiral_contents
  have takesE : Takes 1 "e" := by
    intro links rest
    rw [walk_link (by decide) e, ite_self, show walkPieces "d" = ["d"] by decide]
    exact walk_dir (by decide) dir links rest
  have takesF : Takes 3 "f" := takes_twice takesE (by decide) f (by decide)
  have takesG : Takes 7 "g" := takes_twice takesF (by decide) g (by decide)
  have takesH : Takes 15 "h" := takes_twice takesG (by decide) h (by decide)
  exact ⟨takesG, takesH, takes_twice takesH (by decide) i (by decide)⟩

theorem spiral_out (links : Nat) (rest : List String) :
    spiral.walk (links + 1) ["d"] ("k" :: rest) = spiral.walk links [] ("h" :: rest) := by
  obtain ⟨_, _, _, _, _, _, _, k⟩ := spiral_contents
  rw [walk_link (by decide) k, if_neg (by decide), show walkPieces "../h" = ["..", "h"] by decide]
  exact walk_back _ _ _ _

theorem spiral_resolve :
    spiral.resolve ["h", "k"] = .ok ["d"] ∧ spiral.resolve ["d", "k"] = .ok ["d"] ∧
    spiral.resolve ["i"] = .ok ["d"] ∧ spiral.resolve ["i", "k"] = .error .tooManyLinks := by
  obtain ⟨_, dir, _, _, g, h, _, _⟩ := spiral_contents
  obtain ⟨takesG, takesH, takesI⟩ := spiral_takes
  refine ⟨?_, ?_, ?_, ?_⟩
  · rw [resolve, show maxLinks = 9 + 1 + 15 + 15 from rfl, takesH, spiral_out, takesH, walk]
  · rw [resolve, show maxLinks = 24 + 15 + 1 from rfl, walk_dir (by decide) dir, List.nil_append,
      spiral_out, takesH, walk]
  · rw [resolve, show maxLinks = 9 + 31 from rfl, takesI, walk]
  · rw [resolve, show maxLinks = 0 + 7 + 1 + 1 + 31 from rfl, takesI, spiral_out,
      walk_link (by decide) h, ite_self, show walkPieces "g/../g" = ["g", "..", "g"] by decide]
    show spiral.walk (0 + 7) [] ["g", "..", "g"] = _
    rw [takesG, walk_back, List.dropLast_singleton, walk, if_neg (by decide), if_neg (by decide)]
    rw [List.nil_append, g]

theorem spiral_within : ¬ spiral.ExceedsLinks (.parse "/h/k") := by
  rintro ⟨_, found, name, more, place, target, split, _, stuck, _⟩
  have whole : spiral.resolve (found ++ name :: more) = .ok ["d"] := by
    rw [← split]
    exact spiral_resolve.1
  rw [List.append_cons] at whole
  obtain ⟨there, walked⟩ := walk_start whole
  rw [← resolve, stuck] at walked
  cases walked

theorem spiral_keys :
    spiral.WellFormed ∧ spiral.key (spiral.key "/h/k") = spiral.key "/h/k" ∧
      spiral.key "/h/gone/../k" = spiral.key "/h/k" := by
  obtain ⟨formed, _⟩ := spiral_contents
  obtain ⟨normal, blind⟩ := key_is_normal_and_blind_to_asides formed "/h/k"
  exact ⟨formed, normal.mpr spiral_within,
    blind (by decide) ["", "h"] ["k"] ["gone", ".."] (by decide) (by decide) (.back (by decide))⟩

/-- The normal form of `/i/k` leads further. -/
theorem spiral_key_not_normal :
    spiral.WellFormed ∧ spiral.key (spiral.key "/i/k") ≠ spiral.key "/i/k" := by
  obtain ⟨_, inside, above, exceeded⟩ := spiral_resolve
  have outside : spiral.follow ["k", "i"] [] = some ["d", "k"] :=
    (@follow_of_error spiral "k" ["i"] _ exceeded (by decide) []).trans
      (@follow_of_ok spiral ["i"] _ above ["k"])
  have first : spiral.key "/i/k" = "/d/k" := by
    rw [key, normalize_of_follow (by decide) outside]
    decide
  have second : spiral.key "/d/k" = "/d" := by
    rw [key, normalize_of_follow (by decide) (@follow_of_ok spiral ["k", "d"] _ inside [])]
    decide
  refine ⟨spiral_contents.1, ?_⟩
  rw [first, second]
  decide

end Tree

end ModelAtlas.Files
