import ModelAtlas.Proofs.Files.Edits
import ModelAtlas.Proofs.Files.NormalForms

/-!
# Keys of deleted files

While a file is there, the whole path to it is followed; once it is gone, only the path to its
directory is, and its name is put behind. Both give the same key, unless the last name of the path
was a link to the file.
-/

namespace ModelAtlas.Files

namespace Tree

/-- A file is gone, and everything else is as before. -/
structure Deleted (t u : Tree) (place : List String) : Prop where
  isFile : ∃ content, t.entry? place = some (.file content)
  entries : ∀ key, u.entry? key = if key = place then none else t.entry? key

theorem deleted_delete {t : Tree} (formed : t.WellFormed) {place : List String} {content : List UInt8}
    (isFile : t.entry? place = some (.file content)) :
    t.Deleted (t.delete (.ofParts place)).2 place := by
  have proper : place ≠ [] := by
    rintro rfl
    cases isFile
  rw [delete_of_present formed proper (by simp [isFile])]
  exact ⟨⟨content, isFile⟩, entry?_filter formed proper (by simp [isFile])⟩

/-- The last of some parts is a link in the directory that the parts before it lead to. -/
def EndsInLink (t : Tree) (parts : List String) : Prop :=
  ∃ above name here target, parts = above ++ [name] ∧ t.resolve above = .ok here ∧
    t.entry? (here ++ [name]) = some (.link target)

theorem WellFormed.eq_of_resolve_file {t : Tree} (formed : t.WellFormed)
    {start parts place there : List String} {content : List UInt8}
    (isFile : t.entry? place = some (.file content)) (part : start <+: parts)
    (leads : t.resolve start = .ok place) (resolved : t.resolve parts = .ok there) : start = parts := by
  obtain ⟨more, rfl⟩ := part
  by_cases last : more = []
  · rw [last, List.append_nil]
  · rw [Tree.resolve, formed.walk_past_file rfl leads isFile last] at resolved
    cases resolved

/-- A path to a file ends with the name of the file, or with a link. -/
theorem WellFormed.last_of_resolve_file {t : Tree} (formed : t.WellFormed)
    {above place : List String} {name : String} {content : List UInt8}
    (isFile : t.entry? place = some (.file content))
    (resolved : t.resolve (above ++ [name]) = .ok place) :
    ∃ here, t.resolve above = .ok here ∧ t.entry? here = some .dir ∧ IsName name ∧
      (place = here ++ [name] ∨ ∃ target, t.entry? (here ++ [name]) = some (.link target)) := by
  obtain ⟨here, walked⟩ := walk_start resolved
  have dir := formed.dir_of_walk rfl walked resolved (by simp)
  obtain ⟨left, _, same⟩ := walk_append walked dir [name]
  have named : t.entry? (here ++ [name]) ≠ none → IsName name :=
    fun present => formed.names _ present name (by simp)
  refine ⟨here, walked, dir, ?_⟩
  rw [Tree.resolve, same, walk] at resolved
  split at resolved
  · rw [walk] at resolved
    cases resolved
    rw [dir] at isFile
    cases isFile
  · split at resolved
    · rw [walk] at resolved
      cases resolved
      rw [formed.dir_dropLast dir] at isFile
      cases isFile
    · split at resolved
      · cases resolved
      · rename_i found
        rw [walk] at resolved
        cases resolved
        rw [found] at isFile
        cases isFile
      · rename_i content found
        rw [if_pos List.isEmpty_nil] at resolved
        exact ⟨named (by simp [found]), .inl (Except.ok.inj resolved).symm⟩
      · rename_i target found
        exact ⟨named (by simp [found]), .inr ⟨target, found⟩⟩

section Deleted

variable {t u : Tree} {place : List String}

theorem Deleted.kept (deleted : t.Deleted u place) {key : List String}
    (noFile : ∀ content, t.entry? key ≠ some (.file content)) : u.entry? key = t.entry? key := by
  rw [deleted.entries, if_neg]
  rintro rfl
  obtain ⟨content, isFile⟩ := deleted.isFile
  exact noFile content isFile

theorem Deleted.ne_place (deleted : t.Deleted u place) {here : List String}
    (dir : t.entry? here = some .dir) : here ≠ place := by
  rintro rfl
  obtain ⟨content, isFile⟩ := deleted.isFile
  rw [dir] at isFile
  cases isFile

theorem Deleted.wellFormed (deleted : t.Deleted u place) (formed : t.WellFormed) : u.WellFormed := by
  obtain ⟨content, isFile⟩ := deleted.isFile
  exact (edited_remove formed (by simp [isFile]) (by simp [isFile]) deleted.entries).2

/-- A walk leads where it led before, unless that was the file. -/
theorem Deleted.walk_iff (deleted : t.Deleted u place) (formed : t.WellFormed) {links : Nat}
    {here target pieces : List String} (dir : t.entry? here = some .dir) :
    u.walk links here pieces = .ok target ↔ t.walk links here pieces = .ok target ∧ target ≠ place := by
  fun_induction Tree.walk t links here pieces with
  | case1 links here =>
    rw [Tree.walk]
    constructor
    · rintro same
      cases same
      exact ⟨rfl, deleted.ne_place dir⟩
    · exact And.left
  | case2 links here piece rest isHere ih =>
    rw [Tree.walk, if_pos isHere]
    exact ih dir
  | case3 links here piece rest notHere isAbove ih =>
    rw [Tree.walk, if_neg notHere, if_pos isAbove]
    exact ih (formed.dir_dropLast dir)
  | case4 links here piece rest notHere notAbove missing =>
    rw [Tree.walk, if_neg notHere, if_neg notAbove, deleted.kept (by simp [missing]), missing]
    simp
  | case5 links here piece rest notHere notAbove found ih =>
    rw [Tree.walk, if_neg notHere, if_neg notAbove, deleted.kept (by simp [found]), found]
    exact ih found
  | case6 links here piece rest notHere notAbove content found last =>
    rw [Tree.walk, if_neg notHere, if_neg notAbove, deleted.entries]
    by_cases same : here ++ [piece] = place
    · simp only [if_pos same]
      simp [same, eq_comm]
    · simp only [if_neg same, found, if_pos last]
      constructor
      · intro arrived
        exact ⟨arrived, Except.ok.inj arrived ▸ same⟩
      · exact And.left
  | case7 links here piece rest notHere notAbove content found further =>
    rw [Tree.walk, if_neg notHere, if_neg notAbove, deleted.entries, found]
    by_cases same : here ++ [piece] = place
    · simp [same]
    · simp [same, further]
  | case8 here piece rest notHere notAbove target found =>
    rw [Tree.walk, if_neg notHere, if_neg notAbove, deleted.kept (by simp [found]), found]
    simp
  | case9 here piece rest notHere notAbove target found links start ih =>
    rw [Tree.walk, if_neg notHere, if_neg notAbove, deleted.kept (by simp [found]), found]
    apply ih
    unfold start
    split
    · rfl
    · exact dir

theorem Deleted.resolve_error (deleted : t.Deleted u place) (formed : t.WellFormed)
    {parts : List String} (lost : ∀ target, t.resolve parts = .ok target → target = place) :
    ∃ e, u.resolve parts = .error e := by
  cases resolved : u.resolve parts with
  | error e => exact ⟨e, rfl⟩
  | ok target =>
    obtain ⟨before, other⟩ := (deleted.walk_iff formed rfl).mp resolved
    exact absurd (lost target before) other

/-- The normal form of a path changes just if the path leads to the file through a link at the end
of the part that does. -/
theorem Deleted.normalize_iff (deleted : t.Deleted u place) (formed : t.WellFormed) {p : Path}
    (absolute : p.absolute = true) (pieces : ∀ n ∈ p.parts, IsPiece n) :
    u.normalize p = t.normalize p ↔
      ¬ ∃ found, found <+: p.clean.parts ∧ t.resolve found = .ok place ∧ t.EndsInLink found := by
  obtain ⟨found, rest, there, followed, normal⟩ := t.normalize_followed absolute pieces
  obtain ⟨content, isFile⟩ := deleted.isFile
  have whole {start : List String} (part : start <+: p.clean.parts)
      (leads : t.resolve start = .ok place) : start = found :=
    formed.eq_of_resolve_file isFile (followed.longest part leads) leads followed.resolved
  by_cases same : there = place
  · subst same
    obtain rfl | ⟨above, name, rfl⟩ := List.eq_nil_or_concat found
    · have top := t.resolve_nil.symm.trans followed.resolved
      cases top
      cases isFile
    · rw [List.concat_eq_append] at followed whole
      obtain ⟨here, resolved, dir, isName, last⟩ := formed.last_of_resolve_file isFile followed.resolved
      have after : u.Followed p.clean.parts above (name :: rest) here := by
        refine ⟨?_, List.forall_mem_cons.mpr ⟨isName, followed.names⟩,
          (deleted.walk_iff formed rfl).mpr ⟨resolved, deleted.ne_place dir⟩, ?_⟩
        · rw [followed.split, ← List.append_cons]
        · rintro _ _ ⟨⟩
          refine deleted.resolve_error formed fun target leads => ?_
          exact (Except.ok.inj (followed.resolved.symm.trans leads)).symm
      rw [after.normalize absolute pieces, normal]
      constructor
      · rintro joined ⟨start, part, leads, above', name', here', target, split, resolved', isLink⟩
        obtain ⟨rfl, name_eq⟩ := List.append_inj' (split.symm.trans (whole part leads)) rfl
        cases name_eq
        cases Except.ok.inj (resolved.symm.trans resolved')
        have straight := congrArg Path.parts joined
        rw [Path.ofParts, Path.ofParts, List.append_cons] at straight
        rw [List.append_cancel_right straight, isFile] at isLink
        cases isLink
      · intro noLink
        rcases last with straight | ⟨target, isLink⟩
        · rw [straight, ← List.append_cons]
        · exact absurd ⟨above ++ [name], ⟨rest, followed.split.symm⟩, followed.resolved, above, name,
            here, target, rfl, resolved, isLink⟩ noLink
  · have after : u.Followed p.clean.parts found rest there := by
      refine ⟨followed.split, followed.names,
        (deleted.walk_iff formed rfl).mpr ⟨followed.resolved, same⟩, ?_⟩
      intro name more behind
      obtain ⟨e, stuck⟩ := followed.stuck name more behind
      refine deleted.resolve_error formed fun target leads => ?_
      rw [stuck] at leads
      cases leads
    rw [after.normalize absolute pieces, normal]
    constructor
    · rintro _ ⟨start, part, leads, _⟩
      rw [whole part leads] at leads
      exact same (Except.ok.inj (followed.resolved.symm.trans leads))
    · exact fun _ => rfl

end Deleted

/-- The key of a path to a file that does not end in a link stays when the file is deleted. And the
key of any absolute path changes just if a part of the path leads to the file and ends in a link. -/
theorem deleted_file_keeps_key {t : Tree} (formed : t.WellFormed) {place : List String}
    {content : List UInt8} (isFile : t.entry? place = some (.file content)) {text : String}
    (absolute : (Path.parse text).absolute = true) :
    (t.resolve (Path.parse text).clean.parts = .ok place →
      ¬ t.EndsInLink (Path.parse text).clean.parts →
        (t.delete (.ofParts place)).2.key text = t.key text) ∧
    ((t.delete (.ofParts place)).2.key text = t.key text ↔
      ¬ ∃ found, found <+: (Path.parse text).clean.parts ∧ t.resolve found = .ok place ∧
        t.EndsInLink found) := by
  have deleted := deleted_delete formed isFile
  have pieces : ∀ n ∈ (Path.parse text).parts, IsPiece n := fun n => Path.isPiece_of_mem_parse
  have same := (text_normalize_inj (deleted.wellFormed formed) formed pieces pieces).trans
    (deleted.normalize_iff formed absolute pieces)
  refine ⟨?_, same⟩
  intro resolved noLink
  refine same.mpr ?_
  rintro ⟨found, part, leads, inLink⟩
  rw [formed.eq_of_resolve_file isFile part leads resolved] at inLink
  exact noLink inLink

/-- A file whose directory is reached through one link behind the other. -/
def chained : Tree :=
  (∅ : Tree).insert ["real"] .dir |>.insert ["near"] (.link "real") |>.insert ["far"] (.link "/near/.")
    |>.insert ["real", "a.py"] (.file [])

theorem chained_contents :
    chained.WellFormed ∧ chained.entry? ["real"] = some .dir ∧
    chained.entry? ["near"] = some (.link "real") ∧ chained.entry? ["far"] = some (.link "/near/.") ∧
    chained.entry? ["real", "a.py"] = some (.file []) := by
  decide

theorem chained_walk (rest : List String) :
    chained.resolve ("far" :: rest) = chained.walk 38 ["real"] rest := by
  obtain ⟨_, dir, near, far, _⟩ := chained_contents
  rw [resolve, show maxLinks = 38 + 1 + 1 from rfl, walk_link (by decide) far, ite_self,
    show walkPieces "/near/." = ["near", "."] by decide]
  show chained.walk (38 + 1) [] ("near" :: "." :: rest) = _
  rw [walk_link (by decide) near, ite_self, show walkPieces "real" = ["real"] by decide]
  show chained.walk 38 [] ("real" :: "." :: rest) = _
  rw [walk_dir (by decide) dir, walk, if_pos (by decide)]
  rfl

theorem chained_file_keeps_key :
    chained.entry? ["real", "a.py"] = some (.file []) ∧
    Tree.entry? (chained.delete (.ofParts ["real", "a.py"])).2 ["real", "a.py"] = none ∧
    (chained.delete (.ofParts ["real", "a.py"])).2.key "/far/gone/../a.py" =
      chained.key "/far/gone/../a.py" := by
  obtain ⟨formed, _, _, _, isFile⟩ := chained_contents
  have parts : (Path.parse "/far/gone/../a.py").clean.parts = ["far", "a.py"] := by decide
  have resolved : chained.resolve ["far", "a.py"] = .ok ["real", "a.py"] := by
    rw [chained_walk]
    exact @walk_of_present chained formed 38 ["real"] ["a.py"] (by simp [isFile]) (by simp [isFile])
  have noLink : ¬ chained.EndsInLink ["far", "a.py"] := by
    rintro ⟨above, name, here, target, split, walked, isLink⟩
    obtain ⟨rfl, last⟩ := List.append_inj' (show ["far"] ++ ["a.py"] = above ++ [name] from split) rfl
    cases last
    rw [chained_walk, walk] at walked
    cases walked
    rw [List.singleton_append, isFile] at isLink
    cases isLink
  obtain ⟨keeps, _⟩ := deleted_file_keeps_key formed isFile
    (show (Path.parse "/far/gone/../a.py").absolute = true by decide)
  rw [parts] at keeps
  refine ⟨isFile, ?_, keeps resolved noLink⟩
  rw [(deleted_delete formed isFile).entries, if_pos rfl]

end Tree

end ModelAtlas.Files
