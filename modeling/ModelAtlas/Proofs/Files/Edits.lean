import ModelAtlas.Proofs.Files.Walking

/-!
# Edits of files

Writing and deleting a file changes nothing but that file, except that directories are made for it.
-/

namespace ModelAtlas.Files

open Std

namespace Tree

/-- Some files are created, rewritten or deleted. Directories may be made for them. -/
structure Edited (t u : Tree) (touched : List (List String)) : Prop where
  frame : u.Extends t
  kept : ∀ parts, parts ∉ touched → u.contentAt parts = t.contentAt parts

theorem Edited.refl (t : Tree) (touched : List (List String)) : t.Edited t touched where
  frame := ⟨fun _ dir => dir, fun _ _ => Iff.rfl⟩
  kept _ _ := rfl

theorem Edited.trans {t u v : Tree} {first second : List (List String)} (one : t.Edited u first)
    (two : u.Edited v second) : t.Edited v (first ++ second) where
  frame := ⟨fun parts dir => two.frame.dirs parts (one.frame.dirs parts dir),
    fun parts target => (one.frame.links parts target).trans (two.frame.links parts target)⟩
  kept parts untouched := by
    rw [List.mem_append, not_or] at untouched
    rw [two.kept parts untouched.2, one.kept parts untouched.1]

/-! ### Single entries -/

theorem entry?_insert (t : Tree) {key : List String} (proper : key ≠ []) (e : Entry)
    (parts : List String) :
    Tree.entry? (t.insert key e) parts = if parts = key then some e else t.entry? parts := by
  by_cases same : parts = key
  · rw [if_pos same, same, entry?, if_neg (by simpa using proper), ExtTreeMap.getElem?_insert_self]
  · have different : compare key parts ≠ .eq := fun equal => same (Std.compare_eq_iff_eq.mp equal).symm
    rw [if_neg same, entry?, entry?, ExtTreeMap.getElem?_insert, if_neg different]

theorem WellFormed.insert {t : Tree} (formed : t.WellFormed) {above : List String} {name : String}
    (dir : t.entry? above = some .dir) (isName : IsName name) {e : Entry}
    (keeps : t.entry? (above ++ [name]) = some .dir → e = .dir) :
    Tree.WellFormed (ExtTreeMap.insert t (above ++ [name]) e) := by
  have proper : above ++ [name] ≠ [] := by simp
  have entries := t.entry?_insert proper e
  refine ⟨?_, ?_⟩
  · intro parts present n member
    rw [entries] at present
    split at present
    · rename_i same
      subst same
      rcases List.mem_append.mp member with higher | last
      · exact formed.names above (by simp [dir]) n higher
      · rw [List.mem_singleton.mp last]
        exact isName
    · exact formed.names parts present n member
  · intro parts n present
    rw [entries] at present ⊢
    split at present
    · rename_i same
      obtain ⟨rfl, _⟩ := List.append_inj' same rfl
      rw [if_neg (by simp), dir]
    · have inside := formed.inside parts n present
      split
      · rename_i same
        rw [keeps (same ▸ inside)]
      · exact inside

theorem edited_insert_dir {t : Tree} {key : List String} (proper : key ≠ [])
    (absent : t.entry? key = none) : t.Edited (ExtTreeMap.insert t key .dir) [] := by
  have entries := t.entry?_insert proper .dir
  refine ⟨⟨?_, ?_⟩, ?_⟩
  · intro parts dir
    rw [entries]
    split <;> first | rfl | exact dir
  · intro parts target
    rw [entries]
    split
    · rename_i same
      simp [same, absent]
    · rfl
  · intro parts _
    unfold contentAt
    rw [entries]
    by_cases same : parts = key
    · rw [if_pos same, same, absent]
    · rw [if_neg same]

theorem edited_insert_file {t : Tree} {key : List String} (proper : key ≠ [])
    (noDir : t.entry? key ≠ some .dir) (noLink : ∀ target, t.entry? key ≠ some (.link target))
    (content : List UInt8) : t.Edited (ExtTreeMap.insert t key (.file content)) [key] := by
  have entries := t.entry?_insert proper (.file content)
  refine ⟨⟨?_, ?_⟩, ?_⟩
  · intro parts dir
    rw [entries, if_neg]
    · exact dir
    · rintro rfl
      exact noDir dir
  · intro parts target
    rw [entries]
    split
    · rename_i same
      subst same
      simp [noLink target]
    · rfl
  · intro parts untouched
    rw [List.mem_singleton] at untouched
    unfold contentAt
    rw [entries, if_neg untouched]

/-! ### Writing -/

theorem makeDirs_edited {t : Tree} (formed : t.WellFormed) {here names : List String}
    (dir : t.entry? here = some .dir) (valid : ∀ n ∈ names, IsName n)
    (unlinked : t.Unlinked (here ++ names)) {u : Tree} {there : List String}
    (made : t.makeDirs here names = some (u, there)) :
    there = here ++ names ∧ t.Edited u [] ∧ u.WellFormed ∧ u.entry? there = some .dir := by
  induction names generalizing t here with
  | nil =>
    cases made
    exact ⟨by simp, .refl _ [], formed, dir⟩
  | cons name rest ih =>
    obtain ⟨isName, others⟩ := List.forall_mem_cons.mp valid
    rw [List.append_cons] at unlinked ⊢
    rw [makeDirs] at made
    split at made
    · rename_i absent
      have step : t.Edited (ExtTreeMap.insert t (here ++ [name]) .dir) [] :=
        edited_insert_dir (by simp) absent
      have formedStep : Tree.WellFormed (ExtTreeMap.insert t (here ++ [name]) .dir) :=
        formed.insert dir isName fun _ => rfl
      have dirStep : Tree.entry? (ExtTreeMap.insert t (here ++ [name]) .dir) (here ++ [name]) =
          some .dir := by
        rw [entry?_insert t (by simp), if_pos rfl]
      obtain ⟨place, later, formedLater, dirLater⟩ :=
        ih formedStep dirStep others (unlinked.frame step.frame) made
      exact ⟨place, step.trans later, formedLater, dirLater⟩
    · rename_i present
      exact ih formed present others unlinked made
    · cases made
    · rename_i target found
      exact absurd found (unlinked _ target (List.prefix_append _ _))

theorem edited_put {t : Tree} (formed : t.WellFormed) {parts : List String}
    (valid : ∀ n ∈ parts, IsName n) (unlinked : t.Unlinked parts) (content : List UInt8) :
    t.Edited (t.put (.ofParts parts) (.file content)) [parts] ∧
      (t.put (.ofParts parts) (.file content)).WellFormed := by
  have unchanged : t.Edited t [parts] ∧ t.WellFormed := ⟨.refl t _, formed⟩
  unfold put
  split
  · exact unchanged
  · rename_i name above reversed
    have whole : parts = above.reverse ++ [name] := by
      rw [← List.reverse_cons, ← reversed]
      exact (List.reverse_reverse parts).symm
    subst whole
    split
    · exact unchanged
    · rename_i u here made
      have names : ∀ n ∈ above.reverse, IsName n :=
        fun n member => valid n (List.mem_append_left _ member)
      have higher : t.Unlinked ([] ++ above.reverse) := unlinked.above (List.prefix_append _ _)
      obtain ⟨rfl, dirs, formedU, dir⟩ := makeDirs_edited formed rfl names higher made
      rw [List.nil_append] at dir ⊢
      have noLink : ∀ target, u.entry? (above.reverse ++ [name]) ≠ some (.link target) :=
        fun target => unlinked.frame dirs.frame _ target (List.prefix_refl _)
      have written : u.entry? (above.reverse ++ [name]) ≠ some .dir →
          t.Edited (ExtTreeMap.insert u (above.reverse ++ [name]) (.file content))
              [above.reverse ++ [name]] ∧
            Tree.WellFormed (ExtTreeMap.insert u (above.reverse ++ [name]) (.file content)) := by
        intro noDir
        refine ⟨dirs.trans (edited_insert_file (by simp) noDir noLink content), ?_⟩
        exact formedU.insert dir (valid name (by simp)) fun isDir => absurd isDir noDir
      dsimp only
      rw [landing]
      cases found : u.entry? (above.reverse ++ [name]) with
      | none => exact written (by simp [found])
      | some e =>
        cases e with
        | file old => exact written (by simp [found])
        | dir => exact ⟨dirs.trans (.refl u _), formedU⟩
        | link target => exact absurd found (noLink target)

/-! ### Deleting -/

/-- Nothing is below a file, so whoever removes all that starts with its parts removes just the file. -/
theorem entry?_filter {t : Tree} (formed : t.WellFormed) {parts : List String} (proper : parts ≠ [])
    (noDir : t.entry? parts ≠ some .dir) (key : List String) :
    Tree.entry? (t.filter fun key _ => !parts.isPrefixOf key) key =
      if key = parts then none else t.entry? key := by
  by_cases top : key = []
  · rw [if_neg (top ▸ Ne.symm proper), top]
    rfl
  · rw [entry?_of_ne_nil _ top, ExtTreeMap.getElem?_filter', ← entry?_of_ne_nil t top]
    by_cases same : key = parts
    · subst same
      simp
    · rw [if_neg same]
      cases present : t.entry? key with
      | none => rfl
      | some e =>
        have above : ¬ parts <+: key := by
          rintro ⟨rest, rfl⟩
          have below : rest ≠ [] := by
            rintro rfl
            exact same (List.append_nil parts)
          exact noDir (formed.above below (by simp [present]))
        rw [← List.isPrefixOf_iff_prefix] at above
        simp [Option.filter, above]

theorem edited_remove {t u : Tree} (formed : t.WellFormed) {parts : List String}
    (noDir : t.entry? parts ≠ some .dir) (noLink : ∀ target, t.entry? parts ≠ some (.link target))
    (entries : ∀ key, u.entry? key = if key = parts then none else t.entry? key) :
    t.Edited u [parts] ∧ u.WellFormed := by
  refine ⟨⟨⟨?_, ?_⟩, ?_⟩, ?_, ?_⟩
  · intro key dir
    rw [entries, if_neg]
    · exact dir
    · rintro rfl
      exact noDir dir
  · intro key target
    rw [entries]
    split
    · rename_i same
      subst same
      simp [noLink target]
    · rfl
  · intro key untouched
    rw [List.mem_singleton] at untouched
    unfold contentAt
    rw [entries, if_neg untouched]
  · intro key present
    rw [entries] at present
    split at present
    · exact absurd rfl present
    · exact formed.names key present
  · intro above name present
    rw [entries] at present
    split at present
    · exact absurd rfl present
    · have inside := formed.inside above name present
      rw [entries, if_neg]
      · exact inside
      · rintro rfl
        exact noDir inside

theorem delete_of_present {t : Tree} (formed : t.WellFormed) {parts : List String}
    (proper : parts ≠ []) (present : t.entry? parts ≠ none) :
    t.delete (.ofParts parts) = (true, t.filter fun key _ => !parts.isPrefixOf key) := by
  obtain ⟨above, name, rfl⟩ : ∃ above name, parts = above ++ [name] :=
    ⟨_, _, (List.dropLast_concat_getLast proper).symm⟩
  have dir := formed.inside above name present
  have reversed : (Path.ofParts (above ++ [name])).parts.reverse = name :: above.reverse := by
    simp [Path.ofParts]
  unfold delete
  rw [reversed]
  dsimp only
  rw [List.reverse_reverse, formed.resolve (by simp [dir]) (by simp [dir])]
  dsimp only
  rw [if_pos (Option.isSome_iff_ne_none.mpr present)]

theorem edited_delete {t : Tree} (formed : t.WellFormed) {parts : List String}
    (valid : ∀ n ∈ parts, IsName n) (unlinked : t.Unlinked parts)
    (noDir : t.entry? parts ≠ some .dir) :
    t.Edited (t.delete (.ofParts parts)).2 [parts] ∧ (t.delete (.ofParts parts)).2.WellFormed := by
  have unchanged : t.Edited t [parts] ∧ t.WellFormed := ⟨.refl t _, formed⟩
  unfold delete
  split
  · exact unchanged
  · rename_i name above reversed
    have whole : parts = above.reverse ++ [name] := by
      rw [← List.reverse_cons, ← reversed]
      exact (List.reverse_reverse parts).symm
    split
    · exact unchanged
    · rename_i here walked
      have names : ∀ n ∈ above.reverse, IsName n :=
        fun n member => valid n (whole ▸ List.mem_append_left _ member)
      have higher : t.Unlinked ([] ++ above.reverse) :=
        unlinked.above (whole ▸ List.prefix_append _ _)
      have straight := walk_straight names higher walked
      rw [List.nil_append] at straight
      rw [straight, ← whole]
      split
      · exact edited_remove formed noDir (fun target => unlinked parts target (List.prefix_refl _))
          (entry?_filter formed (by simp [whole]) noDir)
      · exact unchanged

end Tree

end ModelAtlas.Files
