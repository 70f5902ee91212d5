import ModelAtlas.Proofs.Files.Listing
import ModelAtlas.Proofs.Files.NamePatterns
import ModelAtlas.Proofs.Files.Places

/-!
# Where searches look

In a tree without links every absolute root leads to a place, whether or not there is anything. A search
finds just the files below that place whose names it is for, as long as no name on the way there is read
as a glob itself (`discover_confined`). With such a name a search may leave its root, and miss what is
below it (`bracedRoot_left`).
-/

namespace ModelAtlas.Files

/-! ### Roots -/

theorem Cleaned.exists_names {back : List String} (cleaned : Cleaned back) :
    ∃ count names, back.reverse = List.replicate count ".." ++ names ∧ ∀ n ∈ names, IsName n := by
  induction cleaned with
  | ups count => exact ⟨count, [], by simp, by simp⟩
  | @name name above isName _ ih =>
    obtain ⟨count, names, split, valid⟩ := ih
    refine ⟨count, names ++ [name], by rw [List.reverse_cons, split, List.append_assoc], ?_⟩
    exact List.forall_mem_append.mpr ⟨valid, by simpa using isName⟩

namespace Tree

/-- Nothing is above `/`, so what is left of a cleaned path is names. -/
theorem exists_leadsTo (t : Tree) {p : Path} (pieces : ∀ n ∈ p.parts, IsPiece n) :
    ∃ place, t.LeadsTo p.clean.parts place := by
  obtain ⟨count, names, split, valid⟩ := (cleaned_parts pieces).exists_names
  rw [List.reverse_reverse] at split
  exact ⟨names, _, names, [], split, valid, t.resolve_ups count, rfl, rfl⟩

theorem Clear.everywhere {t : Tree} (clear : t.Clear []) (place : List String) : t.Clear place :=
  fun parts target found => absurd List.nil_prefix (clear parts target found).2

/-! ### Searches -/

theorem mem_filesUnder_of_candidate {t : Tree} {root : Path} {pattern : String} {parts : List String}
    (candidate : parts ∈ t.candidates root pattern) :
    parts ∈ t.filesUnder (Search.ofText (joinText (t.normalize root).text pattern)).base := by
  unfold candidates at candidate
  dsimp only at candidate
  split at candidate
  · exact (List.mem_filter.mp candidate).1
  · cases candidate

section Confinement

variable {t : Tree} {root : Path} {place : List String} {w : NamePattern}

/-- Whatever its root is, a search does not leave the directory it starts from. -/
theorem below_base_of_mem_discover (formed : t.WellFormed) (clear : t.Clear [])
    (normal : t.normalize root = .ofParts place) (valid : ∀ n ∈ place, IsName n)
    (wanted : w ∈ NamePattern.searches) {found : List Path}
    (searched : t.discover root w.glob = .ok found) {p : Path} (member : p ∈ found) :
    (t.contentAt p.parts).isSome ∧
      ∃ rest, rest ≠ [] ∧ p = .ofParts (place.takeWhile (!isGlobPart ·) ++ rest) := by
  have shown := eq_ofParts_of_mem_discover searched member
  have listed := mem_filesUnder_of_candidate ((mem_discover_iff searched p.parts).mp (shown ▸ member)).1
  rw [normal, NamePattern.glob, base_eq valid (NamePattern.isName_last w wanted),
    mem_filesUnder formed (clear.everywhere _)
      fun n isPart => valid n (List.takeWhile_subset _ isPart)] at listed
  obtain ⟨rest, proper, split, isFile⟩ := listed
  exact ⟨split ▸ isFile, rest, proper, shown.trans (congrArg Path.ofParts split)⟩

theorem search_wanted (formed : t.WellFormed) (at_ : t.RootAt root place)
    (wanted : w ∈ NamePattern.searches) :
    Search.ofText (joinText (t.normalize root).text w.glob) = ⟨.ofParts place, w.glob⟩ := by
  rw [at_.normalize]
  exact search_eq (at_.leads.valid formed) at_.plain (NamePattern.isName_last w wanted)

/-- Below a root without globs, a search comes to the files it is for. -/
theorem mem_candidates_wanted (formed : t.WellFormed) (at_ : t.RootAt root place)
    (wanted : w ∈ NamePattern.searches) (parts : List String) :
    parts ∈ t.candidates root w.glob ↔ ∃ above name, parts = place ++ above ++ [name] ∧
      (t.contentAt parts).isSome ∧ w.Matches name := by
  have isName : ∀ above name, (t.contentAt (place ++ (above ++ [name]))).isSome → IsName name := by
    intro above name isFile
    obtain ⟨content, present⟩ := contentAt_isSome.mp isFile
    exact formed.names (place ++ (above ++ [name])) (by simp [present]) name (by simp)
  have applies : ∀ above name, IsName name →
      (w.rule.applies (String.intercalate "/" (above ++ [name])) false = true ↔ w.Matches name) :=
    fun above name isName =>
      NamePattern.applies_rule_iff (NamePattern.noSlash_text w wanted) above isName.noSlash
  have behind : ∀ rest,
      (place ++ rest).drop (Search.mk (.ofParts place) w.glob).base.parts.length = rest :=
    fun _ => List.drop_left
  rw [mem_candidates_iff (search_wanted formed at_ wanted) (NamePattern.parse_glob w wanted),
    mem_filesUnder formed at_.clear (at_.leads.valid formed), and_iff_right w.keeps_rule]
  constructor
  · rintro ⟨⟨rest, proper, rfl, isFile⟩, fits⟩
    obtain ⟨above, name, rfl⟩ : ∃ above name, rest = above ++ [name] :=
      ⟨_, _, (List.dropLast_concat_getLast proper).symm⟩
    rw [behind, applies above name (isName above name isFile)] at fits
    exact ⟨above, name, by rw [List.append_assoc], isFile, fits⟩
  · rintro ⟨above, name, rfl, isFile, named⟩
    rw [List.append_assoc] at isFile ⊢
    rw [behind, applies above name (isName above name isFile)]
    exact ⟨⟨above ++ [name], by simp, rfl, isFile⟩, named⟩

theorem mem_discover_wanted (formed : t.WellFormed) (at_ : t.RootAt root place)
    (wanted : w ∈ NamePattern.searches) :
    ∃ found, t.discover root w.glob = .ok found ∧ ∀ p, p ∈ found ↔
      ∃ above name, p = .ofParts (place ++ above ++ [name]) ∧ (t.contentAt p.parts).isSome ∧
        w.Matches name ∧ isExcluded (t.rulesAt place) (.ofParts place) p.parts = false := by
  obtain ⟨found, searched⟩ :=
    exists_discover (search_wanted formed at_ wanted) (NamePattern.parse_glob w wanted)
  have spec := mem_discover_iff searched
  rw [at_.normalize, rulesOf_eq formed (at_.leads.valid formed) at_.clear] at spec
  refine ⟨found, searched, fun p => ?_⟩
  constructor
  · intro member
    have shown := eq_ofParts_of_mem_discover searched member
    obtain ⟨candidate, included⟩ := (spec p.parts).mp (shown ▸ member)
    obtain ⟨above, name, split, isFile, named⟩ := (mem_candidates_wanted formed at_ wanted _).mp candidate
    exact ⟨above, name, shown.trans (congrArg Path.ofParts split), isFile, named, included⟩
  · rintro ⟨above, name, rfl, isFile, named, included⟩
    have candidate := (mem_candidates_wanted formed at_ wanted _).mpr ⟨above, name, rfl, isFile, named⟩
    exact (spec _).mpr ⟨candidate, included⟩

end Confinement

/-- In a tree without links, what a search finds is in order, and all of it files. They lie below the
directory it starts from: its root, as long as no name on the way there is a glob. Then every file below
the root whose name is searched for is found, unless the rules of the root exclude it. -/
theorem discover_confined {t : Tree} (formed : t.WellFormed) (clear : t.Clear []) {text : String}
    (absolute : (Path.parse text).absolute = true) {w : NamePattern}
    (wanted : w ∈ NamePattern.searches) :
    let root := Path.parse text
    let top := t.normalize root
    (∀ found, t.discover root w.glob = .ok found →
      found.Pairwise (fun a b => compare a.parts b.parts = .lt) ∧
      ∀ p ∈ found, (t.contentAt p.parts).isSome ∧
        ∃ rest, rest ≠ [] ∧ p = .ofParts (top.parts.takeWhile (!isGlobPart ·) ++ rest)) ∧
    ((∀ n ∈ top.parts, isGlobPart n = false) →
      ∃ found, t.discover root w.glob = .ok found ∧ ∀ p, p ∈ found ↔
        ∃ above name, p = .ofParts (top.parts ++ above ++ [name]) ∧ (t.contentAt p.parts).isSome ∧
          w.Matches name ∧ isExcluded (t.rulesOf top) top p.parts = false) := by
  intro root top
  obtain ⟨place, leads⟩ := t.exists_leadsTo (p := root) fun n => Path.isPiece_of_mem_parse
  have normal : top = .ofParts place :=
    leads.normalize absolute (clear.everywhere place).unlinked_self
  have valid := leads.valid formed
  constructor
  · intro found searched
    refine ⟨discover_increasing searched, fun p member => ?_⟩
    rw [normal]
    exact below_base_of_mem_discover formed clear normal valid wanted searched member
  · intro plain
    rw [normal] at plain ⊢
    rw [rulesOf_eq formed valid (clear.everywhere place)]
    exact mem_discover_wanted formed ⟨absolute, leads, plain, clear.everywhere place⟩ wanted

/-! ### Roots with special names -/

/-- A question mark in the name of a root stands for itself. -/
def markedRoot : Tree :=
  (∅ : Tree).insert ["w?"] .dir |>.insert ["w?", "a.py"] (.file [])
    |>.insert ["w?", "b.txt"] (.file []) |>.insert ["wx"] .dir |>.insert ["wx", "c.py"] (.file [])

theorem markedRoot_confined :
    markedRoot.WellFormed ∧ markedRoot.Clear [] ∧ (Path.parse "/w?/.").absolute = true ∧
    .ending ".py" ∈ NamePattern.searches ∧
    (∀ n ∈ (markedRoot.normalize (.parse "/w?/.")).parts, isGlobPart n = false) ∧
    ∃ found, markedRoot.discover (.parse "/w?/.") "**/*.py" = .ok found ∧
      Path.ofParts ["w?", "a.py"] ∈ found ∧ Path.ofParts ["w?", "b.txt"] ∉ found ∧
      Path.ofParts ["wx", "c.py"] ∉ found := by
  have formed : markedRoot.WellFormed := by decide
  have clear : markedRoot.Clear [] := by decide
  have normal : markedRoot.normalize (.parse "/w?/.") = .ofParts ["w?"] :=
    @normalize_of_isPlace markedRoot (.ofParts ["w?"]) rfl (by decide)
  have rules : markedRoot.rulesOf (.ofParts ["w?"]) = [] :=
    rulesOf_eq_nil formed (by decide) (clear.everywhere _) (by decide)
  have plain : ∀ n ∈ (markedRoot.normalize (.parse "/w?/.")).parts, isGlobPart n = false := by
    rw [normal]
    decide
  obtain ⟨_, whole⟩ :=
    @discover_confined markedRoot formed clear "/w?/." (by decide) (.ending ".py") (by decide)
  obtain ⟨found, searched, spec⟩ := whole plain
  rw [normal, rules] at spec
  refine ⟨formed, clear, by decide, by decide, plain, found, searched, ?_, ?_, ?_⟩
  · exact (spec _).mpr ⟨[], "a.py", rfl, by decide, ⟨"a", rfl⟩, by decide⟩
  · intro member
    obtain ⟨above, name, same, _, ⟨stem, rfl⟩, _⟩ := (spec _).mp member
    have last : ["w?", "b.txt"].getLast? = (["w?"] ++ above ++ [stem ++ ".py"]).getLast? :=
      congrArg (·.parts.getLast?) same
    rw [List.getLast?_concat] at last
    have letter := congrArg (·.toList.getLast?) (Option.some.inj last)
    simp at letter
  · intro member
    obtain ⟨above, name, same, _⟩ := (spec _).mp member
    simp [Path.ofParts] at same

/-- Braces in the name of a root make it a glob, for the name without them. -/
def bracedRoot : Tree :=
  (∅ : Tree).insert ["a\x7bb\x7d"] .dir |>.insert ["a\x7bb\x7d", "x.py"] (.file [])
    |>.insert ["ab"] .dir |>.insert ["ab", "y.py"] (.file [])

theorem bracedRoot_left :
    bracedRoot.WellFormed ∧ bracedRoot.Clear [] ∧ bracedRoot.entry? ["a\x7bb\x7d"] = some .dir ∧
    bracedRoot.normalize (.parse "/a\x7bb\x7d") = .ofParts ["a\x7bb\x7d"] ∧
    (bracedRoot.contentAt ["a\x7bb\x7d", "x.py"]).isSome ∧
    bracedRoot.rulesOf (.ofParts ["a\x7bb\x7d"]) = [] ∧
    ∃ found, bracedRoot.discover (.parse "/a\x7bb\x7d") "**/*.py" = .ok found ∧
      Path.ofParts ["a\x7bb\x7d", "x.py"] ∉ found ∧ Path.ofParts ["ab", "y.py"] ∈ found := by
  have formed : bracedRoot.WellFormed := by decide
  have clear : bracedRoot.Clear [] := by decide
  have normal : bracedRoot.normalize (.parse "/a\x7bb\x7d") = .ofParts ["a\x7bb\x7d"] :=
    @normalize_of_isPlace bracedRoot (.ofParts ["a\x7bb\x7d"]) rfl (by decide)
  have rules : bracedRoot.rulesOf (.ofParts ["a\x7bb\x7d"]) = [] :=
    rulesOf_eq_nil formed (by decide) (clear.everywhere _) (by decide)
  have sought : Search.ofText (joinText (bracedRoot.normalize (.parse "/a\x7bb\x7d")).text "**/*.py") =
      ⟨.ofParts [], "a\x7bb\x7d/**/*.py"⟩ := by
    rw [normal]
    decide
  obtain ⟨rule, read, keeps, other, own⟩ : ∃ rule,
      Rule.parse "a\x7bb\x7d/**/*.py" = .ok (some rule) ∧ rule.keeps = false ∧
        rule.applies "ab/y.py" false = true ∧ rule.applies "a\x7bb\x7d/x.py" false = false := by
    have tested : (Rule.parse "a\x7bb\x7d/**/*.py").toOption.join.any (fun rule =>
        !rule.keeps && rule.applies "ab/y.py" false && !rule.applies "a\x7bb\x7d/x.py" false) := by
      decide +kernel
    obtain ⟨rule, read, holds⟩ := Rule.exists_of_any tested
    exact ⟨rule, read, by simpa [and_assoc] using holds⟩
  obtain ⟨found, searched⟩ := exists_discover sought read
  refine ⟨formed, clear, by decide, normal, by decide, rules, found, searched, ?_, ?_⟩
  · rw [mem_discover_iff searched, mem_candidates_iff sought read]
    rintro ⟨⟨_, _, applies⟩, _⟩
    cases applies.symm.trans own
  · rw [mem_discover_iff searched, mem_candidates_iff sought read,
      mem_filesUnder formed (clear.everywhere _) (by simp), normal, rules]
    exact ⟨⟨⟨["ab", "y.py"], by simp, rfl, by decide⟩, keeps, other⟩, by decide⟩

end Tree

end ModelAtlas.Files
