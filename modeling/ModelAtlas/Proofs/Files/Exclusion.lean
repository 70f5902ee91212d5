import ModelAtlas.Proofs.Files.Confinement

/-!
# What ignore rules leave out

A file is excluded if a directory between the root and the file is ignored, or the file itself, as a
file. Searches judge the file as if it were a directory, and the root along with it. So they leave out
the excluded files unless the rules ignore the root itself, or a rule for directories decides about the
file (`left_out_iff_excludes`).
-/

namespace ModelAtlas.Files

namespace Rules

variable {rules : Rules} {path : String} {isDir : Bool} {parts : List String}

/-! ### Verdicts -/

/-- The rule that decides about a path: the last that applies. -/
def deciding? (rules : Rules) (path : String) (isDir : Bool) : Option Rule :=
  rules.reverse.find? (·.applies path isDir)

theorem verdict_eq (rules : Rules) (path : String) (isDir : Bool) :
    rules.verdict path isDir =
      ((rules.deciding? path isDir).map fun r => if r.keeps then Verdict.kept else .ignored).getD
        .silent := by
  unfold verdict deciding?
  cases rules.reverse.find? (·.applies path isDir) with
  | none => rfl
  | some r => rfl

/-- A rule that applies to a file applies to a directory of that name. -/
theorem applies_dir {r : Rule} (applies : r.applies path false = true) : r.applies path true = true := by
  unfold Rule.applies at applies ⊢
  exact Bool.and_eq_true_iff.mpr ⟨rfl, (Bool.and_eq_true_iff.mp applies).2⟩

/-- A path is judged alike as a file and as a directory if no rule for directories decides about it. -/
theorem deciding?_file (forFiles : (rules.deciding? path true).any (·.onlyDirs) = false) :
    rules.deciding? path false = rules.deciding? path true := by
  unfold deciding? at forFiles ⊢
  cases decided : rules.reverse.find? (·.applies path true) with
  | none =>
    rw [List.find?_eq_none] at decided ⊢
    exact fun r member applies => decided r member (applies_dir applies)
  | some r =>
    rw [decided, Option.any_some] at forFiles
    rw [List.find?_eq_some_iff_append] at decided ⊢
    obtain ⟨applies, later, earlier, split, none⟩ := decided
    refine ⟨?_, later, earlier, split, fun s member => ?_⟩
    · unfold Rule.applies at applies ⊢
      rw [forFiles]
      simpa using applies
    · -- a later rule that applied to the file would apply to a directory too
      have unmatched := none s member
      rw [Bool.not_eq_true'] at unmatched ⊢
      exact Bool.eq_false_iff.mpr fun fits => Bool.eq_false_iff.mp unmatched (applies_dir fits)

/-! ### Exclusion -/

/-- A directory between the root and a file is ignored. -/
def IgnoresAbove (rules : Rules) (parts : List String) : Prop :=
  ∃ n < parts.length, 0 < n ∧ rules.verdict (String.intercalate "/" (parts.take n)) true = .ignored

/-- What the rules mean for a file: it is excluded with a directory that it is in, or by itself. -/
def Excludes (rules : Rules) (parts : List String) : Prop :=
  rules.IgnoresAbove parts ∨ rules.verdict (String.intercalate "/" parts) false = .ignored

instance (rules : Rules) (parts : List String) : Decidable (rules.IgnoresAbove parts) :=
  inferInstanceAs (Decidable (∃ n < parts.length, 0 < n ∧ _))

instance (rules : Rules) (parts : List String) : Decidable (rules.Excludes parts) :=
  inferInstanceAs (Decidable (_ ∨ _))

theorem ignores_iff (rules : Rules) (parts : List String) :
    rules.ignores parts = true ↔ rules.verdict "" true = .ignored ∨ rules.IgnoresAbove parts ∨
      rules.verdict (String.intercalate "/" parts) true = .ignored := by
  unfold ignores
  simp only [List.any_eq_true, List.mem_range, beq_iff_eq]
  -- of the first `n` names, none are the root and all are the file itself
  constructor
  · rintro ⟨n, inRange, ignored⟩
    rcases Nat.eq_zero_or_pos n with rfl | proper
    · exact Or.inl ignored
    · rcases Nat.lt_succ_iff_lt_or_eq.mp inRange with inside | rfl
      · exact Or.inr (Or.inl ⟨n, inside, proper, ignored⟩)
      · rw [List.take_length] at ignored
        exact Or.inr (Or.inr ignored)
  · rintro (root | ⟨n, inside, _, ignored⟩ | own)
    · exact ⟨0, by omega, root⟩
    · exact ⟨n, by omega, ignored⟩
    · exact ⟨parts.length, by omega, by rwa [List.take_length]⟩

theorem ignores_iff_excludes (rooted : rules.verdict "" true ≠ .ignored)
    (forFiles : (rules.deciding? (String.intercalate "/" parts) true).any (·.onlyDirs) = false) :
    rules.ignores parts = true ↔ rules.Excludes parts := by
  rw [ignores_iff, or_iff_right rooted, Excludes, verdict_eq rules _ false, deciding?_file forFiles,
    ← verdict_eq]

end Rules

namespace Tree

theorem isExcluded_iff {rules : Rules} {root : Path} {parts : List String} :
    isExcluded rules root parts = true ↔
      ∃ rest, parts = root.parts ++ rest ∧ rules.ignores rest = true := by
  unfold isExcluded
  rw [Bool.and_eq_true, List.isPrefixOf_iff_prefix]
  constructor
  · rintro ⟨⟨rest, rfl⟩, ignored⟩
    rw [List.drop_left] at ignored
    exact ⟨rest, rfl, ignored⟩
  · rintro ⟨rest, rfl, ignored⟩
    rw [List.drop_left]
    exact ⟨List.prefix_append _ _, ignored⟩

/-- What a search would find is left out if the rules of its root ignore the root, a directory between the
root and the file, or the file as a directory. That is what they exclude, unless they ignore the root or
decide about the file by a rule for directories. -/
theorem left_out_iff_excludes {t : Tree} {root : Path} {pattern : String} {found : List Path}
    (searched : t.discover root pattern = .ok found) {parts : List String}
    (candidate : parts ∈ t.candidates root pattern) :
    let top := t.normalize root
    let rules := t.rulesOf top
    (Path.ofParts parts ∉ found ↔ ∃ rest, parts = top.parts ++ rest ∧
      (rules.verdict "" true = .ignored ∨ rules.IgnoresAbove rest ∨
        rules.verdict (String.intercalate "/" rest) true = .ignored)) ∧
    ∀ rest, parts = top.parts ++ rest → rules.verdict "" true ≠ .ignored →
      (rules.deciding? (String.intercalate "/" rest) true).any (·.onlyDirs) = false →
      (Path.ofParts parts ∉ found ↔ rules.Excludes rest) := by
  intro top rules
  have out : Path.ofParts parts ∉ found ↔
      ∃ rest, parts = top.parts ++ rest ∧ rules.ignores rest = true := by
    rw [mem_discover_iff searched, and_iff_right candidate, Bool.not_eq_false, isExcluded_iff]
  refine ⟨?_, fun rest split rooted forFiles => ?_⟩
  · rw [out]
    exact exists_congr fun rest => and_congr_right fun _ => rules.ignores_iff rest
  · rw [out, ← Rules.ignores_iff_excludes rooted forFiles]
    constructor
    · rintro ⟨other, also, ignored⟩
      exact List.append_cancel_left (split.symm.trans also) ▸ ignored
    · exact fun ignored => ⟨rest, split, ignored⟩

/-! ### Roots with an ignore file -/

/-- A root with some rules, a source in it and another in a directory. -/
def ruledRoot (rules : String) : Tree :=
  (∅ : Tree).insert ["ws"] .dir |>.insert ["ws", ignoreFile] (.file rules.toUTF8.data.toList)
    |>.insert ["ws", "a.py"] (.file []) |>.insert ["ws", "build"] .dir
    |>.insert ["ws", "build", "b.py"] (.file [])

theorem rootAt_ws {t : Tree} (clear : t.Clear []) : t.RootAt (.parse "/ws") ["ws"] where
  absolute := by decide
  leads := t.leadsTo_self (by decide)
  plain := by decide
  clear := clear.everywhere _

theorem ruledRoot_left_out :
    ∃ found, (ruledRoot "build/\n").discover (.parse "/ws") "**/*.py" = .ok found ∧
      ["ws", "build", "b.py"] ∈ (ruledRoot "build/\n").candidates (.parse "/ws") "**/*.py" ∧
      Path.ofParts ["ws", "build", "b.py"] ∉ found ∧
      ["ws", "a.py"] ∈ (ruledRoot "build/\n").candidates (.parse "/ws") "**/*.py" ∧
      Path.ofParts ["ws", "a.py"] ∈ found := by
  have formed : (ruledRoot "build/\n").WellFormed := by decide
  have clear : (ruledRoot "build/\n").Clear [] := by decide
  have at_ := rootAt_ws clear
  have wanted : .ending ".py" ∈ NamePattern.searches := by decide
  obtain ⟨found, searched⟩ :=
    exists_discover (search_wanted formed at_ wanted) (NamePattern.parse_glob _ wanted)
  have inside := (mem_candidates_wanted formed at_ wanted ["ws", "build", "b.py"]).mpr
    ⟨["build"], "b.py", rfl, by decide, "b", rfl⟩
  have here := (mem_candidates_wanted formed at_ wanted ["ws", "a.py"]).mpr
    ⟨[], "a.py", rfl, by decide, "a", rfl⟩
  obtain ⟨_, excluded⟩ := left_out_iff_excludes searched inside
  obtain ⟨_, included⟩ := left_out_iff_excludes searched here
  rw [at_.normalize, rulesOf_eq formed (by decide) at_.clear] at excluded included
  refine ⟨found, searched, inside, ?_, here, ?_⟩
  · exact (excluded ["build", "b.py"] rfl (by decide +kernel) (by decide +kernel)).mpr
      (by decide +kernel)
  · exact not_not.mp ((included ["a.py"] rfl (by decide +kernel) (by decide +kernel)).not.mpr
      (by decide +kernel))

/-- A search below such a root leaves out the first source, which the rules do not exclude. -/
def HidesSource (rules : String) : Prop :=
  let t := ruledRoot rules
  t.WellFormed ∧ t.Clear [] ∧ ["ws", "a.py"] ∈ t.candidates (.parse "/ws") "**/*.py" ∧
    ¬ (t.rulesOf (t.normalize (.parse "/ws"))).Excludes ["a.py"] ∧
    ∃ found, t.discover (.parse "/ws") "**/*.py" = .ok found ∧ Path.ofParts ["ws", "a.py"] ∉ found

theorem hidesSource {rules : String} (formed : (ruledRoot rules).WellFormed)
    (clear : (ruledRoot rules).Clear []) (isFile : ((ruledRoot rules).contentAt ["ws", "a.py"]).isSome)
    (kept : ¬ ((ruledRoot rules).rulesAt ["ws"]).Excludes ["a.py"])
    (ignored : ((ruledRoot rules).rulesAt ["ws"]).ignores ["a.py"] = true) : HidesSource rules := by
  have at_ := rootAt_ws clear
  have wanted : .ending ".py" ∈ NamePattern.searches := by decide
  obtain ⟨found, searched, spec⟩ := mem_discover_wanted formed at_ wanted
  refine ⟨formed, clear, ?_, ?_, found, searched, ?_⟩
  · exact (mem_candidates_wanted formed at_ wanted _).mpr ⟨[], "a.py", rfl, isFile, "a", rfl⟩
  · rw [at_.normalize, rulesOf_eq formed (by decide) at_.clear]
    exact kept
  · intro member
    obtain ⟨_, _, _, _, _, included⟩ := (spec _).mp member
    exact Bool.eq_false_iff.mp included (isExcluded_iff.mpr ⟨["a.py"], rfl, ignored⟩)

/-- A rule for directories hides a file of that name, and a rule that matches the empty path of the root
hides files that a later rule takes back. -/
theorem hidden_sources : HidesSource "a.py/\n" ∧ HidesSource "*\n!*.py\n" :=
  ⟨hidesSource (by decide +kernel) (by decide +kernel) (by decide +kernel) (by decide +kernel)
      (by decide +kernel),
    hidesSource (by decide +kernel) (by decide +kernel) (by decide +kernel) (by decide +kernel)
      (by decide +kernel)⟩

end Tree

end ModelAtlas.Files
