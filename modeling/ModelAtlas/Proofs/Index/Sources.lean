import ModelAtlas.Index.ModelIndex
import ModelAtlas.Proofs.Files.Discovery
import ModelAtlas.Proofs.Files.Edits
import ModelAtlas.Proofs.Files.NamePatterns
import ModelAtlas.Proofs.Source.Classes

/-!
# Source files

Where the roots lead to places that are clear of links, whether a path is a source depends only on the
ignore files of the roots. Nothing else in the tree matters but whether there is a file.
-/

namespace ModelAtlas.Index

open Files Model Source

/-! ### The glob of source files -/

def sourceEnding : String := ".py"

/-- The rule that sources are found by. -/
def sourceRule : Rule := ⟨false, false, endingGlob sourceEnding.toUTF8.toList⟩

theorem parse_sourcePattern : Rule.parse sourcePattern = .ok (some sourceRule) := by
  have spelled : sourcePattern = (NamePattern.ending sourceEnding).glob := by decide
  rw [spelled]
  exact NamePattern.parse_glob _ (by decide)

theorem sourceRule_applies {rest : List String}
    (has : (Path.ofParts rest).extension? = some "py") :
    sourceRule.applies (String.intercalate "/" rest) false = true := by
  obtain ⟨above, stem, rfl⟩ := Path.eq_append_of_extension has
  have ending : "." ++ "py" = sourceEnding := by decide
  rw [String.append_assoc, ending]
  exact endingGlob_matches_iff.mpr
    ((NamePattern.intercalate_ends_iff (by decide) above _).mpr ⟨stem, rfl⟩)

/-! ### Sources below roots -/

/-- Every root leads to a place of its own kind: clear of links and no glob. -/
def Rooted (t : Tree) (roots : List Path) : Prop := ∀ root ∈ roots, ∃ place, t.RootAt root place

/-- Whether a file with these parts, if there is one, is a source below some roots. -/
def IsSource (t : Tree) (roots : List Path) (parts : List String) : Prop :=
  (∀ n ∈ parts, IsName n) ∧ ∃ root ∈ roots, ∃ place rest, t.RootAt root place ∧ rest ≠ [] ∧
    parts = place ++ rest ∧ t.Reports sourceRule place rest

theorem mem_sourceFiles {t : Tree} (formed : t.WellFormed) {roots : List Path}
    (rooted : Rooted t roots) (p : Path) :
    p ∈ sourceFiles t roots ↔
      ∃ parts, p = .ofParts parts ∧ (t.contentAt parts).isSome ∧ IsSource t roots parts := by
  have isName : IsName "*.py" := by decide
  unfold sourceFiles
  rw [List.mem_flatMap]
  constructor
  · rintro ⟨root, isRoot, member⟩
    obtain ⟨place, at_⟩ := rooted root isRoot
    obtain ⟨found, searched, spec⟩ := Tree.mem_discover formed at_ isName parse_sourcePattern
    rw [show t.discover root sourcePattern = .ok found from searched] at member
    obtain ⟨rest, proper, rfl, isFile, reports⟩ := (spec p).mp member
    obtain ⟨content, present⟩ := Tree.contentAt_isSome.mp isFile
    refine ⟨_, rfl, isFile, ?_, root, isRoot, place, rest, at_, proper, rfl, reports⟩
    exact formed.names _ (by simp [present])
  · rintro ⟨parts, rfl, isFile, _, root, isRoot, place, rest, at_, proper, rfl, reports⟩
    obtain ⟨found, searched, spec⟩ := Tree.mem_discover formed at_ isName parse_sourcePattern
    refine ⟨root, isRoot, ?_⟩
    rw [show t.discover root sourcePattern = .ok found from searched]
    exact (spec _).mpr ⟨rest, proper, rfl, isFile, reports⟩

theorem discover_sources_eq_nil {t : Tree} {root : Path} {place : List String}
    (normal : t.normalize root = .ofParts place) (valid : ∀ n ∈ place, IsName n)
    (plain : ∀ n ∈ place, isGlobPart n = false) (empty : t.filesUnder (.ofParts place) = []) :
    t.discover root sourcePattern = .ok [] := by
  have isName : IsName "*.py" := by decide
  have found := Tree.discover_eq_nil normal valid plain empty isName parse_sourcePattern
  exact found

theorem IsSource.unlinked {t : Tree} {roots : List Path} {parts : List String}
    (isSource : IsSource t roots parts) : t.Unlinked parts := by
  obtain ⟨_, root, _, place, rest, at_, _, rfl, _⟩ := isSource
  exact at_.clear.unlinked rest

theorem IsSource.ne_nil {t : Tree} {roots : List Path} {parts : List String}
    (isSource : IsSource t roots parts) : parts ≠ [] := by
  obtain ⟨_, root, _, place, rest, _, proper, rfl, _⟩ := isSource
  simp [proper]

/-! ### What sources declare -/

theorem path_of_mem_extractModels {file : SourceFile} {r : ModelRecord}
    (member : r ∈ extractModels file) : r.path = file.path := by
  obtain ⟨c, _, extracted⟩ := List.mem_filterMap.mp member
  unfold extractModel at extracted
  split at extracted
  · rw [← Option.some.inj extracted]
    rfl
  · cases extracted

theorem path_of_mem_scanFile {t : Tree} {path : String} {r : ModelRecord}
    (member : r ∈ scanFile t path) : r.path = path := by
  unfold scanFile at member
  split at member
  · exact path_of_mem_extractModels member
  · cases member

/-- The models that a file with some content declares. -/
def declared (path : String) (content : Option (List UInt8)) : List ModelRecord :=
  match content with
  | some bytes => extractModels (SourceFile.parse path (Text.decodeLossy bytes))
  | none => []

theorem scanFile_text {t : Tree} (formed : t.WellFormed) {parts : List String} (proper : parts ≠ [])
    (valid : ∀ n ∈ parts, IsName n) (unlinked : t.Unlinked parts) :
    scanFile t (Path.ofParts parts).text =
      declared (Path.ofParts parts).text (t.contentAt parts) := by
  rw [← Tree.readBytes_text formed proper valid unlinked]
  unfold scanFile Tree.readText declared
  cases t.readBytes (Path.ofParts parts).text with
  | ok content => rfl
  | error e => rfl

theorem IsSource.scanFile {t : Tree} (formed : t.WellFormed) {roots : List Path}
    {parts : List String} (isSource : IsSource t roots parts) :
    scanFile t (Path.ofParts parts).text =
      declared (Path.ofParts parts).text (t.contentAt parts) :=
  scanFile_text formed isSource.ne_nil isSource.1 isSource.unlinked

/-! ### Plain files -/

/-- The models that plain classes declare. -/
def plainModels (path : String) (classes : List Plain.Class) : List ModelRecord :=
  extractModels ⟨path, { classes := Plain.declare {} classes }⟩

/-- A file that spells plain classes declares just their models. -/
theorem declared_of_spelled (path : String) {bytes : List UInt8} {classes : List Plain.Class}
    (plain : classes.all Plain.Class.isPlain)
    (spelled : (Text.decodeLossy bytes).toList = Plain.spell classes) :
    declared path (some bytes) = plainModels path classes := by
  rw [declared, parse_of_spelled path plain spelled, plainModels]

/-- A file with a model that has a field. -/
def fieldSource : List UInt8 :=
  "class A(models.Model):\n\t_name = 'a'\n\tx = fields.Char()\n".toUTF8.data.toList

def fieldClass : Plain.Class where
  name := ['A']
  qualifier := "models".toList
  base := "Model".toList
  assignments := [⟨"_name".toList, .str ['a']⟩, ⟨['x'], .call "fields".toList "Char".toList⟩]

theorem declared_fieldSource (path : String) :
    declared path (some fieldSource) = plainModels path [fieldClass] :=
  declared_of_spelled path (by decide) (by decide)

/-! ### Edits -/

/-- What may be edited: files below a root that end in `.py` and that its rules do not exclude. -/
def Editable (t : Tree) (roots : List Path) (parts : List String) : Prop :=
  (∀ n ∈ parts, IsName n) ∧ (Path.ofParts parts).extension? = some "py" ∧
    ∃ root ∈ roots, ∃ rest, rest ≠ [] ∧ parts = (t.normalize root).parts ++ rest ∧
      Tree.isExcluded (t.rulesOf (t.normalize root)) (t.normalize root) parts = false

theorem editable_of_rootAt {t : Tree} (formed : t.WellFormed) {roots : List Path} {root : Path}
    (isRoot : root ∈ roots) {place rest : List String} (at_ : t.RootAt root place)
    (proper : rest ≠ []) (valid : ∀ n ∈ place ++ rest, IsName n)
    (extension : (Path.ofParts (place ++ rest)).extension? = some "py")
    (included : Tree.isExcluded (t.rulesAt place) (.ofParts place) (place ++ rest) = false) :
    Editable t roots (place ++ rest) := by
  refine ⟨valid, extension, root, isRoot, rest, proper, ?_⟩
  rw [at_.normalize, Tree.rulesOf_eq formed (at_.leads.valid formed) at_.clear]
  exact ⟨rfl, included⟩

theorem Editable.isSource {t : Tree} (formed : t.WellFormed) {roots : List Path}
    (rooted : Rooted t roots) {parts : List String} (editable : Editable t roots parts) :
    IsSource t roots parts := by
  obtain ⟨valid, extension, root, isRoot, rest, proper, rfl, included⟩ := editable
  obtain ⟨place, at_⟩ := rooted root isRoot
  rw [at_.normalize] at valid extension included ⊢
  rw [Tree.rulesOf_eq formed (at_.leads.valid formed) at_.clear] at included
  refine ⟨valid, root, isRoot, place, rest, at_, proper, rfl, rfl, ?_, included⟩
  apply sourceRule_applies
  rw [← Path.extension?_append proper]
  exact extension

theorem extension?_ignoreFile (place : List String) :
    (Path.ofParts (place ++ [ignoreFile])).extension? = none := by
  rw [Path.extension?_append (by simp)]
  decide

section Edited

variable {t u : Tree} {roots : List Path} {touched : List (List String)}

theorem rulesAt_edited (edited : t.Edited u touched)
    (editable : ∀ parts ∈ touched, Editable t roots parts) (place : List String) :
    u.rulesAt place = t.rulesAt place := by
  have untouched : place ++ [ignoreFile] ∉ touched := by
    intro member
    have extension := (editable _ member).2.1
    rw [extension?_ignoreFile] at extension
    cases extension
  unfold Tree.rulesAt
  rw [edited.kept _ untouched]

theorem Rooted.edited (rooted : Rooted t roots) (edited : t.Edited u touched) : Rooted u roots := by
  intro root isRoot
  obtain ⟨place, at_⟩ := rooted root isRoot
  exact ⟨place, at_.extend edited.frame⟩

/-- Edits do not change what a source is. -/
theorem isSource_edited_iff (edited : t.Edited u touched) (rooted : Rooted t roots)
    (editable : ∀ parts ∈ touched, Editable t roots parts) (parts : List String) :
    IsSource u roots parts ↔ IsSource t roots parts := by
  constructor
  · rintro ⟨valid, root, isRoot, place, rest, at_, proper, rfl, reports⟩
    obtain ⟨before, was⟩ := rooted root isRoot
    have same : place = before := at_.unique (was.extend edited.frame)
    subst same
    refine ⟨valid, root, isRoot, place, rest, was, proper, rfl, reports.1, reports.2.1, ?_⟩
    rw [← rulesAt_edited edited editable]
    exact reports.2.2
  · rintro ⟨valid, root, isRoot, place, rest, at_, proper, rfl, reports⟩
    refine ⟨valid, root, isRoot, place, rest, at_.extend edited.frame, proper, rfl, reports.1,
      reports.2.1, ?_⟩
    rw [rulesAt_edited edited editable]
    exact reports.2.2

end Edited

end ModelAtlas.Index
