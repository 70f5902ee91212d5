import ModelAtlas.Proofs.Files.Globs
import ModelAtlas.Proofs.Files.Spelling

/-!
# Patterns for file names

Searches are for the files whose names end in some way, or for those of one name. The glob of such a
pattern applies to a path just if the last name of the path is as the pattern says
(`applies_rule_iff`).
-/

namespace ModelAtlas.Files

/-! ### Reading -/

/-- Characters that stand for more than themselves in a glob. -/
def globChars : List Char := ['?', '*', '[', '\x7b', '\x7d', ',', '\\']

theorem readGlob_plain {cs : List Char} (plain : ∀ c ∈ cs, c ∉ globChars) (before : Option Char)
    (tokens : List GlobToken) :
    readGlob before [] tokens cs = .ok (tokens.reverse ++ cs.flatMap charTokens) := by
  induction cs generalizing before tokens with
  | nil => simp [readGlob]
  | cons c rest ih =>
    obtain ⟨first, others⟩ := List.forall_mem_cons.mp plain
    simp only [globChars, List.mem_cons, List.not_mem_nil, or_false, not_or] at first
    have read : readGlob before [] tokens (c :: rest) =
        readGlob (some c) [] ((charTokens c).reverse ++ tokens) rest := by
      rw [readGlob] <;> simp_all
    rw [read, ih others]
    simp

theorem flatMap_charTokens (text : String) :
    text.toList.flatMap charTokens = text.toUTF8.toList.map .byte := by
  have letters : ∀ cs : List Char,
      cs.flatMap charTokens = (String.ofList cs).toUTF8.toList.map .byte := by
    intro cs
    induction cs with
    | nil => rw [String.ofList_nil, utf8_empty, List.flatMap_nil, List.map_nil]
    | cons c rest ih =>
      rw [List.flatMap_cons, ih, ← List.singleton_append, String.ofList_append, utf8_append,
        List.map_append]
      rfl
  rw [letters, String.ofList_toList]

/-! ### Patterns -/

/-- What is searched for: the files whose names end in some way, or those of one name. -/
inductive NamePattern where
  | ending (text : String)
  | exactly (name : String)
deriving DecidableEq

namespace NamePattern

def text : NamePattern → String
  | .ending text => text
  | .exactly name => name

/-- The last part of the glob. -/
def last : NamePattern → String
  | .ending text => "*" ++ text
  | .exactly name => name

def glob (w : NamePattern) : String := "**/" ++ w.last

/-- Whether a file of some name is searched for. -/
def Matches : NamePattern → String → Prop
  | .ending text, name => ∃ stem, name = stem ++ text
  | .exactly wanted, name => name = wanted

/-- What the glob is read as. -/
def rule : NamePattern → Rule
  | .ending text => ⟨false, false, endingGlob text.toUTF8.toList⟩
  | .exactly name => ⟨false, false, nameGlob name.toUTF8.toList⟩

theorem keeps_rule (w : NamePattern) : w.rule.keeps = false := by cases w <;> rfl

/-- What searches are for: sources, manifests and plain texts. -/
def searches : List NamePattern := [.ending ".py", .exactly "__manifest__.py", .ending ".txt"]

example : searches.map glob = ["**/*.py", "**/__manifest__.py", "**/*.txt"] := by decide

theorem isName_last : ∀ w ∈ searches, IsName w.last := by decide

theorem noSlash_text : ∀ w ∈ searches, '/' ∉ w.text.toList := by decide

theorem parse_glob_of_plain {w : NamePattern} (plain : ∀ c ∈ w.text.toList, c ∉ globChars)
    (nonempty : w.text ≠ "") : Glob.parse w.glob = .ok w.rule.glob := by
  unfold Glob.parse
  cases w with
  | ending text =>
    have letters : ∀ c ∈ text.toList, c ∉ globChars := plain
    have noStar : ∀ rest, text.toList ≠ '*' :: rest := by
      intro rest same
      exact letters '*' (by simp [same]) (by decide)
    have chars : (NamePattern.ending text).glob.toList = '*' :: '*' :: '/' :: '*' :: text.toList := by
      simp [glob, last]
    have read : readGlob none [] [] ('*' :: '*' :: '/' :: '*' :: text.toList) =
        readGlob (some '*') [] [.star, .dirsFirst] text.toList := by
      rw [readGlob]
      dsimp only [List.isEmpty_nil]
      rw [if_pos rfl, readGlob]
      exact noStar
    rw [chars, read, readGlob_plain letters, flatMap_charTokens]
    rfl
  | exactly name =>
    have letters : ∀ c ∈ name.toList, c ∉ globChars := plain
    have chars : (NamePattern.exactly name).glob.toList = '*' :: '*' :: '/' :: name.toList := by
      simp [glob, last]
    have read : readGlob none [] [] ('*' :: '*' :: '/' :: name.toList) =
        readGlob (some '/') [] [.dirsFirst] name.toList := by
      rw [readGlob]
      rfl
    have proper : name.toUTF8.toList ≠ [] := by
      intro none
      exact nonempty (utf8_inj (none.trans utf8_empty.symm))
    rw [chars, read, readGlob_plain letters, flatMap_charTokens]
    obtain ⟨b, rest, bytes⟩ := List.exists_cons_of_ne_nil proper
    show Except.ok (Glob.complete _) = Except.ok (nameGlob _)
    rw [bytes]
    rfl

theorem parse_glob : ∀ w ∈ searches, Rule.parse w.glob = .ok (some w.rule) := by
  have plain : ∀ w ∈ searches, w.text.toList.all (!globChars.contains ·) = true := by decide
  have whole : ∀ w ∈ searches, w.text ≠ "" ∧ w.glob ≠ "" ∧ Text.startsWith w.glob "#" = false ∧
      Rule.trimLine w.glob = w.glob ∧ Rule.opening w.glob.toList = (false, false, w.glob.toList) ∧
      Rule.splitDirs w.glob.toList = (false, w.glob.toList) ∧
      Rule.globText false w.glob = w.glob := by decide
  intro w member
  obtain ⟨nonempty, shown, noComment, trimmed, bare, files, anchored⟩ := whole w member
  rw [Rule.parse_of_plain shown noComment trimmed bare files anchored,
    parse_glob_of_plain (by simpa using plain w member) nonempty]
  cases w <;> rfl

/-! ### Matching -/

/-- What ends some names between slashes ends the last of them, unless it has a slash in it. -/
theorem suffix_of_no_slash {front name e : List Char} (noSlash : '/' ∉ e)
    (ends : e <:+ front ++ '/' :: name) : e <:+ name := by
  have behind : '/' :: name <:+ front ++ '/' :: name := List.suffix_append _ _
  rcases List.suffix_or_suffix_of_suffix ends behind with shorter | longer
  · rcases List.suffix_cons_iff.mp shorter with whole | inside
    · exact absurd (by simp [whole]) noSlash
    · exact inside
  · exact absurd (longer.subset List.mem_cons_self) noSlash

theorem intercalate_ends_iff {e : String} (noSlash : '/' ∉ e.toList) (above : List String)
    (name : String) :
    (∃ before, String.intercalate "/" (above ++ [name]) = before ++ e) ↔ ∃ stem, name = stem ++ e := by
  by_cases top : above = []
  · simp [top]
  · rw [String.intercalate_append_of_ne_nil top (by simp), String.intercalate_singleton]
    constructor
    · rintro ⟨before, same⟩
      have chars := congrArg String.toList same
      simp only [String.toList_append, List.append_assoc] at chars
      obtain ⟨stem, whole⟩ := suffix_of_no_slash noSlash ⟨_, chars.symm⟩
      exact ⟨String.ofList stem, String.toList_inj.mp (by simp [whole])⟩
    · rintro ⟨stem, rfl⟩
      exact ⟨_, (String.append_assoc ..).symm⟩

theorem intercalate_last_iff {wanted name : String} (noSlash : '/' ∉ wanted.toList)
    (valid : '/' ∉ name.toList) (above : List String) :
    (String.intercalate "/" (above ++ [name]) = wanted ∨
      ∃ before, String.intercalate "/" (above ++ [name]) = before ++ ("/" ++ wanted)) ↔
      name = wanted := by
  by_cases top : above = []
  · rw [top, List.nil_append, String.intercalate_singleton]
    refine or_iff_left ?_
    rintro ⟨before, rfl⟩
    simp at valid
  · rw [String.intercalate_append_of_ne_nil top (by simp), String.intercalate_singleton]
    generalize String.intercalate "/" above = front
    constructor
    · rintro (rfl | ⟨before, same⟩)
      · simp at noSlash
      · have chars : front.toList ++ '/' :: name.toList = before.toList ++ '/' :: wanted.toList := by
          simpa using congrArg String.toList same
        have ends : wanted.toList <:+ name.toList := by
          apply suffix_of_no_slash noSlash
          rw [chars]
          exact (List.suffix_cons _ _).trans (List.suffix_append _ _)
        have alsoEnds : name.toList <:+ wanted.toList := by
          apply suffix_of_no_slash valid
          rw [← chars]
          exact (List.suffix_cons _ _).trans (List.suffix_append _ _)
        exact String.toList_inj.mp (alsoEnds.eq_of_length_le ends.length_le)
    · rintro rfl
      exact Or.inr ⟨front, String.append_assoc ..⟩

/-- The glob of a pattern applies to a path just if its last name is searched for. -/
theorem applies_rule_iff {w : NamePattern} (noSlash : '/' ∉ w.text.toList) (above : List String)
    {name : String} (valid : '/' ∉ name.toList) :
    w.rule.applies (String.intercalate "/" (above ++ [name])) false = true ↔ w.Matches name := by
  cases w with
  | ending e => exact endingGlob_matches_iff.trans (intercalate_ends_iff noSlash above name)
  | exactly wanted => exact nameGlob_matches_iff.trans (intercalate_last_iff noSlash valid above)

end NamePattern

end ModelAtlas.Files
