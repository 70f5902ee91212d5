import ModelAtlas.Files.Glob
import ModelAtlas.Text.Blank
import ModelAtlas.Text.Occurs

/-!
# Ignore rules

A rule is a line of an ignore file. Of the rules that match a path the last one decides.
-/

namespace ModelAtlas.Files

structure Rule where
  /-- Takes back what earlier rules ignore. -/
  keeps : Bool
  onlyDirs : Bool
  glob : Glob

/-- What the rules say about a path. -/
inductive Verdict where
  | silent
  | ignored
  | kept
deriving DecidableEq, Repr

namespace Rule

/-- White space at the end does not count, unless a backslash stands before the last blank. -/
def trimLine (line : String) : String :=
  if "\\ ".toList.isSuffixOf line.toList then line
  else String.ofList (line.toList.reverse.dropWhile Text.isBlank).reverse

/-- The text of the glob: without a slash inside it matches at any depth, and `/**` at the end
matches what is inside a directory. -/
def globText (anchored : Bool) (body : String) : String :=
  let anywhere := !anchored && !body.toList.contains '/'
  let text :=
    if anywhere && !Text.startsWith body "**/" && body != "**" then "**/" ++ body else body
  if "/**".toList.isSuffixOf text.toList then text ++ "/*" else text

/-- A slash at the end stands for directories; a backslash before it goes too. -/
def splitDirs (body : List Char) : Bool × List Char :=
  match body.reverse with
  | '/' :: '\\' :: rest => (true, rest.reverse)
  | '/' :: rest => (true, rest.reverse)
  | _ => (false, body)

/-- The marks at the start of a rule: whether it takes back, whether it is anchored, and the rest. -/
def opening : List Char → Bool × Bool × List Char
  | '\\' :: '!' :: rest => (false, false, '!' :: rest)
  | '\\' :: '#' :: rest => (false, false, '#' :: rest)
  | '!' :: '/' :: rest => (true, true, rest)
  | '!' :: rest => (true, false, rest)
  | '/' :: rest => (false, true, rest)
  | rest => (false, false, rest)

/-- The rule on a line: none on an empty line or a comment. -/
def parse (line : String) : Except GlobError (Option Rule) :=
  if Text.startsWith line "#" then .ok none
  else
    let body := (trimLine line).toList
    if body.isEmpty then .ok none
    else
      let (keeps, anchored, body) := opening body
      let (onlyDirs, body) := splitDirs body
      match Glob.parse (globText anchored (String.ofList body)) with
      | .error e => .error e
      | .ok glob => .ok (some ⟨keeps, onlyDirs, glob⟩)

def applies (r : Rule) (path : String) (isDir : Bool) : Bool :=
  (isDir || !r.onlyDirs) && r.glob.matches path

end Rule

abbrev Rules := List Rule

namespace Rules

/-- What the last rule that applies says. -/
def verdict (rules : Rules) (path : String) (isDir : Bool) : Verdict :=
  match rules.reverse.find? (·.applies path isDir) with
  | none => .silent
  | some r => if r.keeps then .kept else .ignored

/-- The lines of a text: each ends with a line break, and a carriage return before that goes too. -/
def splitLines : List (List UInt8) → List (List UInt8)
  | [] => []
  | [last] => [last]
  | line :: rest => (if line.getLast? == some 13 then line.dropLast else line) :: splitLines rest

/-- Lines of a file up to the first that is no text. Byte order marks in front are skipped. -/
def linesOf (content : List UInt8) : List String :=
  let lines := (splitLines (content.splitOn 10)).map fun bytes => String.fromUTF8? ⟨bytes.toArray⟩
  match (lines.takeWhile Option.isSome).filterMap id with
  | [] => []
  | first :: rest => String.ofList (first.toList.dropWhile (· == '\ufeff')) :: rest

/-- The rules of an ignore file. Lines that are no glob are skipped. -/
def parse (content : List UInt8) : Rules :=
  (linesOf content).filterMap fun line =>
    match Rule.parse line with
    | .ok rule => rule
    | .error _ => none

/-- Whether a path, or a directory above it, is ignored. Every one of them, the path itself and the
empty path included, is taken for a directory and judged by itself. -/
def ignores (rules : Rules) (parts : List String) : Bool :=
  (List.range (parts.length + 1)).any fun n =>
    rules.verdict (String.intercalate "/" (parts.take n)) true == .ignored

end Rules

end ModelAtlas.Files
