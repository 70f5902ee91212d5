/-!
# Paths

A path is read into its parts, but settings show it as it was written, so both forms occur: a
`Path`, and the text it was read from.
-/

namespace ModelAtlas.Files

/-- The parts of a path. A relative path may start with `.`; otherwise `.` does not occur. -/
structure Path where
  absolute : Bool
  parts : List String
deriving DecidableEq, Repr, Inhabited

/-- The pieces of a text between slashes. -/
def splitSlash (text : String) : List String :=
  (text.toList.splitOn '/').map String.ofList

namespace Path

/-- Empty pieces do not count, and `.` only in front of a relative path. -/
def ofPieces (absolute : Bool) : List String → List String
  | [] => []
  | first :: rest =>
    let inner := rest.filter fun p => !p.isEmpty && p != "."
    if first.isEmpty || (absolute && first == ".") then inner else first :: inner

def parse (text : String) : Path :=
  let absolute := text.toList.head? == some '/'
  ⟨absolute, ofPieces absolute (splitSlash text)⟩

def text (p : Path) : String :=
  (if p.absolute then "/" else "") ++ String.intercalate "/" p.parts

/-- The path of some parts below `/`. -/
def ofParts (parts : List String) : Path := ⟨true, parts⟩

/-- Drops `.`, and `..` together with the name before it. -/
def clean (p : Path) : Path :=
  ⟨p.absolute, (p.parts.foldl (fun out part =>
    if part == "." then out
    else match out with
      | last :: rest => if part == ".." && last != ".." then rest else part :: out
      | [] => [part]) []).reverse⟩

/-- The last part, unless it is `.` or `..`. -/
def fileName? (p : Path) : Option String :=
  match p.parts.getLast? with
  | some name => if name == ".." || name == "." then none else some name
  | none => none

/-- What follows the last dot of the file name, unless the name starts with its only dot. -/
def extension? (p : Path) : Option String :=
  match p.fileName? with
  | none => none
  | some name =>
    let reversed := name.toList.reverse
    let after := reversed.takeWhile (· != '.')
    let before := reversed.drop (after.length + 1)
    if before.isEmpty then none else some (String.ofList after.reverse)

/-- Whether a path lies at or below another, part by part. -/
def isBelow (p base : Path) : Bool :=
  p.absolute == base.absolute && base.parts.isPrefixOf p.parts

end Path

/-- A text that leads from one path to another: the second alone if it is absolute. -/
def joinText (base extra : String) : String :=
  if extra.toList.head? == some '/' then extra
  else if base.isEmpty || base.toList.getLast? == some '/' then base ++ extra
  else base ++ "/" ++ extra

end ModelAtlas.Files
