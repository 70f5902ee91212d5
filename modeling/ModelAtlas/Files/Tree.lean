import Std.Data.ExtTreeMap
import ModelAtlas.Files.Path
import ModelAtlas.Text.Lossy

/-!
# File trees

A file tree maps the parts of a path to what is found there. The root is a directory and is not
stored. An entry counts only if every path above it leads through directories, which `resolve` sees
to: it follows a path from the root, replacing links by what they point to.
-/

namespace ModelAtlas.Files

open Std

inductive Entry where
  | file (content : List UInt8)
  | dir
  | link (target : String)
deriving DecidableEq, Repr

abbrev Tree := ExtTreeMap (List String) Entry

/-- Why a path leads nowhere, or not to a file. -/
inductive AccessError where
  | notFound
  | notDirectory
  | isDirectory
  | tooManyLinks
deriving DecidableEq, Repr

def AccessError.message : AccessError → String
  | .notFound => "No such file or directory (os error 2)"
  | .notDirectory => "Not a directory (os error 20)"
  | .isDirectory => "Is a directory (os error 21)"
  | .tooManyLinks => "Too many levels of symbolic links (os error 40)"

namespace Tree

/-- What is stored under some parts. -/
def entry? (t : Tree) (parts : List String) : Option Entry :=
  if parts.isEmpty then some .dir else t[parts]?

/-- How many links one path may lead through. -/
def maxLinks : Nat := 40

/-- The pieces to walk for a text: those between slashes, and `.` for a slash at the end. -/
def walkPieces (text : String) : List String :=
  let pieces := (splitSlash text).filter (!·.isEmpty)
  if text.toList.getLast? == some '/' then pieces ++ ["."] else pieces

/-- Walks from a directory without links, given by its parts, through some pieces. -/
def walk (t : Tree) (links : Nat) (here : List String) :
    List String → Except AccessError (List String)
  | [] => .ok here
  | piece :: rest =>
    if piece == "." then walk t links here rest
    else if piece == ".." then walk t links here.dropLast rest
    else
      match t.entry? (here ++ [piece]) with
      | none => .error .notFound
      | some .dir => walk t links (here ++ [piece]) rest
      | some (.file _) => if rest.isEmpty then .ok (here ++ [piece]) else .error .notDirectory
      | some (.link target) =>
        match links with
        | 0 => .error .tooManyLinks
        | links + 1 =>
          let start := if target.toList.head? == some '/' then [] else here
          walk t links start (walkPieces target ++ rest)
termination_by pieces => (links, pieces.length)

/-- The place without links that some pieces below the root lead to. -/
def resolve (t : Tree) (pieces : List String) : Except AccessError (List String) :=
  t.walk maxLinks [] pieces

/-! ### Reading -/

/-- The bytes of the file that a text leads to. Only absolute paths lead anywhere. -/
def readBytes (t : Tree) (text : String) : Except AccessError (List UInt8) :=
  if (Path.parse text).absolute then
    match t.resolve (walkPieces text) with
    | .error e => .error e
    | .ok parts =>
      match t.entry? parts with
      | some (.file content) => .ok content
      | _ => .error .isDirectory
  else .error .notFound

def readText (t : Tree) (text : String) : Except AccessError String :=
  (t.readBytes text).map Text.decodeLossy

/-- The names in a directory, in order. -/
def namesIn (t : Tree) (parts : List String) : List String :=
  t.keys.filterMap fun key =>
    if key.dropLast == parts && !key.isEmpty then key.getLast? else none

/-! ### Changing -/

/-- Makes a directory below another for each missing name, following links, and tells where it ends
up. A name that is taken by a file stops it. -/
def makeDirs (t : Tree) (here : List String) : List String → Option (Tree × List String)
  | [] => some (t, here)
  | name :: rest =>
    match t.entry? (here ++ [name]) with
    | none => makeDirs (t.insert (here ++ [name]) .dir) (here ++ [name]) rest
    | some .dir => makeDirs t (here ++ [name]) rest
    | some (.file _) => none
    | some (.link _) =>
      match t.walk maxLinks here [name] with
      | .ok place => makeDirs t place rest
      | .error _ => none

/-- Where a file of that name in a directory is written to: a link leads on, whether or not there is
something at its end. -/
def landing (t : Tree) : Nat → List String → String → Option (List String)
  | links, here, name =>
    match t.entry? (here ++ [name]) with
    | some (.link target) =>
      match links, (walkPieces target).reverse with
      | links + 1, last :: above =>
        let start := if target.toList.head? == some '/' then [] else here
        match t.walk maxLinks start above.reverse with
        | .ok place => if last == "." || last == ".." then none else landing t links place last
        | .error _ => none
      | _, _ => none
    | some .dir => none
    | _ => some (here ++ [name])

/-- Puts an entry at a path and makes the directories above it. A file written through a link goes
to where the link points. -/
def put (t : Tree) (p : Path) (e : Entry) : Tree :=
  match p.parts.reverse with
  | [] => t
  | name :: above =>
    match t.makeDirs [] above.reverse with
    | none => t
    | some (t, here) =>
      match e with
      | .file _ =>
        match t.landing maxLinks here name with
        | some place => t.insert place e
        | none => t
      | .dir =>
        match t.walk maxLinks here [name] with
        | .ok place => if t.entry? place == some .dir then t else t.insert place e
        | .error _ => t.insert (here ++ [name]) e
      | .link _ => t.insert (here ++ [name]) e

/-- Removes what is at a path, with everything below it, and tells whether there was anything. A
link is removed, not what it points to. -/
def delete (t : Tree) (p : Path) : Bool × Tree :=
  match p.parts.reverse with
  | [] => (false, t)
  | name :: above =>
    match t.resolve above.reverse with
    | .error _ => (false, t)
    | .ok here =>
      if (t.entry? (here ++ [name])).isSome then
        (true, t.filter fun key _ => !(here ++ [name]).isPrefixOf key)
      else (false, t)

end Tree

end ModelAtlas.Files
