import ModelAtlas.Files.Tree

/-!
# Normal paths

Every file is known by one spelling of its path. Links in the longest part of the path that exists
are followed, so a file keeps its spelling when it is deleted.
-/

namespace ModelAtlas.Files

namespace Tree

/-- Follows the longest part that exists and keeps the names behind it. The first list stands last
name first. `..` as the last name is not given up. -/
def follow (t : Tree) : List String → List String → Option (List String)
  | existing, missing =>
    match t.resolve existing.reverse with
    | .ok place => some (place ++ missing)
    | .error _ =>
      match existing with
      | [] => none
      | name :: above => if name == ".." then none else follow t above (name :: missing)
termination_by existing => existing.length

/-- The spelling that a path is known by. A relative path exists nowhere. -/
def normalize (t : Tree) (p : Path) : Path :=
  let p := p.clean
  if p.absolute then
    match t.follow p.parts.reverse [] with
    | some parts => .ofParts parts
    | none => p
  else p

/-- The spelling, as text, that a written path is known by. -/
def key (t : Tree) (text : String) : String := (t.normalize (Path.parse text)).text

end Tree

end ModelAtlas.Files
