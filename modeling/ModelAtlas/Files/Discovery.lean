import ModelAtlas.Files.Ignore
import ModelAtlas.Files.Normalize
import ModelAtlas.Text.Quoted

/-!
# Discovery

`discover` lists the files below a root whose path matches a glob, leaving out what the ignore file
of the root excludes. Root and glob are joined into one text first, so a root may act as a glob
itself.
-/

namespace ModelAtlas.Files

/-- The name of the ignore file of a root. -/
def ignoreFile : String := ".gitignore"

/-- The normalized root of a search that cannot be started. -/
structure DiscoveryError where
  root : Path
deriving DecidableEq, Repr

def DiscoveryError.message (e : DiscoveryError) : String :=
  "Could not glob into " ++ Text.quote e.root.text

/-! ### Where to look -/

/-- A part that makes a path a glob. -/
def isGlobPart (part : String) : Bool := part.toList.any ("*\x7b\x7d".toList.contains ·)

/-- A glob with a directory to start from. -/
structure Search where
  base : Path
  pattern : String
deriving DecidableEq, Repr

/-- The parts before the first that is a glob, and the rest as a glob. -/
def Search.ofText (text : String) : Search :=
  let path := Path.parse text
  let pattern := String.intercalate "/" (path.parts.dropWhile (!isGlobPart ·))
  ⟨⟨path.absolute, path.parts.takeWhile (!isGlobPart ·)⟩, if pattern == "*" then "/*" else pattern⟩

/-! ### Walking -/

namespace Tree

/-- The files below a directory without links, by their parts behind `shown`. Links are followed,
but not to a directory that the walk is inside of. -/
def filesBelow (t : Tree) :
    Nat → List (List String) → List String → List String → List (List String)
  | 0, _, _, _ => []
  | depth + 1, inside, shown, place =>
    (t.namesIn place).flatMap fun name =>
      match t.entry? (place ++ [name]) with
      | none => []
      | some (.file _) => [shown ++ [name]]
      | some .dir =>
        t.filesBelow depth ((place ++ [name]) :: inside) (shown ++ [name]) (place ++ [name])
      | some (.link _) =>
        match t.walk maxLinks place [name] with
        | .error _ => []
        | .ok target =>
          match t.entry? target with
          | some (.file _) => [shown ++ [name]]
          | some .dir =>
            if inside.contains target then []
            else t.filesBelow depth (target :: inside) (shown ++ [name]) target
          | _ => []

/-- Deep enough for every walk: links can be followed once into each directory, and between two
links lie no more directories than there are. -/
def walkDepth (t : Tree) : Nat := (t.size + 2) * (t.size + 2)

/-- The files below a base, by all their parts. A relative base exists nowhere. -/
def filesUnder (t : Tree) (base : Path) : List (List String) :=
  if base.absolute then
    match t.resolve base.parts with
    | .error _ => []
    | .ok place =>
      match t.entry? place with
      | some .dir => t.filesBelow t.walkDepth [place] base.parts place
      | _ => []
  else []

/-- The rules in the ignore file of a root. -/
def rulesOf (t : Tree) (root : Path) : Rules :=
  match t.readBytes (joinText root.text ignoreFile) with
  | .ok content => Rules.parse content
  | .error _ => []

/-- Whether a path is excluded by the rules of a root. A path outside of the root never is. -/
def isExcluded (rules : Rules) (root : Path) (parts : List String) : Bool :=
  root.parts.isPrefixOf parts && rules.ignores (parts.drop root.parts.length)

/-- The files below `root` that match `pattern`, in order. -/
def discover (t : Tree) (root : Path) (pattern : String) : Except DiscoveryError (List Path) :=
  let root := t.normalize root
  let search := Search.ofText (joinText root.text pattern)
  match Rule.parse search.pattern with
  | .error _ => .error ⟨root⟩
  | .ok none => .ok []
  | .ok (some rule) =>
    let rules := t.rulesOf root
    let found := (t.filesUnder search.base).filter fun parts =>
      !rule.keeps &&
        rule.applies (String.intercalate "/" (parts.drop search.base.parts.length)) false &&
        !isExcluded rules root parts
    .ok ((found.mergeSort fun a b => compare a b != .gt).map Path.ofParts)

end Tree

end ModelAtlas.Files
