import ModelAtlas.Addon.Manifest
import ModelAtlas.Files.Discovery

/-!
# Addon modules

A directory with a manifest is a module, named after the directory. The registry keeps the first
module of each name.
-/

namespace ModelAtlas.Addon

open Files Source Std

structure Module where
  name : String
  path : Path
  manifest : Manifest
deriving DecidableEq, Repr, Inhabited

/-- Modules by name. -/
abbrev Registry := ExtTreeMap String Module

/-- The module of a manifest file, if that can be read. Without a dictionary it has default data. -/
def Module.read? (t : Tree) (manifest : Path) : Option Module :=
  let dir : Path := ⟨manifest.absolute, manifest.parts.dropLast⟩
  match dir.fileName?, t.readText manifest.text with
  | some name, .ok text =>
    some ⟨name, dir, (Manifest.parse (SourceFile.parse manifest.text text)).getD {}⟩
  | _, _ => none

namespace Registry

/-- Takes a module, unless there is one of its name. -/
def enter (r : Registry) (m : Module) : Registry :=
  if r.contains m.name then r else r.insert m.name m

/-- Takes the modules of some manifest files, in order, and counts those that are new. -/
def enterAll (t : Tree) (r : Registry) : List Path → Nat × Registry
  | [] => (0, r)
  | p :: rest =>
    match Module.read? t p with
    | none => enterAll t r rest
    | some m =>
      let (added, after) := enterAll t (r.enter m) rest
      (if r.contains m.name then added else added + 1, after)

/-- The glob of manifest files. -/
def manifestPattern : String := "**/" ++ manifestFile

/-- Takes the modules below a root, and tells how many are new. -/
def discover (t : Tree) (r : Registry) (root : Path) : Except DiscoveryError (Nat × Registry) :=
  match t.discover root manifestPattern with
  | .error e => .error e
  | .ok manifests => .ok (r.enterAll t manifests)

/-- Takes the modules below each of some roots. A root that cannot be searched adds none. -/
def discoverAll (t : Tree) (roots : List Path) : Registry :=
  roots.foldl (fun r root => match r.discover t root with
    | .ok (_, after) => after
    | .error _ => r) ∅

/-- Every module, by name. -/
def all (r : Registry) : List Module := r.values

/-- The longer of two module directories. -/
def deeper (best : Option Module) (m : Module) : Option Module :=
  match best with
  | none => some m
  | some b => if b.path.parts.length ≤ m.path.parts.length then some m else some b

/-- The module with the longest directory that contains a path. -/
def moduleOf (t : Tree) (r : Registry) (path : Path) : Option Module :=
  let path := t.normalize path
  (r.all.filter (path.isBelow ·.path)).foldl deeper none

end Registry

end ModelAtlas.Addon
