import ModelAtlas.Source.File

/-!
# Addon manifests

An addon describes itself in a file that consists of a dictionary. Of each key the last entry
counts, whatever its shape.
-/

namespace ModelAtlas.Addon

open Source

/-- The name of the file that makes a directory an addon. -/
def manifestFile : String := "__manifest__.py"

structure Manifest where
  /-- The title, which is not the name of the directory. -/
  displayName : Option String := none
  version : Option String := none
  depends : List String := []
  autoInstall : Bool := false
deriving DecidableEq, Repr, Inhabited

namespace Manifest

/-- The strings of a list or a tuple. -/
def stringsOf (value : Expr) : List String := (value.elements?.getD []).filterMap Expr.str?

/-- `True`, or a list of addons to wait for. -/
def isAutomatic : Expr → Bool
  | .bool b => b
  | .list _ => true
  | _ => false

/-- Takes one entry. -/
def enter (m : Manifest) (entry : String × Expr) : Manifest :=
  let (key, value) := entry
  if key == "name" then { m with displayName := value.str? }
  else if key == "version" then { m with version := value.str? }
  else if key == "depends" then { m with depends := stringsOf value }
  else if key == "auto_install" then { m with autoInstall := isAutomatic value }
  else m

/-- The manifest that these entries make; without any there is none. -/
def ofEntries (entries : List (String × Expr)) : Option Manifest :=
  if entries.isEmpty then none else some (entries.foldl enter {})

/-- The manifest in a file. -/
def parse (file : SourceFile) : Option Manifest := ofEntries file.manifestEntries

/-- What is said about a file without a manifest. -/
def missing (file : SourceFile) : String := file.path ++ " is not a manifest dictionary"

end Manifest

end ModelAtlas.Addon
