import ModelAtlas.Config

/-!
# Settings

A configuration with every default filled in.
-/

namespace ModelAtlas.Config

open Files

structure Settings where
  /-- How long a query waits for the first scan, in milliseconds. -/
  readyTimeoutMs : Nat := 5000
  /-- How long a query waits for fields, in milliseconds. -/
  fieldWaitMs : Nat := 50
  workers : Nat := 2
  /-- Directories to scan, as written. -/
  roots : List String := []
deriving DecidableEq, Repr, Inhabited

namespace Settings

/-- Adds a directory below the root, unless it has been named before. -/
def addRoot (root : String) (roots : List String) (extra : String) : List String :=
  let path := joinText root extra
  if roots.any (Path.parse · == Path.parse path) then roots else roots ++ [path]

/-- The settings of the project at `root`. -/
def resolve (c : Config) (root : String) : Settings :=
  let index : IndexConfig := c.index.getD {}
  let fields : FieldsConfig := c.fields.getD {}
  let defaults : Settings := {}
  { readyTimeoutMs := index.readyTimeoutMs.getD defaults.readyTimeoutMs
    fieldWaitMs := fields.waitMs.getD defaults.fieldWaitMs
    workers := (index.workers.map (max · 1)).getD defaults.workers
    roots := (index.roots.getD []).foldl (addRoot root) [root] }

end Settings

end ModelAtlas.Config
