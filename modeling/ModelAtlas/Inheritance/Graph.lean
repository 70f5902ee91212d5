import Std.Data.ExtTreeMap
import Std.Data.ExtTreeSet
import ModelAtlas.Model.Record

/-!
# The inheritance graph

The records that are known, by identifier and by file, and the inheritance relation between them in
both directions. A record may name parents that are not known. When a record is removed, the records
that inherit from it are kept as detached children, and they are attached again when it comes back.
-/

namespace ModelAtlas.Inheritance

open Model Std

/-- Identifiers in order. -/
abbrev Names := ExtTreeSet String

structure Graph where
  models : ExtTreeMap String ModelRecord := ∅
  /-- The identifiers that each file owns. -/
  byFile : ExtTreeMap String Names := ∅
  /-- The records that list an identifier as a parent. -/
  children : ExtTreeMap String Names := ∅
  parents : ExtTreeMap String (List String) := ∅
  /-- The children of removed records. -/
  detached : ExtTreeMap String Names := ∅
  /-- Every stored identifier, for queries by how it starts. -/
  names : Names := ∅

/-! ### Sets under a key -/

/-- Adds a member to the set under a key. -/
def insertAt (m : ExtTreeMap String Names) (key member : String) : ExtTreeMap String Names :=
  m.alter key fun s => some ((s.getD ∅).insert member)

/-- Takes a member out of the set under a key, and the key with its last member. -/
def eraseAt (m : ExtTreeMap String Names) (key member : String) : ExtTreeMap String Names :=
  m.alter key fun
    | none => none
    | some s => if (s.erase member).isEmpty then none else some (s.erase member)

/-- Adds all of a set to the set under a key. -/
def mergeAt (m : ExtTreeMap String Names) (key : String) (members : Names) :
    ExtTreeMap String Names :=
  m.alter key fun s => some (members.foldl (fun t x => t.insert x) (s.getD ∅))

namespace Graph

/-! ### Edges -/

/-- Records that `child` lists `parent`. -/
def attach (g : Graph) (child parent : String) : Graph :=
  if g.detached.contains parent then { g with detached := insertAt g.detached parent child }
  else { g with children := insertAt g.children parent child }

/-- Forgets that `child` lists `parent`. -/
def release (g : Graph) (child parent : String) : Graph :=
  { g with
    children := eraseAt g.children parent child
    detached := eraseAt g.detached parent child }

/-- Attaches the detached children of `id`. -/
def reattach (g : Graph) (id : String) : Graph :=
  match g.detached[id]? with
  | none => g
  | some members =>
    { g with detached := g.detached.erase id, children := mergeAt g.children id members }

/-- Detaches the children of `id`. -/
def detach (g : Graph) (id : String) : Graph :=
  match g.children[id]? with
  | none => g
  | some members =>
    { g with children := g.children.erase id, detached := mergeAt g.detached id members }

/-! ### Records -/

/-- Removes the record of `id` with the edges it declared. -/
def remove (g : Graph) (id : String) : Graph :=
  match g.models[id]? with
  | none => g
  | some record =>
    let g := { g with
      models := g.models.erase id
      byFile := eraseAt g.byFile record.path id }
    let listed := g.parents[id]?.getD []
    let g := listed.foldl (fun g parent => g.release id parent) { g with
      parents := g.parents.erase id }
    let g := g.detach id
    { g with names := g.names.erase id }

/-- Adds a record in place of the one with its identifier. -/
def add (g : Graph) (record : ModelRecord) : Graph :=
  let id := record.identifier
  let g := if g.models.contains id then g.remove id else g
  let g := { g with byFile := insertAt g.byFile record.path id }
  let g := record.parents.foldl (fun g parent => g.attach id parent) g
  let g := g.reattach id
  { g with
    parents := g.parents.insert id record.parents
    names := g.names.insert id
    models := g.models.insert id record }

def addAll (g : Graph) (records : List ModelRecord) : Graph := records.foldl add g

/-- Removes, of some identifiers, those whose record is in the file at `path`. -/
def removeOwned (path : String) : Graph → List String → List String × Graph
  | g, [] => ([], g)
  | g, id :: rest =>
    match g.models[id]? with
    | some record =>
      if record.path = path then
        let (removed, g) := removeOwned path (g.remove id) rest
        (id :: removed, g)
      else removeOwned path g rest
    | none => removeOwned path g rest

/-- Removes the records that a file owns, and tells which they were. -/
def removeFile (g : Graph) (path : String) : List String × Graph :=
  match g.byFile[path]? with
  | none => ([], g)
  | some ids => removeOwned path { g with byFile := g.byFile.erase path } ids.toList

/-! ### Queries -/

def get? (g : Graph) (id : String) : Option ModelRecord := g.models[id]?

def size (g : Graph) : Nat := g.models.size

def isEmpty (g : Graph) : Bool := g.models.isEmpty

/-- Every record, by identifier. -/
def records (g : Graph) : List ModelRecord := g.models.values

def childrenOf (g : Graph) (id : String) : List String := (g.children[id]?.getD ∅).toList

def parentsOf (g : Graph) (id : String) : List String := g.parents[id]?.getD []

/-- The stored identifiers that start with a text. -/
def startingWith (g : Graph) (head : String) : List String :=
  g.names.toList.filter (Text.startsWith · head)

end Graph

end ModelAtlas.Inheritance
