import ModelAtlas.Model.Members
import ModelAtlas.Source.File
import ModelAtlas.Text.Occurs

/-!
# Methods

The methods of a class, sorted into kinds by their names, and those that every model has without
declaring them.
-/

namespace ModelAtlas.Model

open Source

inductive MethodKind where
  | crud | compute | onchange | inverse | search | businessLogic
deriving DecidableEq, Repr

namespace MethodKind

def name : MethodKind → String
  | .crud => "crud"
  | .compute => "compute"
  | .onchange => "onchange"
  | .inverse => "inverse"
  | .search => "search"
  | .businessLogic => "business_logic"

/-- Methods that create, read, change and delete records. -/
def crudNames : List String := ["create", "write", "unlink", "read"]

/-- The kind that a name announces. -/
def ofName (name : String) : MethodKind :=
  if Text.startsWith name "_compute_" then .compute
  else if Text.startsWith name "_onchange_" then .onchange
  else if Text.startsWith name "_inverse_" then .inverse
  else if Text.startsWith name "_search_" then .search
  else if crudNames.contains name then .crud
  else .businessLogic

end MethodKind

structure MethodRecord where
  name : String
  kind : MethodKind
  /-- Parameters without the receiver. -/
  parameters : List String
  decorators : List String
  doc : Option String
  location : Location
deriving DecidableEq, Repr

/-- Drops `self` or `cls` in front, unless the function is static. -/
def withoutReceiver (decorators parameters : List String) : List String :=
  match parameters with
  | [] => []
  | receiver :: rest =>
    if (receiver == "self" || receiver == "cls") && !decorators.contains "staticmethod" then rest
    else receiver :: rest

def MethodRecord.ofDecl (path : String) (f : FunctionDecl) : MethodRecord where
  name := f.name
  kind := MethodKind.ofName f.name
  parameters := withoutReceiver f.decorators f.parameters
  decorators := f.decorators
  doc := f.docstring
  location := ⟨path, f.range⟩

/-- The methods of a class in the file at `path`. -/
def methodsOf (path : String) (c : ClassDecl) : List MethodRecord :=
  collectSearched MethodRecord.name (c.methods.map (MethodRecord.ofDecl path))

/-- A method that every model inherits from the framework. -/
structure FrameworkMethod where
  name : String
  kind : MethodKind
  parameters : List String
  description : String
deriving DecidableEq, Repr

def frameworkMethods : List FrameworkMethod := [
  ⟨"create", .crud, ["vals_list"], "Create new records from a list of value dictionaries."⟩,
  ⟨"write", .crud, ["vals"], "Update every record in the set with the given values."⟩,
  ⟨"unlink", .crud, [], "Delete the records in the set."⟩,
  ⟨"read", .crud, ["fields", "load"], "Read the requested fields of the records."⟩,
  ⟨"browse", .crud, ["ids"], "Return a recordset for the given ids."⟩,
  ⟨"exists", .crud, [], "Return the subset of records that still exist."⟩,
  ⟨"ensure_one", .crud, [], "Raise unless the set holds exactly one record."⟩,
  ⟨"copy", .crud, ["default"], "Duplicate the record, applying the given overrides."⟩,
  ⟨"search", .search, ["domain", "offset", "limit", "order"],
    "Return records matching the domain."⟩,
  ⟨"search_count", .search, ["domain", "limit"], "Count records matching the domain."⟩,
  ⟨"search_read", .search, ["domain", "fields", "offset", "limit", "order"],
    "Search, then read the given fields."⟩,
  ⟨"name_search", .search, ["name", "args", "operator", "limit"],
    "Search records by display name."⟩,
  ⟨"filtered", .businessLogic, ["func"],
    "Return the records satisfying a predicate or field path."⟩,
  ⟨"filtered_domain", .businessLogic, ["domain"], "Return the records satisfying a domain."⟩,
  ⟨"mapped", .businessLogic, ["func"], "Apply a function or field path to every record."⟩,
  ⟨"sorted", .businessLogic, ["key", "reverse"], "Return the set ordered by key."⟩,
  ⟨"sudo", .businessLogic, ["flag"], "Return the set in superuser mode."⟩,
  ⟨"with_context", .businessLogic, ["*args", "**kwargs"],
    "Return the set with an extended context."⟩,
  ⟨"with_user", .businessLogic, ["user"], "Return the set attached to another user."⟩,
  ⟨"with_company", .businessLogic, ["company"],
    "Return the set with another current company."⟩,
  ⟨"default_get", .businessLogic, ["fields_list"], "Return default values for the given fields."⟩,
  ⟨"fields_get", .businessLogic, ["allfields", "attributes"],
    "Return the definition of each field."⟩,
  ⟨"name_create", .businessLogic, ["name"], "Create a record from its display name only."⟩,
  ⟨"action_archive", .businessLogic, [], "Set active to False on the records."⟩,
  ⟨"action_unarchive", .businessLogic, [], "Set active to True on the records."⟩]

end ModelAtlas.Model
