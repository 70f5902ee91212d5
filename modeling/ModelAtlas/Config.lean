import ModelAtlas.Files.Tree
import ModelAtlas.Json.Reader
import ModelAtlas.Text.Quoted

/-!
# Configuration

What a project may set, read from JSON. Every section and every setting may be left out or be null;
unknown ones are skipped. A section may also be an array of its settings in order.
-/

namespace ModelAtlas

open Json

structure IndexConfig where
  /-- Further directories to scan. -/
  roots : Option (List String) := none
  readyTimeoutMs : Option Nat := none
  workers : Option Nat := none
deriving DecidableEq, Repr, Inhabited

structure FieldsConfig where
  waitMs : Option Nat := none
deriving DecidableEq, Repr, Inhabited

structure Config where
  index : Option IndexConfig := none
  fields : Option FieldsConfig := none
deriving DecidableEq, Repr, Inhabited

namespace Config

/-- The name of the configuration file of a project. -/
def configFile : String := ".odoo_index.json"

/-! ### What can be wrong -/

/-- What was found instead of something else. -/
inductive Found where
  | null
  | bool (b : Bool)
  | number (n : Number)
  | string (s : String)
  | sequence
  | map
  | unreadable

inductive ConfigError where
  | wrongType (found : Found) (expected : String)
  | wrongValue (found : Found) (expected : String)
  | wrongLength (length : Nat) (expected : String)
  | duplicate (name : String)

def Found.ofValue : Value → Found
  | .null => .null
  | .bool b => .bool b
  | .number n => .number n
  | .string s => .string s
  | .array _ => .sequence
  | .object _ => .map
  | .unreadable => .unreadable

def Found.text : Found → String
  | .null => "null"
  | .bool b => "boolean `" ++ (if b then "true" else "false") ++ "`"
  | .number (.float x) => "floating point `" ++ Text.floatText x ++ "`"
  | .number n => "integer `" ++ n.render ++ "`"
  | .string s => "string " ++ Text.quote s
  | .sequence => "sequence"
  | .map => "map"
  | .unreadable => "unreadable value"

/-- What is said about a configuration that is refused. -/
def ConfigError.message (e : ConfigError) : String :=
  "invalid configuration: " ++ match e with
    | .wrongType found expected => "invalid type: " ++ found.text ++ ", expected " ++ expected
    | .wrongValue found expected => "invalid value: " ++ found.text ++ ", expected " ++ expected
    | .wrongLength length expected =>
      "invalid length " ++ toString length ++ ", expected " ++ expected
    | .duplicate name => "duplicate field `" ++ name ++ "`"

/-! ### Decoding -/

abbrev Decoder (α : Type) := Value → Except ConfigError α

/-- Null, or something else. -/
def optional {α : Type} (decode : Decoder α) : Decoder (Option α)
  | .null => .ok none
  | v => (decode v).map some

/-- A natural number of 64 bits. -/
def natural (expected : String) : Decoder Nat
  | .number (.natural n) => .ok n
  | .number (.negative n) => .error (.wrongValue (.number (.negative n)) expected)
  | v => .error (.wrongType (.ofValue v) expected)

def text : Decoder String
  | .string s => .ok s
  | v => .error (.wrongType (.ofValue v) "a string")

def texts : Decoder (List String)
  | .array items => items.mapM text
  | v => .error (.wrongType (.ofValue v) "a sequence")

/-- A setting of a section: its name, and how its value changes the section. -/
structure Setting (σ : Type) where
  name : String
  set : σ → Value → Except ConfigError σ

/-- Takes the members of an object in order. No setting may occur twice. -/
def fromMembers {σ : Type} (settings : List (Setting σ)) :
    List String → σ → List (String × Value) → Except ConfigError σ
  | _, s, [] => .ok s
  | seen, s, (name, v) :: rest =>
    match settings.find? (·.name == name) with
    | none => fromMembers settings seen s rest
    | some setting =>
      if seen.contains name then .error (.duplicate name)
      else match setting.set s v with
        | .error e => .error e
        | .ok s => fromMembers settings (name :: seen) s rest

/-- Takes the items of an array, one for each setting. -/
def fromItems {σ : Type} (expected : String) (total : Nat) :
    Nat → List (Setting σ) → σ → List Value → Except ConfigError σ
  | _, [], s, [] => .ok s
  | _, [], _, _ :: _ => .error (.wrongLength total "fewer elements in array")
  | n, _ :: _, _, [] => .error (.wrongLength n expected)
  | n, setting :: settings, s, v :: rest =>
    match setting.set s v with
    | .error e => .error e
    | .ok s => fromItems expected total (n + 1) settings s rest

/-- A section of that name. -/
def sectionOf {σ : Type} (name : String) (settings : List (Setting σ)) (empty : σ) : Decoder σ
  | .object members => fromMembers settings [] empty members
  | .array items =>
    let count := settings.length
    let elements := if count == 1 then " element" else " elements"
    fromItems ("struct " ++ name ++ " with " ++ toString count ++ elements) items.length 0 settings
      empty items
  | v => .error (.wrongType (.ofValue v) ("struct " ++ name))

def indexSection : Decoder IndexConfig := sectionOf "IndexConfig" [
  ⟨"roots", fun s v => (optional texts v).map fun r => { s with roots := r }⟩,
  ⟨"ready_timeout_ms", fun s v => (optional (natural "u64") v).map fun n =>
    { s with readyTimeoutMs := n }⟩,
  ⟨"workers", fun s v => (optional (natural "usize") v).map fun n => { s with workers := n }⟩] {}

def fieldsSection : Decoder FieldsConfig := sectionOf "FieldsConfig" [
  ⟨"wait_ms", fun s v => (optional (natural "u64") v).map fun n => { s with waitMs := n }⟩] {}

def decode : Decoder Config := sectionOf "Config" [
  ⟨"index", fun s v => (optional indexSection v).map fun i => { s with index := i }⟩,
  ⟨"fields", fun s v => (optional fieldsSection v).map fun f => { s with fields := f }⟩] {}

/-! ### Sources -/

/-- Takes a member into an object ordered by name, in place of one of its name. -/
def insertMember (member : String × Value) : List (String × Value) → List (String × Value)
  | [] => [member]
  | m :: rest =>
    match compare member.1 m.1 with
    | .lt => member :: m :: rest
    | .eq => member :: rest
    | .gt => m :: insertMember member rest

mutual
/-- Objects ordered by name, with the last member of each. -/
def sorted : Value → Value
  | .array items => .array (sortedItems items)
  | .object members => .object (sortedMembers members [])
  | v => v
def sortedItems : List Value → List Value
  | [] => []
  | v :: rest => sorted v :: sortedItems rest
def sortedMembers : List (String × Value) → List (String × Value) → List (String × Value)
  | [], out => out
  | (name, v) :: rest, out => sortedMembers rest (insertMember (name, sorted v) out)
end

/-- The configuration that a JSON value describes. -/
def ofJson (v : Value) : Except ConfigError Config := decode (sorted v)

/-- The configuration that some bytes spell, if they do. -/
def ofBytes? (bytes : List UInt8) : Option Config :=
  match Json.parse bytes with
  | none => none
  | some v => (decode v).toOption

/-- The configuration of the project at `root`; the default if it has none that can be read. -/
def load (t : Files.Tree) (root : String) : Config :=
  match t.readBytes (Files.joinText root configFile) with
  | .error _ => {}
  | .ok content => (ofBytes? content).getD {}

end Config

end ModelAtlas
