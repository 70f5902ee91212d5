import ModelAtlas.Text.Decimal

/-!
# JSON values

Numbers keep apart what is written as an integer of 64 bits and what is not. The members of an
object stand in the order they were written in, repeated names included.
-/

namespace ModelAtlas.Json

inductive Number where
  | natural (n : Nat)
  /-- The integer `-n`. -/
  | negative (n : Nat)
  | float (x : Float)

inductive Value where
  | null
  | bool (b : Bool)
  | number (n : Number)
  | string (s : String)
  | array (items : List Value)
  | object (members : List (String × Value))
  /-- Something well formed that has no value. -/
  | unreadable

instance : Inhabited Value := ⟨.null⟩

namespace Value

/-- The last member of that name. -/
def get? (v : Value) (name : String) : Option Value :=
  match v with
  | .object members => (members.reverse.find? (·.1 == name)).map (·.2)
  | _ => none

def string? : Value → Option String
  | .string s => some s
  | _ => none

def natural? : Value → Option Nat
  | .number (.natural n) => some n
  | _ => none

def array? : Value → Option (List Value)
  | .array items => some items
  | _ => none

def members? : Value → Option (List (String × Value))
  | .object members => some members
  | _ => none

end Value

/-! ### Writing -/

def hexDigit (n : Nat) : Char := (Nat.toDigits 16 n).headD '0'

def escape (c : Char) : List Char :=
  if c == '"' || c == '\\' then ['\\', c]
  else if c == '\n' then ['\\', 'n']
  else if c == '\r' then ['\\', 'r']
  else if c == '\t' then ['\\', 't']
  else if c.toNat < 32 then ['\\', 'u', '0', '0', hexDigit (c.toNat / 16), hexDigit (c.toNat % 16)]
  else [c]

def renderString (s : String) : String := String.ofList ('"' :: s.toList.flatMap escape ++ ['"'])

def Number.render : Number → String
  | .natural n => toString n
  | .negative n => "-" ++ toString n
  | .float x => Text.floatText x

mutual
/-- A value without blanks. -/
def Value.render : Value → String
  | .null | .unreadable => "null"
  | .bool b => if b then "true" else "false"
  | .number n => n.render
  | .string s => renderString s
  | .array items => "[" ++ renderItems items ++ "]"
  | .object members => "\x7b" ++ renderMembers members ++ "\x7d"
def renderItems : List Value → String
  | [] => ""
  | [v] => v.render
  | v :: rest => v.render ++ "," ++ renderItems rest
def renderMembers : List (String × Value) → String
  | [] => ""
  | [(name, v)] => renderString name ++ ":" ++ v.render
  | (name, v) :: rest => renderString name ++ ":" ++ v.render ++ "," ++ renderMembers rest
end

end ModelAtlas.Json
