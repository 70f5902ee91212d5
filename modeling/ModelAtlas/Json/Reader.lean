import ModelAtlas.Json.Value

/-!
# Reading JSON

`parse` reads one value and nothing behind it but blanks. It looks at bytes: a character below 256
stands for one byte throughout this module. A string or a number that is well formed but has no
value, like half a surrogate pair or a number beyond the largest, is read as `Value.unreadable`; so
is an object with such a name.
-/

namespace ModelAtlas.Json

def isGap (c : Char) : Bool := c == ' ' || c == '\t' || c == '\n' || c == '\r'

def skip (cs : List Char) : List Char := cs.dropWhile isGap

/-! ### Strings -/

/-- A part of a string: a byte as it stands, or 16 bits behind `\u`. -/
inductive Piece where
  | byte (c : Char)
  | unit (n : Nat)
deriving DecidableEq, Repr

def hexValue (c : Char) : Option Nat :=
  if '0' ≤ c && c ≤ '9' then some (c.toNat - 48)
  else if 'a' ≤ c && c ≤ 'f' then some (c.toNat - 87)
  else if 'A' ≤ c && c ≤ 'F' then some (c.toNat - 55)
  else none

/-- The value of four hexadecimal digits. -/
def hexUnit (a b c d : Char) : Option Nat := do
  return (((← hexValue a) * 16 + (← hexValue b)) * 16 + (← hexValue c)) * 16 + (← hexValue d)

def plainEscape (c : Char) : Option Char :=
  if c == '"' || c == '\\' || c == '/' then some c
  else if c == 'b' then some '\x08'
  else if c == 'f' then some '\x0c'
  else if c == 'n' then some '\n'
  else if c == 'r' then some '\r'
  else if c == 't' then some '\t'
  else none

/-- A string from behind its opening quote; the pieces read so far stand last first. -/
def readPieces (out : List Piece) : List Char → Option (List Piece × List Char)
  | [] => none
  | '"' :: rest => some (out.reverse, rest)
  | '\\' :: 'u' :: a :: b :: c :: d :: rest =>
    match hexUnit a b c d with
    | some n => readPieces (.unit n :: out) rest
    | none => none
  | '\\' :: c :: rest =>
    match plainEscape c with
    | some d => readPieces (.byte d :: out) rest
    | none => none
  | c :: rest => if c.toNat < 32 || c == '\\' then none else readPieces (.byte c :: out) rest

def isHigh (n : Nat) : Bool := 0xD800 ≤ n && n < 0xDC00
def isLow (n : Nat) : Bool := 0xDC00 ≤ n && n < 0xE000

/-- The character of two halves. -/
def joinUnits (high low : Nat) : Char :=
  Char.ofNat (0x10000 + (high - 0xD800) * 1024 + (low - 0xDC00))

/-- The bytes that some pieces spell, unless one is half a character. -/
def bytesOf : List Piece → Option (List UInt8)
  | [] => some []
  | .byte c :: rest => (bytesOf rest).map (c.toNat.toUInt8 :: ·)
  | .unit high :: .unit low :: rest =>
    if isHigh high && isLow low then
      (bytesOf rest).map (String.utf8EncodeChar (joinUnits high low) ++ ·)
    else if isHigh high || isLow high then none
    else (bytesOf (.unit low :: rest)).map (String.utf8EncodeChar (Char.ofNat high) ++ ·)
  | .unit n :: rest =>
    if isHigh n || isLow n then none
    else (bytesOf rest).map (String.utf8EncodeChar (Char.ofNat n) ++ ·)

/-- The text of a string, if its bytes are one. -/
def textOf (pieces : List Piece) : Option String :=
  (bytesOf pieces).bind fun bytes => String.fromUTF8? ⟨bytes.toArray⟩

/-! ### Numbers -/

def digitsValue (cs : List Char) : Nat := cs.foldl (fun n c => n * 10 + (c.toNat - 48)) 0

/-- A nonempty run of digits. -/
def readDigits (cs : List Char) : Option (List Char × List Char) :=
  match cs.takeWhile Char.isDigit with
  | [] => none
  | ds => some (ds, cs.dropWhile Char.isDigit)

/-- The digits in front of the point: no zero stands before another digit. -/
def readWhole (cs : List Char) : Option (List Char × List Char) :=
  match readDigits cs with
  | some ('0' :: _ :: _, _) => none
  | other => other

def readFraction : List Char → Option (List Char × List Char)
  | '.' :: rest => readDigits rest
  | rest => some ([], rest)

/-- The exponent, if one is written. -/
def readExponent : List Char → Option (Option Int × List Char)
  | [] => some (none, [])
  | c :: rest =>
    if c == 'e' || c == 'E' then
      let (negative, rest) := match rest with
        | '-' :: r => (true, r)
        | '+' :: r => (false, r)
        | r => (false, r)
      (readDigits rest).map fun (ds, rest) =>
        let n : Int := digitsValue ds
        (some (if negative then -n else n), rest)
    else some (none, c :: rest)

/-- Takes digits into a significand as long as it has 64 bits, and counts those left over. -/
def fill (significand : Nat) : List Char → Nat × Nat
  | [] => (significand, 0)
  | d :: rest =>
    let next := significand * 10 + (d.toNat - 48)
    if next < Nat.pow 2 64 then fill next rest else (significand, rest.length + 1)

/-- The greatest power of ten below infinity. -/
def maxPower : Nat := 308

/-- `x * 10 ^ exponent` with one rounding for each step of at most `maxPower`, if it is finite. -/
def scale : Nat → Float → Int → Option Float
  | 0, x, _ => some x
  | fuel + 1, x, exponent =>
    if exponent.natAbs ≤ maxPower then
      let power := Float.ofScientific 1 false exponent.natAbs
      let y := if 0 ≤ exponent then x * power else x / power
      if y.isFinite then some y else none
    else if x == 0.0 then some x
    else if 0 ≤ exponent then none
    else scale fuel (x / Float.ofScientific 1 false maxPower) (exponent + maxPower)

/-- A floating point number from its digits: those beyond 64 bits only count as places. -/
def floatOf (negative : Bool) (whole fraction : List Char) (exponent : Int) : Option Number :=
  let (significand, places) := fill 0 whole
  let (significand, unused) := fill significand fraction
  let point : Int := places - (fraction.length - unused : Nat)
  (scale 4 significand.toUInt64.toFloat (point + exponent)).map fun x =>
    .float (if negative then -x else x)

/-- An integer of 64 bits, or a floating point number near it. -/
def numberOf (negative : Bool) (whole fraction : List Char) (exponent : Option Int) :
    Option Number :=
  let plain := fraction.isEmpty && exponent.isNone
  let n := digitsValue whole
  if plain && !negative && n < Nat.pow 2 64 then some (.natural n)
  else if plain && negative && 0 < n && n ≤ Nat.pow 2 63 then some (.negative n)
  else floatOf negative whole fraction (exponent.getD 0)

def readNumber (cs : List Char) : Option (Value × List Char) := do
  let (negative, cs) := match cs with
    | '-' :: rest => (true, rest)
    | rest => (false, rest)
  let (whole, cs) ← readWhole cs
  let (fraction, cs) ← readFraction cs
  let (exponent, cs) ← readExponent cs
  match numberOf negative whole fraction exponent with
  | some n => return (.number n, cs)
  | none => return (.unreadable, cs)

/-! ### Values -/

def stringOf (pieces : List Piece) : Value :=
  match textOf pieces with
  | some s => .string s
  | none => .unreadable

/-- An object of these members, if all their names are texts. -/
def objectOf (members : List (List Piece × Value)) : Value :=
  match members.mapM fun (pieces, v) => (textOf pieces).map (·, v) with
  | some members => .object members
  | none => .unreadable

/-- Reads a fixed word. -/
def readWord (word : String) (v : Value) (cs : List Char) : Option (Value × List Char) :=
  if word.toList.isPrefixOf cs then some (v, cs.drop word.length) else none

mutual
/-- Reads a value; `fuel` bounds the steps. -/
def readValue (fuel : Nat) (cs : List Char) : Option (Value × List Char) :=
  match fuel with
  | 0 => none
  | fuel + 1 =>
    match skip cs with
    | [] => none
    | 'n' :: rest => readWord "null" .null ('n' :: rest)
    | 't' :: rest => readWord "true" (.bool true) ('t' :: rest)
    | 'f' :: rest => readWord "false" (.bool false) ('f' :: rest)
    | '"' :: rest => (readPieces [] rest).map fun (pieces, rest) => (stringOf pieces, rest)
    | '[' :: rest =>
      match skip rest with
      | ']' :: rest => some (.array [], rest)
      | rest => (readItems fuel rest).map fun (items, rest) => (.array items, rest)
    | '\x7b' :: rest =>
      match skip rest with
      | '\x7d' :: rest => some (.object [], rest)
      | rest => (readMembers fuel rest).map fun (members, rest) => (objectOf members, rest)
    | rest => readNumber rest
/-- The items of an array up to its bracket. -/
def readItems (fuel : Nat) (cs : List Char) : Option (List Value × List Char) :=
  match fuel with
  | 0 => none
  | fuel + 1 =>
    match readValue fuel cs with
    | none => none
    | some (v, rest) =>
      match skip rest with
      | ']' :: rest => some ([v], rest)
      | ',' :: rest => (readItems fuel rest).map fun (vs, rest) => (v :: vs, rest)
      | _ => none
/-- The members of an object up to its brace. -/
def readMembers (fuel : Nat) (cs : List Char) : Option (List (List Piece × Value) × List Char) :=
  match fuel with
  | 0 => none
  | fuel + 1 =>
    match skip cs with
    | '"' :: rest =>
      match readPieces [] rest with
      | none => none
      | some (name, rest) =>
        match skip rest with
        | ':' :: rest =>
          match readValue fuel rest with
          | none => none
          | some (v, rest) =>
            match skip rest with
            | '\x7d' :: rest => some ([(name, v)], rest)
            | ',' :: rest => (readMembers fuel rest).map fun (vs, rest) => ((name, v) :: vs, rest)
            | _ => none
        | _ => none
    | _ => none
end

/-- The value that some bytes spell, if they are well formed. -/
def parse (bytes : List UInt8) : Option Value :=
  let cs := bytes.map fun b => Char.ofNat b.toNat
  match readValue (2 * cs.length + 2) cs with
  | some (v, rest) => if (skip rest).isEmpty then some v else none
  | none => none

end ModelAtlas.Json
