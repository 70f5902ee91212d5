/-!
# Shortest decimals

`shortest` gives the fewest decimal digits that read back as a binary floating point number. The
number is `m * 2 ^ q` with integers `m` and `q`; all arithmetic is exact.
-/

namespace ModelAtlas.Text

/-- A finite number without its sign: `digits`, read as an integer, times `10 ^ exponent`. -/
structure Decimal where
  digits : Nat
  exponent : Int
deriving DecidableEq, Repr

/-- A magnitude `mantissa * 2 ^ exponent`. -/
structure Binary where
  mantissa : Nat
  exponent : Int
deriving DecidableEq, Repr

/-- The magnitude with these bits in the 64-bit format. -/
def Binary.ofBits (bits : Nat) : Binary :=
  let fraction := bits % Nat.pow 2 52
  let power := bits / Nat.pow 2 52 % Nat.pow 2 11
  if power = 0 then ⟨fraction, -1074⟩ else ⟨Nat.pow 2 52 + fraction, Int.ofNat power - 1075⟩

/-- `a * 2 ^ q` and `b * 10 ^ e` over one common factor. -/
def commonScale (a : Nat) (q : Int) (b : Nat) (e : Int) : Nat × Nat :=
  (a * Nat.pow 2 q.toNat * Nat.pow 10 (-e).toNat, b * Nat.pow 10 e.toNat * Nat.pow 2 (-q).toNat)

/-- The ends of the interval of reals that round to the number, in units of `2 ^ exponent / 4`. The
neighbour below is nearer where the exponent changes. -/
def Binary.interval (x : Binary) : Nat × Nat :=
  let below := if x.mantissa = Nat.pow 2 52 && -1074 < x.exponent then 1 else 2
  (4 * x.mantissa - below, 4 * x.mantissa + 2)

/-- Whether `digits * 10 ^ e` is rounded to `x`. An end of the interval counts if the mantissa is
even. -/
def Binary.reads (x : Binary) (digits : Nat) (e : Int) : Bool :=
  let (low, high) := x.interval
  let (l, d) := commonScale low x.exponent (4 * digits) e
  let (h, _) := commonScale high x.exponent (4 * digits) e
  if x.mantissa % 2 = 0 then l ≤ d && d ≤ h else l < d && d < h

/-- The neighbours of `x` on the grid of multiples of `10 ^ e`: the greatest not above it, and
whether the next one is nearer. -/
def Binary.grid (x : Binary) (e : Int) : Nat × Bool :=
  let (a, b) := commonScale x.mantissa x.exponent 1 e
  (a / b, b < 2 * (a % b) || (2 * (a % b) = b && a / b % 2 = 1))

/-- A member of the grid of multiples of `10 ^ e` that reads back, the nearer one first. -/
def Binary.onGrid (x : Binary) (e : Int) : Option Nat :=
  let (down, up) := x.grid e
  let first := if up then down + 1 else down
  let second := if up then down else down + 1
  if x.reads first e then some first else if x.reads second e then some second else none

/-- Tries grids from coarse to fine. -/
def Binary.search (x : Binary) : Nat → Int → Decimal
  | 0, e => ⟨(x.grid e).1, e⟩
  | n + 1, e =>
    match x.onGrid e with
    | some d => ⟨d, e⟩
    | none => Binary.search x n (e - 1)

/-- Zeros at the end of the digits belong to the exponent. -/
def Decimal.normalize : Nat → Decimal → Decimal
  | 0, d => d
  | n + 1, d =>
    if d.digits ≠ 0 && d.digits % 10 = 0 then Decimal.normalize n ⟨d.digits / 10, d.exponent + 1⟩
    else d

/-- The fewest digits that read back as `x`. -/
def Binary.shortest (x : Binary) : Decimal :=
  if x.mantissa = 0 then ⟨0, 0⟩ else Decimal.normalize 400 (x.search 700 310)

/-- An exponent with its sign. -/
def exponentText (e : Int) : String := (if e < 0 then "-" else "+") ++ toString e.natAbs

/-- Positional between `10 ^ -5` and `10 ^ 16`, always with a point; otherwise with an exponent. -/
def Decimal.text (d : Decimal) : String :=
  let cs := toString d.digits
  let len : Int := cs.length
  let point := len + d.exponent
  if 0 ≤ d.exponent && point ≤ 16 then
    cs ++ String.ofList (List.replicate d.exponent.toNat '0') ++ ".0"
  else if 0 < point && point ≤ 16 then
    String.ofList (cs.toList.take point.toNat) ++ "." ++ String.ofList (cs.toList.drop point.toNat)
  else if -5 < point && point ≤ 0 then
    "0." ++ String.ofList (List.replicate (-point).toNat '0') ++ cs
  else
    match cs.toList with
    | [c] => String.ofList [c] ++ "e" ++ exponentText (point - 1)
    | c :: rest => String.ofList (c :: '.' :: rest) ++ "e" ++ exponentText (point - 1)
    | [] => ""

/-- A finite floating point number with the fewest digits. -/
def floatText (x : Float) : String :=
  let bits := x.toBits.toNat
  let sign := if bits / Nat.pow 2 63 = 1 then "-" else ""
  sign ++ (Binary.ofBits (bits % Nat.pow 2 63)).shortest.text

end ModelAtlas.Text
