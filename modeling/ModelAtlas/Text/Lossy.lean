/-!
# Reading bytes as text

`decodeLossy` reads bytes as UTF-8. Each longest run of bytes that starts a character but does not
finish one, and each byte that starts none, is read as one U+FFFD.
-/

namespace ModelAtlas.Text

/-- U+FFFD, which stands for bytes that are no character. -/
def replacement : Char := Char.ofNat 0xFFFD

/-- What a first byte allows: how many bytes follow it, and the bounds of the second byte. -/
def follow (b : Nat) : Option (Nat × Nat × Nat) :=
  if 0xC2 ≤ b && b ≤ 0xDF then some (1, 0x80, 0xBF)
  else if b == 0xE0 then some (2, 0xA0, 0xBF)
  else if b == 0xED then some (2, 0x80, 0x9F)
  else if 0xE1 ≤ b && b ≤ 0xEF then some (2, 0x80, 0xBF)
  else if b == 0xF0 then some (3, 0x90, 0xBF)
  else if 0xF1 ≤ b && b ≤ 0xF3 then some (3, 0x80, 0xBF)
  else if b == 0xF4 then some (3, 0x80, 0x8F)
  else none

/-- The value bits of a first byte with `n` bytes after it. -/
def headBits (b n : Nat) : Nat :=
  if n == 1 then b % 32 else if n == 2 then b % 16 else b % 8

/-- A character in the middle of its bytes: how many are missing, the bounds of the next, its value
so far. -/
structure Pending where
  missing : Nat
  low : Nat
  high : Nat
  value : Nat

/-- Reads one byte when no character is open. -/
def startByte (b : Nat) (out : List Char) : Option Pending × List Char :=
  if b < 0x80 then (none, Char.ofNat b :: out)
  else match follow b with
    | some (n, low, high) => (some ⟨n, low, high, headBits b n⟩, out)
    | none => (none, replacement :: out)

/-- Reads one byte; the characters read so far stand last first. -/
def stepByte (state : Option Pending × List Char) (byte : UInt8) : Option Pending × List Char :=
  let b := byte.toNat
  match state with
  | (none, out) => startByte b out
  | (some p, out) =>
    if p.low ≤ b && b ≤ p.high then
      let value := p.value * 64 + b % 64
      if p.missing == 1 then (none, Char.ofNat value :: out)
      else (some ⟨p.missing - 1, 0x80, 0xBF, value⟩, out)
    else startByte b (replacement :: out)

def decodeLossy (bytes : List UInt8) : String :=
  match bytes.foldl stepByte (none, []) with
  | (none, out) => String.ofList out.reverse
  | (some _, out) => String.ofList (replacement :: out).reverse

end ModelAtlas.Text
