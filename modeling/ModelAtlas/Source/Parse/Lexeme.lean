import ModelAtlas.Source.Grammar.Rule
import ModelAtlas.Text.NameChars

/-!
# Lexemes

How many characters at the start of a text a pattern takes. Each pattern takes as many as it can.
Patterns that depend on the layout are read elsewhere and take nothing here.
-/

namespace ModelAtlas.Source.Parse

open Grammar (Pattern)

/-! ### Numbers -/

def isHexDigit (c : Char) : Bool :=
  c.isDigit || ('a' ≤ c && c ≤ 'f') || ('A' ≤ c && c ≤ 'F')

def isOctalDigit (c : Char) : Bool := '0' ≤ c && c ≤ '7'
def isBinaryDigit (c : Char) : Bool := c == '0' || c == '1'

/-- Digits, and single underscores behind digits. -/
def digitsLength (afterDigit : Bool) : List Char → Nat
  | [] => 0
  | c :: rest =>
    if c.isDigit then digitsLength true rest + 1
    else if c == '_' && afterDigit then digitsLength false rest + 1
    else 0

/-- Digits of some base, and single underscores in front of digits. -/
def radixLength (isDigit : Char → Bool) : List Char → Nat
  | '_' :: c :: rest => if isDigit c then radixLength isDigit rest + 2 else 0
  | c :: rest => if isDigit c then radixLength isDigit rest + 1 else 0
  | [] => 0

/-- One if the text starts with one of some characters. -/
def oneOfLength (chars : String) : List Char → Nat
  | [] => 0
  | c :: _ => if chars.toList.contains c then 1 else 0

def decimalLength (s : List Char) : Nat :=
  let n := digitsLength false s
  if n = 0 then 0 else n + oneOfLength "LljJ" (s.drop n)

def prefixedLength (isDigit : Char → Bool) (s : List Char) : Nat :=
  let n := radixLength isDigit (s.drop 2)
  if n = 0 then 0 else n + 2 + oneOfLength "Ll" (s.drop (n + 2))

def integerLength (s : List Char) : Nat :=
  let based :=
    match s with
    | '0' :: x :: _ =>
      if x == 'x' || x == 'X' then prefixedLength isHexDigit s
      else if x == 'o' || x == 'O' then prefixedLength isOctalDigit s
      else if x == 'b' || x == 'B' then prefixedLength isBinaryDigit s
      else 0
    | _ => 0
  if based = 0 then decimalLength s else based

/-- An exponent, or nothing if no digit follows. -/
def exponentLength (s : List Char) : Nat :=
  let mark := oneOfLength "eE" s
  let sign := mark + oneOfLength "+-" (s.drop mark)
  let n := digitsLength false (s.drop sign)
  if mark = 0 || n = 0 then 0 else sign + n

def floatLength (s : List Char) : Nat :=
  let whole := digitsLength false s
  let point := oneOfLength "." (s.drop whole)
  let fraction := if point = 0 then 0 else digitsLength false (s.drop (whole + 1))
  let mantissa := whole + point + fraction
  let exponent := exponentLength (s.drop mantissa)
  if whole + fraction = 0 || point + exponent = 0 then 0
  else mantissa + exponent + oneOfLength "jJ" (s.drop (mantissa + exponent))

/-! ### Backslashes -/

/-- A number of characters of a class, or nothing. -/
def exactly (n : Nat) (p : Char → Bool) (s : List Char) : Nat :=
  if (s.take n).length = n && (s.take n).all p then n else 0

def lineBreakLength : List Char → Nat
  | '\n' :: _ => 1
  | '\r' :: '\n' :: _ => 2
  | _ => 0

/-- A character's name in braces. -/
def charNameLength : List Char → Nat
  | '\x7b' :: rest =>
    let name := (rest.takeWhile (· != '\x7d')).length
    if name = 0 || name = rest.length then 0 else name + 2
  | _ => 0

/-- What a backslash in a string gives a meaning to. -/
def escapedLength (s : List Char) : Nat :=
  match s with
  | [] => 0
  | c :: rest =>
    let after (n : Nat) := if n = 0 then 0 else n + 1
    if c == 'u' then after (exactly 4 isHexDigit rest)
    else if c == 'U' then after (exactly 8 isHexDigit rest)
    else if c == 'x' then after (exactly 2 isHexDigit rest)
    else if c == 'N' then after (charNameLength rest)
    else if c.isDigit then exactly 3 Char.isDigit s
    else if "'\"abfrntv\\".toList.contains c then 1
    else lineBreakLength s

/-! ### Patterns -/

def wordLength : List Char → Nat
  | [] => 0
  | c :: rest => if Text.isNameStart c then (rest.takeWhile Text.isNamePart).length + 1 else 0

/-- A backslash and some characters behind it, unless there are none. -/
def behindBackslash (length : List Char → Nat) : List Char → Nat
  | '\\' :: rest => if length rest = 0 then 0 else length rest + 1
  | _ => 0

/-- How many characters a pattern takes at the start of a text. -/
def lexemeLength : Pattern → List Char → Nat
  | .sign spelling, s => if spelling.toList.isPrefixOf s then spelling.length else 0
  | .identifier, s => wordLength s
  | .integer, s => integerLength s
  | .float, s => floatLength s
  | .comment, s =>
    match s with
    | '#' :: rest => (rest.takeWhile (· != '\n')).length + 1
    | _ => 0
  | .joint, s =>
    behindBackslash (fun r => if r.head? = some '\x00' then 1 else lineBreakLength r) s
  | .escape, s => behindBackslash escapedLength s
  | .backslash, s => if s.head? = some '\\' then 1 else 0
  | .formatText, s =>
    (s.takeWhile fun c => c != '\x7b' && c != '\x7d' && c != '\n').length
  | .conversion, s =>
    match s with
    | '!' :: c :: _ => if 'a' ≤ c && c ≤ 'z' then 2 else 0
    | _ => 0
  | _, _ => 0

end ModelAtlas.Source.Parse
