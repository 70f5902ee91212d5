import ModelAtlas.Source.Location

/-!
# Cursors

A `Cursor` is a place in a source text together with the text that follows it. Two cursors of one
source are told apart by their offsets.
-/

namespace ModelAtlas.Source

structure Cursor where
  mark : Mark := {}
  rest : List Char := []
deriving Repr, Inhabited

namespace Cursor

/-- The start of a text. -/
def ofText (source : List Char) : Cursor := ⟨{}, source⟩

def offset (c : Cursor) : Nat := c.mark.offset

/-- The cursor behind the next character; the end stays where it is. -/
def next (c : Cursor) : Cursor :=
  match c.rest with
  | [] => c
  | x :: rest => ⟨c.mark.next x, rest⟩

/-- Goes past a number of characters of a text that starts at a mark. -/
def advance : Nat → Mark → List Char → Cursor
  | 0, m, rest => ⟨m, rest⟩
  | _ + 1, m, [] => ⟨m, []⟩
  | n + 1, m, x :: rest => advance n (m.next x) rest

def skip (c : Cursor) (n : Nat) : Cursor := advance n c.mark c.rest

/-- Goes past the characters that satisfy `p`. -/
def skipWhile (p : Char → Bool) : Mark → List Char → Cursor
  | m, [] => ⟨m, []⟩
  | m, x :: rest => if p x then skipWhile p (m.next x) rest else ⟨m, x :: rest⟩

def dropWhile (c : Cursor) (p : Char → Bool) : Cursor := skipWhile p c.mark c.rest

/-- Takes characters behind others, which stand last first, as long as some bytes are left. -/
def takeBytes (taken : List Char) : Nat → List Char → List Char
  | _, [] => taken.reverse
  | left, x :: rest =>
    if left = 0 then taken.reverse else takeBytes (x :: taken) (left - x.utf8Size) rest

/-- The text from here up to a later mark. -/
def textUpTo (c : Cursor) (stop : Mark) : String :=
  String.ofList (takeBytes [] (stop.offset - c.offset) c.rest)

end Cursor

end ModelAtlas.Source
