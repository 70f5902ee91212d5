/-!
# Places in a source text

A `Mark` follows a reader through a text. What is reported of it is a `Position`, a line and a
column counted from zero, the column in bytes.
-/

namespace ModelAtlas.Source

/-- Bytes read so far, and the line and column reached. -/
structure Mark where
  offset : Nat := 0
  line : Nat := 0
  column : Nat := 0
deriving DecidableEq, Repr, Inhabited

/-- The mark after one more character. -/
def Mark.next (m : Mark) (c : Char) : Mark :=
  if c = '\n' then { offset := m.offset + 1, line := m.line + 1, column := 0 }
  else { m with offset := m.offset + c.utf8Size, column := m.column + c.utf8Size }

structure Position where
  line : Nat := 0
  character : Nat := 0
deriving DecidableEq, Repr, Inhabited

namespace Position

/-- Earlier line first, then smaller column. -/
def le (a b : Position) : Bool :=
  a.line < b.line || (a.line == b.line && a.character ≤ b.character)

end Position

def Mark.position (m : Mark) : Position := ⟨m.line, m.column⟩

structure Range where
  start : Position := {}
  stop : Position := {}
deriving DecidableEq, Repr, Inhabited

/-- Bytes from `start` up to, not including, `stop`. -/
structure ByteRange where
  start : Nat := 0
  stop : Nat := 0
deriving DecidableEq, Repr, Inhabited

/-- Two marks: where something starts and where it ends. -/
structure Span where
  start : Mark := {}
  stop : Mark := {}
deriving DecidableEq, Repr, Inhabited

def Span.range (s : Span) : Range := ⟨s.start.position, s.stop.position⟩
def Span.bytes (s : Span) : ByteRange := ⟨s.start.offset, s.stop.offset⟩

/-- A range in the file at `path`. -/
structure Location where
  path : String
  range : Range := {}
deriving DecidableEq, Repr, Inhabited

/-- `path:line:column`, line and column counted from one. -/
def Location.display (l : Location) : String :=
  l.path ++ ":" ++ toString (l.range.start.line + 1) ++ ":" ++
    toString (l.range.start.character + 1)

end ModelAtlas.Source
