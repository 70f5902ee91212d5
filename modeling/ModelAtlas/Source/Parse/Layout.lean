import ModelAtlas.Source.Cursor
import ModelAtlas.Source.Grammar.Rule

/-!
# Layout

Line ends, indentation and strings depend on more than the characters in front of the reader: on
the indentation of the bodies around, on the strings that are open, and on what the grammar can use.
`Layout.scan` reads one of these terminals, if one is there, and gives the layout behind it.
-/

namespace ModelAtlas.Source.Parse

open Grammar (Terminal)

/-- An open string. -/
structure Delimiter where
  mark : Char
  /-- Whether it has replacement fields. -/
  format : Bool := false
  raw : Bool := false
  bytes : Bool := false
  triple : Bool := false
deriving DecidableEq, Repr

structure Layout where
  /-- Columns of the bodies around, innermost first. -/
  indents : List Nat := [0]
  /-- Open strings, innermost first. -/
  strings : List Delimiter := []
  /-- Whether the string opened last has replacement fields. -/
  inFormat : Bool := false
deriving DecidableEq, Repr, Inhabited

/-- The terminals that the grammar can use, as far as the layout asks for them. -/
structure Wanted where
  newline : Bool
  indent : Bool
  dedent : Bool
  stringStart : Bool
  stringText : Bool
  doubledBrace : Bool
  /-- A closing bracket. -/
  closing : Bool
  /-- The word `except`. -/
  handler : Bool
deriving Repr

namespace Wanted

/-- No place in the grammar wants both of these: it is an error that wants them. -/
def afterError (w : Wanted) : Bool := w.stringText && w.indent

/-- Whether comments in front of a line matter. -/
def atLine (w : Wanted) : Bool := w.indent || w.dedent || w.newline || w.handler

end Wanted

/-- A terminal read from the layout. -/
structure Scanned where
  terminal : Terminal
  start : Cursor
  stop : Cursor
  layout : Layout
deriving Repr

/-! ### Inside strings -/

/-- How the text of a string goes on. -/
inductive TextEnd where
  /-- There is text up to here. -/
  | text (stop : Cursor)
  /-- The string ends here, without text before. -/
  | closed (stop : Cursor)
  /-- There is nothing to read. -/
  | nothing
  /-- The source ends. -/
  | through (stop : Cursor)
deriving Repr

namespace Delimiter

/-- Text up to here, if there is any. -/
def textIf (has : Bool) (stop : Cursor) : TextEnd := if has then .text stop else .nothing

/-- How many characters a backslash takes along in a raw string, itself included. -/
def rawEscape (d : Delimiter) (s : List Char) : Nat :=
  let quoted :=
    match s with
    | c :: _ => if c == d.mark || c == '\\' then 1 else 0
    | [] => 0
  let lineBreak :=
    match s.drop quoted with
    | '\r' :: '\n' :: _ => 2
    | '\r' :: _ => 1
    | '\n' :: _ => 1
    | _ => 0
  quoted + lineBreak + 1

/-- The closing quotes of a string, or quotes in its text. -/
def atQuote (d : Delimiter) (has : Bool) (c : Cursor) : TextEnd :=
  if d.triple then
    match c.rest with
    | _ :: x :: y :: _ =>
      if x == d.mark then
        if y == d.mark then (if has then .text c else .closed (c.skip 3)) else .text (c.skip 2)
      else .text (c.skip 1)
    | _ :: x :: _ => if x == d.mark then .text (c.skip 2) else .text (c.skip 1)
    | _ => .text (c.skip 1)
  else if has then .text c
  else .closed (c.skip 1)

/-- Reads on in the text of a string; `has` tells whether text has been read. -/
def readText (d : Delimiter) : Nat → Bool → Cursor → TextEnd
  | 0, _, c => .through c
  | fuel + 1, has, c =>
    match c.rest with
    | [] => .through c
    | x :: rest =>
      if x == '\x00' then .through c
      else if d.format && (x == '\x7b' || x == '\x7d') then textIf has c
      else if x == '\\' then
        if d.raw then d.readText fuel has (c.skip (d.rawEscape rest))
        else if d.bytes && rest.head?.any fun y => y == 'N' || y == 'u' || y == 'U' then
          d.readText fuel true (c.skip 3)
        else textIf has c
      else if x == d.mark then d.atQuote has c
      else if x == '\n' && has && !d.triple then .nothing
      else d.readText fuel true c.next

end Delimiter

/-! ### Between tokens -/

/-- What stands in front of the next token. -/
structure Blanks where
  here : Cursor
  /-- Whether anything has been skipped. -/
  moved : Bool := false
  /-- Whether a line has ended. -/
  lineEnd : Bool := false
  /-- Columns since the start of the line: a tab counts eight. -/
  indent : Nat := 0
  /-- The column of the first comment with a line to itself. -/
  comment : Option Nat := none
deriving Repr

namespace Blanks

/-- Skips white space, joined lines, and comments where they matter. There is no answer at a comment
behind code, nor at a backslash that joins nothing. -/
def skip (atLine : Bool) : Nat → Blanks → Option Blanks
  | 0, b => some b
  | fuel + 1, b =>
    match b.here.rest with
    | [] => some { b with indent := 0, lineEnd := true }
    | x :: rest =>
      let next := { b with here := b.here.next, moved := true }
      if x == '\n' then skip atLine fuel { next with lineEnd := true, indent := 0 }
      else if x == ' ' then skip atLine fuel { next with indent := b.indent + 1 }
      else if x == '\r' || x == '\x0c' then skip atLine fuel { next with indent := 0 }
      else if x == '\t' then skip atLine fuel { next with indent := b.indent + 8 }
      else if x == '#' && atLine then
        if b.lineEnd then
          skip atLine fuel { next with
            here := (b.here.dropWhile fun y => y != '\n' && y != '\x00').next
            indent := 0
            comment := b.comment.or (some b.indent) }
        else none
      else if x == '\\' then
        let joined :=
          match rest with
          | [] => some 1
          | ['\r'] => some 2
          | '\n' :: _ => some 2
          | '\r' :: '\n' :: _ => some 3
          | _ => none
        match joined with
        | some n => skip atLine fuel { next with here := b.here.skip n }
        | none => none
      else some b

end Blanks

/-- Letters in front of a quote, and what they say about the string. -/
def Delimiter.ofLetters : Delimiter → List Char → Delimiter × Nat
  | d, [] => (d, 0)
  | d, x :: rest =>
    let next (d : Delimiter) :=
      let (d, n) := ofLetters d rest
      (d, n + 1)
    if x == 'f' || x == 'F' then next { d with format := true }
    else if x == 'r' || x == 'R' then next { d with raw := true }
    else if x == 'b' || x == 'B' then next { d with bytes := true }
    else if x == 'u' || x == 'U' then next d
    else (d, 0)

namespace Layout

/-- The start of a string: letters, and one quote or three. -/
def stringStart (l : Layout) (start c : Cursor) : Option Scanned :=
  let (d, letters) := Delimiter.ofLetters { mark := '"' } c.rest
  let opened (d : Delimiter) (quotes : Nat) : Option Scanned :=
    some ⟨.stringStart, start, c.skip (letters + quotes),
      { l with strings := d :: l.strings, inFormat := d.format }⟩
  match c.rest.drop letters with
  | [] => none
  | q :: rest =>
    if q == '\x60' then opened { d with mark := q } 1
    else if q == '\'' || q == '"' then
      if (rest.take 2).length = 2 && (rest.take 2).all (· == q) then
        opened { d with mark := q, triple := true } 3
      else opened { d with mark := q } 1
    else none

/-- What is read behind the blanks in front of a token. `start` is where the reader stood,
`begin` where the blanks begin. -/
def afterBlanks (l : Layout) (w : Wanted) (start begin : Cursor) (b : Blanks) : Option Scanned :=
  let empty (t : Terminal) (l : Layout) : Option Scanned :=
    some ⟨t, if b.moved then begin else start, begin, l⟩
  let current := l.indents.headD 0
  let atQuote := b.here.rest.head?.any fun x => x == '"' || x == '\'' || x == '\x60'
  let closes := w.dedent || (!w.newline && !(w.stringStart && atQuote) && !w.closing)
  if b.lineEnd && w.indent && current < b.indent then
    empty .indent { l with indents := b.indent :: l.indents }
  else if b.lineEnd && closes && b.indent < current && !l.inFormat &&
      b.comment.all (· < current) then
    empty .dedent { l with indents := l.indents.tail }
  else if b.lineEnd && w.newline && !w.afterError then empty .newline l
  else if b.comment.isNone && w.stringStart then
    l.stringStart (if b.moved then b.here else start) b.here
  else none

/-- Reads a terminal at a cursor; `fuel` exceeds the number of characters that follow it. -/
def scan (l : Layout) (fuel : Nat) (w : Wanted) (c : Cursor) : Option Scanned :=
  let between (begin : Cursor) : Option Scanned :=
    (Blanks.skip w.atLine fuel { here := begin }).bind (l.afterBlanks w c begin)
  match l.strings with
  | [] => between c
  | d :: outer =>
    if w.doubledBrace && d.format && !w.afterError &&
        c.rest.head?.any (fun x => x == '\x7b' || x == '\x7d') then
      if c.rest[1]? = c.rest.head? then some ⟨.doubledBrace, c, c.skip 2, l⟩ else none
    else if w.stringText && !w.afterError then
      match d.readText fuel false c with
      | .text stop => some ⟨.stringText, c, stop, l⟩
      | .closed stop => some ⟨.stringEnd, c, stop, { l with strings := outer, inFormat := false }⟩
      | .nothing => none
      | .through stop => between stop
    else between c

end Layout

end ModelAtlas.Source.Parse
