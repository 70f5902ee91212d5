import ModelAtlas.Source.Grammar.Automaton
import ModelAtlas.Source.Parse.Layout
import ModelAtlas.Source.Parse.Lexeme

/-!
# Lookaheads

The next terminal of a source, as it is seen from a state: only what the state can use is
recognised, so a keyword that cannot stand there is a name, and a line end that cannot is blank.
Where nothing fits, the terminal is looked for as if after an error, and characters that belong to
none make up a lookahead without a symbol.
-/

namespace ModelAtlas.Source.Parse

open Grammar (Terminal Pattern Automaton State)

/-- What a lookahead or a tree stands for. -/
inductive Label where
  | symbol (number : Nat)
  /-- Source that could not be read. -/
  | error
  /-- Source passed over on the way back from an error. -/
  | skipped
deriving DecidableEq, Repr

structure Lookahead where
  label : Label
  /-- Where the terminal before ended. -/
  lead : Cursor
  start : Cursor
  stop : Cursor
  /-- The layout behind a terminal that was read from the layout. -/
  layout : Option Layout := none
  /-- Whether that differs from the layout before. -/
  changed : Bool := false
  /-- Whether it is spelled like a keyword. -/
  keyword : Bool := false
deriving Repr

/-- White space between terminals. -/
def isSpace (c : Char) : Bool :=
  c == ' ' || c == '\t' || c == '\n' || c == '\r' || c == '\x0b' || c == '\x0c' ||
    c == '\u200b' || c == '\u2060' || c == '\ufeff'

namespace Lookahead

/-- Terminals with patterns of their own. -/
def ownPatterns : List (Nat × Pattern) :=
  (Terminal.all.map fun t => (t.number, t.form.pattern)).filter fun (_, p) =>
    !p.isLayout && !p.isKeyword && p != .endOfSource

/-- Keywords and the identifier. -/
def words : Nat :=
  Terminal.all.foldl (fun set t =>
    if t.form.pattern.isKeyword || t == .identifier then set ||| 1 <<< t.number else set) 0

/-- The keyword that is spelled this way. -/
def keyword? (text : String) : Option Terminal :=
  Terminal.all.find? (·.form.pattern == .keyword text)

/-- What the layout is asked for, from a set of terminals. -/
def wanted (expected : Nat) : Wanted :=
  let has (t : Terminal) := expected.testBit t.number
  { newline := has .newline
    indent := has .indent
    dedent := has .dedent
    stringStart := has .stringStart
    stringText := has .stringText
    doubledBrace := has .doubledBrace
    closing := has .closeParen || has .closeBracket || has .closeBrace
    handler := has .exceptWord }

/-- The longer of two lexemes, of equally long ones the second if it has a fixed spelling. -/
def longer (s : List Char) (best : Option (Nat × Nat)) (candidate : Nat × Pattern) :
    Option (Nat × Nat) :=
  let n := lexemeLength candidate.2 s
  match best with
  | none => if n = 0 then none else some (candidate.1, n)
  | some (_, m) =>
    if m < n || (n = m && candidate.2.isSign) then some (candidate.1, n) else best

/-- The longest lexeme of some patterns. -/
def longest (patterns : List (Nat × Pattern)) (s : List Char) : Option (Nat × Nat) :=
  patterns.foldl (longer s) none

/-- Reads a terminal with a pattern of its own out of a set. -/
def lexeme? (expected : Nat) (c : Cursor) : Option (Nat × Cursor × Cursor) :=
  let allowed := ownPatterns.filter fun (i, p) =>
    if p == .identifier then expected &&& words != 0 else expected.testBit i
  let here := longest (allowed.filter fun (_, p) => p.isImmediate) c.rest
  let format := longest (allowed.filter fun (_, p) => p == .formatText) c.rest
  match here.or format with
  | some (i, n) => some (i, c, c.skip n)
  | none =>
    let start := c.dropWhile isSpace
    if start.rest.isEmpty then
      if expected.testBit Terminal.endOfSource.number then
        some (Terminal.endOfSource.number, start, start)
      else none
    else (longest (allowed.filter fun (_, p) => !p.isImmediate) start.rest).map fun (i, n) =>
      (i, start, start.skip n)

/-- The terminals looked for after an error: none that need a string around them. -/
def afterError : Nat :=
  ((1 <<< Terminal.count) - 1) ^^^
    ((1 <<< Terminal.escape.number) ||| (1 <<< Terminal.backslash.number) |||
      (1 <<< Terminal.formatText.number))

/-- A lookahead with a pattern of its own; an identifier may turn out to be a keyword that the state
can use. -/
def lexed (a : Automaton) (state : State) (lead : Cursor) (found : Nat × Cursor × Cursor) :
    Lookahead :=
  let (i, start, stop) := found
  let plain : Lookahead := { label := .symbol i, lead := lead, start := start, stop := stop }
  if i != Terminal.identifier.number then plain
  else match keyword? (start.textUpTo stop.mark) with
    | none => plain
    | some k =>
      let usable := !(a.actions state k.number).isEmpty
      { plain with label := .symbol (if usable then k.number else i), keyword := true }

/-- A terminal at a cursor: from the layout, if it makes progress, or with a pattern of its own. -/
def terminal? (a : Automaton) (fuel : Nat) (state : State) (expected : Nat) (mayBeEmpty : Bool)
    (layout : Layout) (lead c : Cursor) : Option Lookahead :=
  let scanned := (layout.scan fuel (wanted expected) c).bind fun s =>
    let i := s.terminal.number
    let changed := s.layout != layout
    let stays := a.afterTerminal state i == state
    if s.stop.offset ≤ c.offset && !changed && (!mayBeEmpty || stays) then none
    else some { label := .symbol i, lead := lead, start := s.start, stop := s.stop,
                layout := some s.layout, changed := changed : Lookahead }
  scanned.or ((lexeme? expected c).map (lexed a state lead))

/-- Passes over characters that belong to no terminal: what has been passed starts and ends at the
given cursors. -/
def passOver (a : Automaton) (state : State) (layout : Layout) (lead : Cursor) :
    Nat → Cursor → Cursor → Cursor → Lookahead
  | 0, start, stop, _ => { label := .error, lead := lead, start := start, stop := stop }
  | fuel + 1, start, stop, c =>
    let passed : Lookahead := { label := .error, lead := lead, start := start, stop := stop }
    match terminal? a (fuel + 1) state afterError false layout lead c with
    | some _ => passed
    | none =>
      let token := c.dropWhile isSpace
      let here := if stop.offset < token.offset then token else stop
      if here.offset = stop.offset then
        if here.rest.isEmpty then passed
        else passOver a state layout lead fuel start here.next here.next
      else passOver a state layout lead fuel start here here

/-- The lookahead of a state at a cursor; `fuel` exceeds the number of characters that follow it.
Only a reader that has made progress may be given an empty terminal that changes nothing. -/
def look (a : Automaton) (fuel : Nat) (state : State) (advanced : Bool) (layout : Layout) (c : Cursor) :
    Lookahead :=
  let isError := state == Automaton.errorState
  let expected := if isError then afterError else a.expected state
  match terminal? a fuel state expected (!isError && advanced) layout c c with
  | some found => found
  | none =>
    let again := if isError then none else terminal? a fuel state afterError false layout c c
    match again with
    | some found => found
    | none =>
      let start := c.dropWhile isSpace
      if start.rest.isEmpty then { label := .error, lead := c, start := start, stop := start }
      else passOver a state layout c fuel start start.next start.next

end Lookahead

end ModelAtlas.Source.Parse
