/-!
# Globs

A glob is a list of tokens. `?` and `*` do not match a slash; `**` between slashes matches any
number of directories. Texts are matched byte by byte.
-/

namespace ModelAtlas.Files

inductive GlobToken where
  | byte (b : UInt8)
  /-- Any byte but a slash. -/
  | any
  /-- Any bytes but slashes. -/
  | star
  /-- `**` at the start: nothing, or directories. -/
  | dirsFirst
  /-- `/**` at the end: everything inside. -/
  | dirsLast
  /-- `/**` between slashes: one slash, or directories. -/
  | dirsBetween
  | oneOf (negated : Bool) (ranges : List (UInt8 × UInt8))
  | alternatives (branches : List (List GlobToken))
deriving Repr, Inhabited

def slash : UInt8 := 47

/-- What is left after a run of bytes other than slashes, of any length. -/
def afterRun (rest : List UInt8 → Bool) : List UInt8 → Bool
  | [] => rest []
  | b :: bs => rest (b :: bs) || (b != slash && afterRun rest bs)

/-- What is left after any number of bytes. -/
def afterAnything (rest : List UInt8 → Bool) : List UInt8 → Bool
  | [] => rest []
  | b :: bs => rest (b :: bs) || afterAnything rest bs

/-- What is left after some slash. -/
def afterSlash (rest : List UInt8 → Bool) : List UInt8 → Bool
  | [] => false
  | b :: bs => (b == slash && rest bs) || afterSlash rest bs

def inClass (ranges : List (UInt8 × UInt8)) (b : UInt8) : Bool :=
  ranges.any fun (low, high) => low ≤ b && b ≤ high

/-- A test of the first byte, with the rest. -/
def onFirst (test : UInt8 → Bool) (rest : List UInt8 → Bool) : List UInt8 → Bool
  | [] => false
  | b :: bs => test b && rest bs

mutual
/-- Whether a token matches the start of a text, and `rest` accepts what follows. -/
def GlobToken.accepts (rest : List UInt8 → Bool) : GlobToken → List UInt8 → Bool
  | .byte b, bs => onFirst (· == b) rest bs
  | .any, bs => onFirst (· != slash) rest bs
  | .star, bs => afterRun rest bs
  | .dirsFirst, bs => rest bs || afterSlash rest bs
  | .dirsLast, bs => onFirst (· == slash) (afterAnything rest) bs
  | .dirsBetween, bs => onFirst (· == slash) (fun bs => rest bs || afterSlash rest bs) bs
  | .oneOf negated ranges, bs => onFirst (fun b => inClass ranges b != negated) rest bs
  | .alternatives branches, bs =>
    if branches.all (·.isEmpty) then rest bs else acceptsSome rest branches bs
/-- Whether tokens match the start of a text, and `rest` accepts what follows. -/
def acceptsAll (rest : List UInt8 → Bool) : List GlobToken → List UInt8 → Bool
  | [], bs => rest bs
  | t :: ts, bs => t.accepts (acceptsAll rest ts) bs
/-- Whether one of some branches, the empty ones left out, matches the start of a text. -/
def acceptsSome (rest : List UInt8 → Bool) : List (List GlobToken) → List UInt8 → Bool
  | [], _ => false
  | branch :: branches, bs =>
    (!branch.isEmpty && acceptsAll rest branch bs) || acceptsSome rest branches bs
end

abbrev Glob := List GlobToken

/-- Whether a glob matches a whole text. -/
def Glob.matches (g : Glob) (text : String) : Bool :=
  acceptsAll (·.isEmpty) g text.toUTF8.toList

/-! ### Reading -/

/-- Why a glob cannot be read. -/
inductive GlobError where
  | unclosedBrace
  | unopenedBrace
  | danglingEscape
  | badRange
deriving DecidableEq, Repr

/-- The members of a class up to its bracket: whether none has been read, whether a `-` waits for
its upper end, and the ranges, last first. Without a bracket there is no class. -/
def readClass (first ranging : Bool) (ranges : List (Char × Char)) :
    List Char → Option (Except GlobError (List (Char × Char)) × List Char)
  | [] => none
  | c :: rest =>
    if c == ']' && !first then
      some (.ok (if ranging then ('-', '-') :: ranges else ranges), rest)
    else if c == '-' && !first && !ranging then readClass false true ranges rest
    else if ranging then
      match ranges with
      | (low, _) :: others =>
        if c < low then some (.error .badRange, rest)
        else readClass false false ((low, c) :: others) rest
      | [] => readClass false false [(c, c)] rest
    else readClass false false ((c, c) :: ranges) rest

/-- A class takes up at least one character. -/
theorem length_lt_of_readClass {first ranging : Bool} {ranges : List (Char × Char)}
    {cs rest : List Char} {r : Except GlobError (List (Char × Char))}
    (read : readClass first ranging ranges cs = some (r, rest)) : rest.length < cs.length := by
  fun_induction readClass first ranging ranges cs <;> grind

def bytesOf (c : Char) : List UInt8 := (String.ofList [c]).toUTF8.toList

/-- The bytes of a character. -/
def charTokens (c : Char) : List GlobToken := (bytesOf c).map .byte

/-- A range of characters, written out in bytes: a range from the last byte of the lower end to the
first of the upper end, and every other byte by itself. -/
def byteRanges : Char × Char → List (UInt8 × UInt8)
  | (low, high) =>
    let single (b : UInt8) := (b, b)
    if low = high then (bytesOf low).map single
    else
      (bytesOf low).dropLast.map single ++
        ((bytesOf low).getLast?.toList.zip (bytesOf high).head?.toList) ++
        (bytesOf high).tail.map single

/-- Open braces, innermost first: the branches read, last first, and the tokens before the brace. -/
abbrev Braces := List (List (List GlobToken) × List GlobToken)

/-- Replaces the slash before `/**`. -/
def replaceLast (t : GlobToken) : List GlobToken → List GlobToken
  | .dirsFirst :: ts => .dirsFirst :: ts
  | .dirsLast :: ts => .dirsLast :: ts
  | _ :: ts => t :: ts
  | [] => [t]

/-- What follows the sign of negation at the start of a class, if there is one. -/
def classMembers : List Char → Bool × List Char
  | '!' :: rest => (true, rest)
  | '^' :: rest => (true, rest)
  | cs => (false, cs)

theorem length_classMembers_le (cs : List Char) : (classMembers cs).2.length ≤ cs.length := by
  unfold classMembers
  split <;> simp

/-- Reads a glob: the character before, the open braces, and the tokens of this branch, reversed. -/
def readGlob (before : Option Char) (braces : Braces) (tokens : List GlobToken) :
    List Char → Except GlobError Glob
  | [] => if braces.isEmpty then .ok tokens.reverse else .error .unclosedBrace
  | '?' :: rest => readGlob (some '?') braces (.any :: tokens) rest
  | '*' :: '*' :: rest =>
    if tokens.isEmpty then
      match rest with
      | [] => readGlob none braces (.dirsFirst :: tokens) []
      | '/' :: rest => readGlob (some '/') braces (.dirsFirst :: tokens) rest
      | c :: rest => readGlob (some '*') braces (.star :: .star :: tokens) (c :: rest)
    else if before != some '/' then readGlob (some '*') braces (.star :: .star :: tokens) rest
    else
      match rest with
      | [] => readGlob none braces (replaceLast .dirsLast tokens) []
      | '/' :: rest => readGlob (some '/') braces (replaceLast .dirsBetween tokens) rest
      | c :: rest =>
        if !braces.isEmpty && (c == ',' || c == '\x7d') then
          readGlob (some '*') braces (replaceLast .dirsLast tokens) (c :: rest)
        else readGlob (some '*') braces (.star :: .star :: tokens) (c :: rest)
  | '*' :: rest => readGlob (some '*') braces (.star :: tokens) rest
  | '[' :: rest =>
    match read : readClass true false [] (classMembers rest).2 with
    | some (.ok ranges, after) =>
      have : after.length < rest.length :=
        Nat.lt_of_lt_of_le (length_lt_of_readClass read) (length_classMembers_le rest)
      readGlob (some ']') braces
        (.oneOf (classMembers rest).1 (ranges.flatMap byteRanges) :: tokens) after
    | some (.error e, _) => .error e
    | none => readGlob (some '[') braces (.byte 91 :: tokens) rest
  | '\x7b' :: rest => readGlob (some '\x7b') (([], tokens) :: braces) [] rest
  | '\x7d' :: rest =>
    match braces with
    | [] => .error .unopenedBrace
    | (branches, outside) :: braces =>
      readGlob (some '\x7d') braces
        (.alternatives (tokens.reverse :: branches).reverse :: outside) rest
  | ',' :: rest =>
    match braces with
    | [] => readGlob (some ',') [] (.byte 44 :: tokens) rest
    | (branches, outside) :: braces =>
      readGlob (some ',') ((tokens.reverse :: branches, outside) :: braces) [] rest
  | '\\' :: c :: rest => readGlob (some c) braces ((charTokens c).reverse ++ tokens) rest
  | ['\\'] => .error .danglingEscape
  | c :: rest => readGlob (some c) braces ((charTokens c).reverse ++ tokens) rest
termination_by cs => cs.length

/-- `**` alone matches everything. -/
def Glob.complete : Glob → Glob
  | [.dirsFirst] => [.dirsFirst, .star]
  | g => g

/-- The glob that a text spells. -/
def Glob.parse (text : String) : Except GlobError Glob :=
  (readGlob none [] [] text.toList).map Glob.complete

end ModelAtlas.Files
