import ModelAtlas.Text.Quoted

/-!
# Compact texts

A text of at most `inlineBytes` bytes is kept in a block of fixed size beside its length; a longer
one is shared. `Compact.text` reads either form back, and equality, order and hash go through it, so
the two forms cannot be told apart.
-/

namespace ModelAtlas.Text

/-- How many bytes fit into the block of a short text. -/
def inlineBytes : Nat := 22

/-- What the hash of a text is made of: its bytes, and one that no text has. -/
def hashInput (text : String) : List UInt8 := text.toUTF8.toList ++ [0xFF]

inductive Compact where
  /-- The first `length` bytes of the block are the text, the rest are zero. -/
  | inline (length : UInt8) (block : Vector UInt8 inlineBytes)
  | shared (text : String)

namespace Compact

def ofString (text : String) : Compact :=
  let bytes := text.toUTF8
  if bytes.size ≤ inlineBytes then
    .inline bytes.size.toUInt8 (Vector.ofFn fun i => bytes.data.getD i.val 0)
  else .shared text

/-- The text a value was made from. -/
def text : Compact → String
  | .inline length block => (String.fromUTF8? ⟨block.toArray.extract 0 length.toNat⟩).getD ""
  | .shared text => text

instance : Inhabited Compact := ⟨ofString ""⟩
instance : ToString Compact := ⟨text⟩
instance : BEq Compact := ⟨fun a b => a.text == b.text⟩
instance : Ord Compact := ⟨fun a b => compare a.text b.text⟩
instance : Hashable Compact := ⟨fun a => hash a.text⟩

def byteSize (a : Compact) : Nat := a.text.utf8ByteSize
def isEmpty (a : Compact) : Bool := a.text.isEmpty
def quoted (a : Compact) : String := quote a.text

/-- Whether a value holds the given plain text. -/
def holds (a : Compact) (text : String) : Bool := a.text == text

/-- The same with the plain text first. -/
def heldBy (text : String) (a : Compact) : Bool := text == a.text

def hashInput (a : Compact) : List UInt8 := Text.hashInput a.text

end Compact

end ModelAtlas.Text
