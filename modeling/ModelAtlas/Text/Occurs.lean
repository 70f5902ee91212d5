/-!
# Texts inside texts
-/

namespace ModelAtlas.Text

/-- Whether `part` stands somewhere in a list. -/
def occursIn (part : List Char) : List Char → Bool
  | [] => part.isEmpty
  | c :: rest => part.isPrefixOf (c :: rest) || occursIn part rest

/-- Whether a text starts with another. -/
def startsWith (text head : String) : Bool := head.toList.isPrefixOf text.toList

/-- Whether a text contains another. -/
def contains (text part : String) : Bool := occursIn part.toList text.toList

end ModelAtlas.Text
