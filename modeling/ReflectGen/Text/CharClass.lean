import ReflectGen.Text.CharTable

namespace ReflectGen.Text

def isSpace (c : Char) : Bool := whiteSpace.covers c

def isDecimalDigit (c : Char) : Bool := decimalDigits.covers c

/-- Characters of identifiers. A word boundary lies where one of these meets any other character
or an end of the text. -/
def isWord (c : Char) : Bool :=
  alphabetic.covers c || decimalDigits.covers c || connectors.covers c || plainMarks.covers c

/-- Letters and numerals, without marks and connectors. -/
def isAlphanumeric (c : Char) : Bool :=
  alphabetic.covers c || decimalDigits.covers c || otherNumerals.covers c

end ReflectGen.Text
