import ReflectGen.Text.Lines

namespace ReflectGen

/-- Template instances that need a registration of their own. -/
inductive TypePattern where
  | fixedString (capacity : Nat)
  | sequence (element : String)
  deriving DecidableEq, Repr

namespace TypePattern

open Text

def fixedStringTemplate : String := "SerializedString"

def sequenceTemplate : String := "hrt::vector"

/-- Capacities are unsigned numbers of 32 bits. -/
def capacityBound : Nat := UInt32.size

/-- The first answer that `f` gives on the tails of a text, longest tail first. -/
def firstAmong {α : Type} (f : List Char → Option α) : List Char → Option α
  | [] => f []
  | c :: cs => (f (c :: cs)).or (firstAmong f cs)

/-- The digits that `SerializedString<\s*(\d+)\s*>` captures at the start of a text. Spaces and
digits are those of Unicode. -/
def capacityDigits? (cs : List Char) : Option (List Char) :=
  match afterLiteral (fixedStringTemplate ++ "<").toList cs with
  | none => none
  | some rest =>
    let argument := rest.dropWhile isSpace
    let digits := argument.takeWhile isDecimalDigit
    match digits, (argument.dropWhile isDecimalDigit).dropWhile isSpace with
    | _ :: _, '>' :: _ => some digits
    | _, _ => none

def decimalValue (digits : List Char) : Nat :=
  digits.foldl (fun n c => 10 * n + (c.toNat - '0'.toNat)) 0

/-- The value of a digit string, if it has ASCII digits only and fits. -/
def capacity? (digits : List Char) : Option Nat :=
  if digits.all Char.isDigit && decimalValue digits < capacityBound then
    some (decimalValue digits)
  else none

/-- What stands before the last `c` of a text. -/
def beforeLast? (c : Char) : List Char → Option (List Char)
  | [] => none
  | d :: ds =>
    match beforeLast? c ds with
    | some before => some (d :: before)
    | none => if d = c then some [] else none

/-- The element that `hrt::vector<(.+)>` captures at the start of a text. The dot stands for any
character but a line feed and repeats as often as it can, so the element runs to the last `>` of its
line. -/
def element? (cs : List Char) : Option (List Char) :=
  match afterLiteral (sequenceTemplate ++ "<").toList cs with
  | none => none
  | some rest => (beforeLast? '>' (rest.takeWhile (· ≠ '\n'))).filter (· ≠ [])

/-- The instances found in a type as written: the leftmost string, then the leftmost sequence. -/
def classify (type : String) : List TypePattern :=
  ((firstAmong capacityDigits? type.toList).bind capacity?).toList.map fixedString ++
    (firstAmong element? type.toList).toList.map fun e => sequence (String.ofList e)

end TypePattern

end ReflectGen
