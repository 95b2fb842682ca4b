import ReflectGen.Text.Lines

namespace ReflectGen.Report

open Text

/-- How many characters end within the first `n` bytes of a text. -/
def charsWithin : Nat → List Char → Nat
  | _, [] => 0
  | n, c :: cs => if c.utf8Size ≤ n then charsWithin (n - c.utf8Size) cs + 1 else 0

/-- Character offset of byte column `column` of the line with index `row`; the end of the line if
the column lies past it, the end of the text if there is no such line. -/
def offsetInLines (column : Nat) : Nat → List (List Char) → Nat
  | _, [] => 0
  | 0, line :: _ => charsWithin column line
  | row + 1, line :: rest => line.length + offsetInLines column row rest

/-- Character offset of a line and byte column, both from one. Column zero is read as one, and line
zero is past every line. -/
def charOffset (source : List Char) (line column : Nat) : Nat :=
  match line with
  | 0 => source.length
  | row + 1 => offsetInLines (column - 1) row (lines source)

/-- Length of the identifier at a character offset, at least one. -/
def tokenLength (source : List Char) (offset : Nat) : Nat :=
  max 1 ((source.drop offset).takeWhile fun c => isAlphanumeric c || c == '_').length

end ReflectGen.Report
