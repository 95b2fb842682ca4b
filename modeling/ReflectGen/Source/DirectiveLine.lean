import ReflectGen.Text.ByteOffset
import ReflectGen.Text.Lines

namespace ReflectGen.Source

open Text

/-- Whether the first character of a line other than white space is `#`. -/
def opensDirective (line : List Char) : Bool :=
  ((lineBody line).dropWhile isSpace).head? == some '#'

/-- Whether a line, less its line end, ends with a backslash. -/
def endsOpen (line : List Char) : Bool := (lineBody line).getLast? == some '\\'

/-- Which lines belong to a preprocessor directive; `continued` tells whether the first one goes on
with a directive of the line before. -/
def directiveFlags : Bool → List (List Char) → List Bool
  | _, [] => []
  | continued, line :: rest =>
    let directive := continued || opensDirective line
    directive :: directiveFlags (directive && endsOpen line) rest

/-- Byte ranges of consecutive lines that start at `offset`. -/
def lineRanges : Nat → List (List Char) → List ByteRange
  | _, [] => []
  | offset, line :: rest =>
    ⟨offset, offset + byteLength line⟩ :: lineRanges (offset + byteLength line) rest

/-- Byte ranges of the preprocessor lines, continuations included. -/
def directiveRanges (source : List Char) : List ByteRange :=
  ((lineRanges 0 (lines source)).zip (directiveFlags false (lines source))).filterMap
    fun (range, flag) => if flag then some range else none

end ReflectGen.Source
