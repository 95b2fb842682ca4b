import ReflectGen.Directive
import ReflectGen.Source.Hidden

namespace ReflectGen.Source

open Text

/-- The call of `directive` with no argument at the start of a text. -/
def callOf? (directive : Directive) (before : Option Char) (cs : List Char) : Option (List Char) :=
  match opening? directive.callName before cs with
  | none => none
  | some head =>
    match head.rest.dropWhile isSpace with
    | ')' :: _ => some (head.taken ++ head.rest.takeWhile isSpace ++ [')'])
    | _ => none

/-- The directive call at the start of a text. -/
def directiveCall? (before : Option Char) (cs : List Char) : Option (Directive × List Char) :=
  Directive.all.findSome? fun d => (callOf? d before cs).map fun call => (d, call)

/-- The declaration that a directive call stands for. -/
def declaration (d : Directive) : List Char := ("void " ++ d.marker ++ "();").toList

/-- Puts declarations for directive calls. `skip` counts characters of a call already replaced. -/
def expandFrom : Option Char → Nat → List Char → List Char
  | _, _, [] => []
  | _, skip + 1, c :: cs => expandFrom (some c) skip cs
  | before, 0, c :: cs =>
    match directiveCall? before (c :: cs) with
    | none => c :: expandFrom (some c) 0 cs
    | some (d, call) => declaration d ++ expandFrom (some c) (call.length - 1) cs

def expandLine (line : List Char) : List Char := expandFrom none 0 line

/-- Expands all lines from `offset` on but those at which the next directive range starts. -/
def expandLines : List ByteRange → Nat → List (List Char) → List Char
  | _, _, [] => []
  | [], offset, line :: rest => expandLine line ++ expandLines [] (offset + byteLength line) rest
  | range :: ranges, offset, line :: rest =>
    if range.start = offset then line ++ expandLines ranges (offset + byteLength line) rest
    else expandLine line ++ expandLines (range :: ranges) (offset + byteLength line) rest

def expand (directives : List ByteRange) (source : List Char) : List Char :=
  expandLines directives 0 (lines source)

/-- The text that is parsed: hide calls are blank, directive calls are marker declarations, and no
line break moves. -/
def prepare (source : List Char) : List Char :=
  let directives := directiveRanges source
  expand directives (blank (hiddenRanges directives source) source)

end ReflectGen.Source
