import ReflectGen.Source.Call
import ReflectGen.Source.DirectiveLine

namespace ReflectGen.Source

open Text

/-- The call whose argument the generator must not see. -/
def hideName : String := "HIDE_FROM_CODEGEN"

/-- A semicolon with the blanks and tabs before it, at the start of a text. -/
def semicolon (cs : List Char) : List Char :=
  let gap := fun c => c == ' ' || c == '\t'
  match cs.dropWhile gap with
  | ';' :: _ => cs.takeWhile gap ++ [';']
  | _ => []

/-- The hide call at the start of a text: through the parenthesis that closes it and a semicolon
after that. -/
def hideCall? (before : Option Char) (cs : List Char) : Option (List Char) :=
  match opening? hideName before cs with
  | none => none
  | some head =>
    match closing? 0 head.rest with
    | none => none
    | some argument => some (head.taken ++ argument.taken ++ semicolon argument.rest)

/-- Byte ranges of the hide calls that start outside the directive lines. `offset` is that of the
text, `resume` the end of the last call found; no call is looked for inside another. -/
def hiddenFrom (directives : List ByteRange) :
    Option Char → Nat → Nat → List Char → List ByteRange
  | _, _, _, [] => []
  | before, offset, resume, c :: cs =>
    let next := offset + c.utf8Size
    if offset < resume || directives.any (·.contains offset) then
      hiddenFrom directives (some c) next resume cs
    else
      match hideCall? before (c :: cs) with
      | none => hiddenFrom directives (some c) next resume cs
      | some call =>
        let stop := offset + byteLength call
        ⟨offset, stop⟩ :: hiddenFrom directives (some c) next stop cs

def hiddenRanges (directives : List ByteRange) (source : List Char) : List ByteRange :=
  hiddenFrom directives none 0 0 source

/-- Puts blanks for all bytes of the ranges but the line feeds, in one pass over text and ranges:
those that have ended are dropped, and the next one alone tells whether a character is hidden. -/
def blankFrom : List ByteRange → Nat → List Char → List Char
  | _, _, [] => []
  | ranges, offset, c :: cs =>
    let ranges := ranges.dropWhile (·.stop ≤ offset)
    let hidden := ranges.head?.any (·.contains offset)
    let shown := if hidden && c ≠ '\n' then List.replicate c.utf8Size ' ' else [c]
    shown ++ blankFrom ranges (offset + c.utf8Size) cs

def blank (ranges : List ByteRange) (source : List Char) : List Char := blankFrom ranges 0 source

end ReflectGen.Source
