import ReflectGen.Text.Lines

namespace ReflectGen.Source

open Text

/-- Whether a word can start after `before`. -/
def atBoundary (before : Option Char) : Bool := !before.any isWord

/-- A text cut in two. -/
structure Cut where
  taken : List Char
  rest : List Char
  deriving DecidableEq, Repr

/-- Cuts behind what `\bword\s*\(` matches where the text starts: a word of its own, white space and
an opening parenthesis. Spaces and letters are those of Unicode. -/
def opening? (word : String) (before : Option Char) (cs : List Char) : Option Cut :=
  if atBoundary before then
    match afterLiteral word.toList cs with
    | none => none
    | some rest =>
      match rest.dropWhile isSpace with
      | '(' :: inner => some ⟨word.toList ++ rest.takeWhile isSpace ++ ['('], inner⟩
      | _ => none
  else none

/-- Cuts behind the parenthesis that closes the innermost of `depth + 1` open ones. -/
def closing? : Nat → List Char → Option Cut
  | _, [] => none
  | depth, c :: cs =>
    if c = ')' then
      match depth with
      | 0 => some ⟨[c], cs⟩
      | depth + 1 => (closing? depth cs).map fun cut => ⟨c :: cut.taken, cut.rest⟩
    else
      (closing? (if c = '(' then depth + 1 else depth) cs).map fun cut =>
        ⟨c :: cut.taken, cut.rest⟩

end ReflectGen.Source
