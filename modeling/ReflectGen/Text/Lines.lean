import ReflectGen.Text.CharClass

namespace ReflectGen.Text

/-- Lines of a text, each with the line feed that ends it. -/
def lines : List Char → List (List Char)
  | [] => []
  | c :: cs =>
    if c = '\n' then [c] :: lines cs
    else
      match lines cs with
      | [] => [[c]]
      | line :: rest => (c :: line) :: rest

theorem flatten_lines (cs : List Char) : (lines cs).flatten = cs := by
  induction cs with
  | nil => rfl
  | cons c cs ih =>
    unfold lines
    split
    · simp [ih]
    · cases h : lines cs with
      | nil => rw [h] at ih; simp [← ih]
      | cons line rest => rw [h] at ih; simp [← ih]

def dropEndWhile (p : Char → Bool) (cs : List Char) : List Char :=
  (cs.reverse.dropWhile p).reverse

/-- A text without the white space at its two ends. -/
def trim (cs : List Char) : List Char := dropEndWhile isSpace (cs.dropWhile isSpace)

/-- A text without its line end, which is any run of line feeds and carriage returns. -/
def lineBody (line : List Char) : List Char :=
  dropEndWhile (fun c => c == '\n' || c == '\r') line

/-- Maximal runs of characters that are not white space. -/
def words : List Char → List (List Char)
  | [] => []
  | c :: cs =>
    if isSpace c then words cs
    else
      match cs with
      | [] => [[c]]
      | d :: _ =>
        if isSpace d then [c] :: words cs
        else
          match words cs with
          | [] => [[c]]
          | word :: rest => (c :: word) :: rest

/-- A text with each run of white space as one blank, and none at the ends. -/
def squeeze (cs : List Char) : List Char := [' '].intercalate (words cs)

/-- The text that follows a literal at the start of `cs`. -/
def afterLiteral : List Char → List Char → Option (List Char)
  | [], cs => some cs
  | _ :: _, [] => none
  | l :: ls, c :: cs => if l = c then afterLiteral ls cs else none

theorem afterLiteral_eq_some_iff (l cs rest : List Char) :
    afterLiteral l cs = some rest ↔ cs = l ++ rest := by
  induction l generalizing cs with
  | nil => simp [afterLiteral]
  | cons a l ih =>
    cases cs with
    | nil => simp [afterLiteral]
    | cons c cs =>
      by_cases h : a = c
      · simp [afterLiteral, h, ih]
      · simp [afterLiteral, h, Ne.symm h]

end ReflectGen.Text
