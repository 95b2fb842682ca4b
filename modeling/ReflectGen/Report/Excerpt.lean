import ReflectGen.Fault
import ReflectGen.Report.Label
import ReflectGen.Text.CellWidth

namespace ReflectGen.Report

open Text

/-- Characters after which a terminal goes to the next line. -/
def isLineBreak (c : Char) : Bool :=
  ['\r', '\n', Char.ofNat 0xb, Char.ofNat 0xc, Char.ofNat 0x85, Char.ofNat 0x2028,
    Char.ofNat 0x2029].contains c

/-- Lines of a text as shown, each with its break; a carriage return and a line feed are one
break. -/
def shownLines : List Char → List (List Char)
  | [] => []
  | c :: cs =>
    let extend := fun (rest : List (List Char)) =>
      match rest with
      | [] => [[c]]
      | line :: rest => (c :: line) :: rest
    if c = '\r' ∧ cs.head? = some '\n' then extend (shownLines cs)
    else if isLineBreak c then [c] :: shownLines cs
    else extend (shownLines cs)

/-- A shown line with its index and the character offset of its start. -/
structure Place where
  index : Nat
  offset : Nat
  line : List Char
  deriving DecidableEq, Repr

/-- The last line that starts at or before `target`; `start` is the offset of the first. -/
def placeFrom (target : Nat) : Nat → Nat → List (List Char) → Option Place
  | _, _, [] => none
  | index, start, line :: rest =>
    if start ≤ target then
      (placeFrom target (index + 1) (start + line.length) rest).or (some ⟨index, start, line⟩)
    else none

def place? (source : List Char) (target : Nat) : Option Place :=
  placeFrom target 0 0 (shownLines source)

def spaces (n : Nat) : List Char := List.replicate n ' '

def tabWidth : Nat := 4

/-- What a character shows as in a column, and how many cells it takes. A tab runs to the next
multiple of the tab width. -/
def shown (column : Nat) (c : Char) : Char × Nat :=
  if c = '\t' then (' ', tabWidth - column % tabWidth)
  else if isSpace c then (' ', 1)
  else (c, cellWidth c)

/-- The text of a line from `column` on, with white space as blanks. -/
def showFrom : Nat → List Char → List Char
  | _, [] => []
  | column, c :: cs =>
    let (mark, width) := shown column c
    (if mark = ' ' then spaces width else [mark]) ++ showFrom (column + 1) cs

/-- Cells of a column: those of the character in it, one past the end of the line. -/
def columnWidth (text : List Char) (column : Nat) : Nat :=
  match text[column]? with
  | some c => (shown column c).2
  | none => 1

/-- A row of cells below a line: in each column the first cell and then the further ones. -/
def markRow (line : List Char) (columns : Nat) (first further : Nat → Char) : List Char :=
  (List.range columns).flatMap fun column =>
    match columnWidth line column with
    | 0 => []
    | width + 1 => first column :: List.replicate width (further column)

/-- Marks the columns from `start` to `stop`, with a tee at `arrow`. -/
def underline (line : List Char) (start stop arrow : Nat) : List Char :=
  let bar := fun column => if start ≤ column && column < stop then '─' else ' '
  markRow line (stop + 2) (fun column => if column = arrow then '┬' else bar column) bar

/-- Leads from the tee at `arrow` to the text after the row. -/
def arrowRow (line : List Char) (stop arrow : Nat) : List Char :=
  markRow line (stop + 2)
    (fun column => if column = arrow then '╰' else if column < arrow then ' ' else '─')
    (fun column => if column < arrow then ' ' else '─')

/-- The rows that show the labelled line. A label past the end of its line shows none of it. -/
def labelRows (p : Place) (width start stop : Nat) (label : List Char) : List (List Char) :=
  let margin := spaces (width + 2) ++ ['│', ' ']
  if stop ≤ p.offset + p.line.length then
    let line := dropEndWhile isSpace p.line
    let number := (toString (p.index + 1)).toList
    let arrow := (start + stop) / 2 - p.offset
    [spaces (width + 1 - number.length) ++ number ++ [' ', '│', ' '] ++ showFrom 0 line,
      margin ++ underline line (start - p.offset) (stop - p.offset) arrow,
      margin ++ arrowRow line (stop - p.offset) arrow ++ ' ' :: label]
  else [margin]

/-- The report of one fault: its message and the labelled excerpt of its line. -/
def render (kind : FaultKind) (message : String) (location : Location) (source : List Char) :
    String :=
  let start := charOffset source location.line location.column
  let stop := start + tokenLength source start
  let label := kind.name.toList
  let header := ['['] ++ label ++ "] Error: ".toList ++ message.toList
  let rows :=
    match place? source start with
    | none => []
    | some p =>
      let width := (toString (p.index + 1)).length
      let origin := location.file.text ++ ":" ++ toString (p.index + 1) ++ ":" ++
        toString (start - p.offset + 1)
      [spaces (width + 2) ++ ['╭', '─', '['] ++ origin.toList ++ [']'],
        spaces (width + 2) ++ ['│']] ++
        labelRows p width start stop label ++
        [List.replicate (width + 2) '─' ++ ['╯']]
  String.ofList ((header :: rows).flatMap (· ++ ['\n']))

end ReflectGen.Report
