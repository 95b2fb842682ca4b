import ReflectGen.FileTree.Basic
import ReflectGen.Text.ByteOffset

namespace ReflectGen.FileTree

open Text

/-- Where a path leads: to an entry, or to a free name in a directory. -/
inductive Target where
  | found (a : Address)
  | free (dir : Address) (name : String)
  deriving DecidableEq, Repr

/-- How the last piece of a path is taken: through a link, as the link itself, or as the name of a
file to create, after which no slash may stand. -/
inductive Last where
  | follow
  | keep
  | create
  deriving DecidableEq, Repr

def maxNameLength : Nat := 255

def maxPathLength : Nat := 4095

def maxLinks : Nat := 40

/-- Goes down the pieces of a path from a directory, through entries whose address `fits`. A link is
handed to `resume` with the directory it stands in and the pieces after it. -/
def advance (t : FileTree) (last : Last) (fits : Address → Bool)
    (resume : Address → Path → List (List Char) → Except FileError Target) :
    Address → List (List Char) → Except FileError Target
  | a, [] => .ok (.found a)
  | a, piece :: rest =>
    if t.get? a ≠ some .dir then .error .notDirectory
    else if Path.isIdle piece then advance t last fits resume a rest
    else if piece = ['.', '.'] then advance t last fits resume a.dropLast rest
    else if maxNameLength < byteLength piece then .error .nameTooLong
    else
      let name := String.ofList piece
      let slashed := rest ≠ [] ∧ rest.all (· = [])
      if !fits (a ++ [name]) then .error .nameTooLong
      else if last = .create ∧ slashed then .error .isDirectory
      else
        match t.get? (a ++ [name]) with
        | none => if rest = [] ∨ slashed then .ok (.free a name) else .error .notFound
        | some (.link target) =>
          if rest = [] ∧ last = .keep then .ok (.found (a ++ [name]))
          else resume a target rest
        | some _ => advance t last fits resume (a ++ [name]) rest

/-- Goes down the pieces of a path through at most so many links. An empty path leads nowhere. -/
def locateFrom (t : FileTree) (last : Last) (fits : Address → Bool) :
    Nat → Address → List (List Char) → Except FileError Target
  | 0 => t.advance last fits fun _ _ _ => .error .tooManyLinks
  | links + 1 => t.advance last fits fun a target rest =>
    if target.text = "" then .error .notFound
    else
      locateFrom t last fits links (if target.isAbsolute then [] else a)
        (Path.segments target.text.toList ++ rest)

/-- The directory that a path starts from. -/
def startOf (t : FileTree) (p : Path) : Address := if p.isAbsolute then [] else t.here

/-- Where a path leads. -/
def locate (t : FileTree) (last : Last) (p : Path) : Except FileError Target :=
  let text := p.text.toList
  if text = [] then .error .notFound
  else if text.contains (Char.ofNat 0) then .error .nulInPath
  else if maxPathLength < byteLength text then .error .nameTooLong
  else t.locateFrom last (fun _ => true) maxLinks (t.startOf p) (Path.segments text)

/-- The address of an existing entry, through links. -/
def address (t : FileTree) (p : Path) : Except FileError Address :=
  match t.locate .follow p with
  | .ok (.found a) => .ok a
  | .ok (.free _ _) => .error .notFound
  | .error e => .error e

def address? (t : FileTree) (p : Path) : Option Address := (t.address p).toOption

/-- The length of an address that is written out from the root. -/
def writtenLength : Address → Nat
  | [] => 0
  | name :: rest => byteLength name.toList + 1 + writtenLength rest

def fitsWritten (a : Address) : Bool := writtenLength a ≤ maxPathLength

/-- The address of an existing entry, found by writing out each address on the way. How long the
path itself is does not matter. -/
def canonical? (t : FileTree) (p : Path) : Option Address :=
  let text := p.text.toList
  if text = [] ∨ text.contains (Char.ofNat 0) then none
  else
    match t.locateFrom .follow fitsWritten maxLinks (t.startOf p) (Path.segments text) with
    | .ok (.found a) => some a
    | _ => none

def isDir (t : FileTree) (p : Path) : Bool := (t.address? p).any fun a => t.get? a == some .dir

end ReflectGen.FileTree
