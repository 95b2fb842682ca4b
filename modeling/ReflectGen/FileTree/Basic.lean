import ReflectGen.FileTree.Error
import ReflectGen.Path

namespace ReflectGen

/-- Names from the root of the file system down to one entry. -/
abbrev Address := List String

/-- What a file does with bytes. -/
inductive FileBody where
  /-- What is written is what is read afterwards. -/
  | stored (contents : List UInt8)
  /-- What is written is sent elsewhere, and what is read does not depend on it. -/
  | device (gives sent : List UInt8)
  deriving DecidableEq, Repr

namespace FileBody

def contents : FileBody → List UInt8
  | stored contents => contents
  | device gives _ => gives

def isStored : FileBody → Bool
  | stored _ => true
  | device _ _ => false

/-- The body once bytes were written to it. -/
def take : FileBody → List UInt8 → FileBody
  | stored _, bytes => stored bytes
  | device gives sent, bytes => device gives (sent ++ bytes)

end FileBody

/-- What may be done with a file. -/
structure FileAccess where
  readable : Bool := true
  writable : Bool := true
  deriving DecidableEq, Repr

/-- A file apart from its names. -/
structure FileNode where
  body : FileBody
  access : FileAccess := {}
  deriving DecidableEq, Repr

def FileNode.read (node : FileNode) : Except FileError (List UInt8) :=
  if node.access.readable then .ok node.body.contents else .error .permissionDenied

inductive FileEntry where
  /-- One of the names of a file. -/
  | file (id : Nat)
  | dir
  | link (target : Path)
  deriving DecidableEq, Repr

/-- The entries of a file system by address, the files by number, and the directory that relative
paths start from. The root is a directory without an entry. Every directory can be listed, entered
and added to. -/
structure FileTree where
  entries : List (Address × FileEntry) := []
  here : Address := []
  files : List FileNode := []
  /-- What may be done with a file once it was created. -/
  newAccess : FileAccess := {}
  /-- How many more bytes can be stored, if there is a bound. -/
  room : Option Nat := none
  deriving DecidableEq, Repr

namespace FileTree

def get? (t : FileTree) (a : Address) : Option FileEntry :=
  if a = [] then some .dir else (t.entries.find? (·.1 == a)).map (·.2)

def set (t : FileTree) (a : Address) (e : FileEntry) : FileTree :=
  { t with entries := (a, e) :: t.entries.filter (·.1 != a) }

theorem get?_set (t : FileTree) (a b : Address) (e : FileEntry) (h : a ≠ []) :
    (t.set a e).get? b = if a = b then some e else t.get? b := by
  by_cases hab : a = b
  · subst hab
    simp [get?, set, h]
  · by_cases hb : b = []
    · simp [get?, hb, h]
    · have hfind : (t.entries.filter (·.1 != a)).find? (·.1 == b) = t.entries.find? (·.1 == b) := by
        rw [List.find?_filter]
        congr 1
        funext x
        by_cases hx : x.1 = b
        · simp [hx, Ne.symm hab]
        · simp [hx]
      simp [get?, set, hb, hab, hfind]

/-- Puts a file that has no name yet at an address. -/
def addFile (t : FileTree) (a : Address) (node : FileNode) : FileTree :=
  { t.set a (.file t.files.length) with files := t.files ++ [node] }

/-- Removes an entry with all that stands below it. -/
def remove (t : FileTree) (a : Address) : FileTree :=
  { t with entries := t.entries.filter fun e => !a.isPrefixOf e.1 }

/-- The names directly inside a directory. -/
def names (t : FileTree) (a : Address) : List String :=
  t.entries.filterMap fun e => if e.1.dropLast = a then e.1.getLast? else none

/-- The file at an address. -/
def node? (t : FileTree) (a : Address) : Option FileNode :=
  match t.get? a with
  | some (.file id) => t.files[id]?
  | _ => none

/-- Whether a file that stores its contents stands at an address. -/
def isRegular (t : FileTree) (a : Address) : Bool := (t.node? a).any (·.body.isStored)

end FileTree

end ReflectGen
