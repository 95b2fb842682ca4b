import ReflectGen.Fault
import ReflectGen.FileTree.Resolve

namespace ReflectGen.FileTree

/-- What a walk meets: a file, or an entry that it cannot enter. -/
inductive Found where
  | file (path : Path)
  | failed (error : WalkError)
  deriving DecidableEq, Repr

/-- A directory that is being walked, under the path that led to it. -/
structure Opened where
  path : Path
  address : Address
  deriving DecidableEq, Repr

/-- The files that a depth-first walk with links followed meets below a directory, entry after entry
in the order in which the directory lists them. What is neither a file with contents nor a directory
is passed over. An entry fails, and the walk goes on with the next one, if it is a link that leads
nowhere, a directory whose path is too long to open, or a link to a directory that is being walked.
The last is a loop, named by the nearest path to that directory; `above` lists the open ones,
innermost first. -/
def walkFrom (t : FileTree) : Nat → List Opened → Opened → List Found
  | 0, _, _ => []
  | fuel + 1, above, dir =>
    (t.names dir.address).flatMap fun name =>
      let path := dir.path.join ⟨name⟩
      let address := dir.address ++ [name]
      match t.get? address with
      | none => []
      | some (.file _) => if t.isRegular address then [.file path] else []
      | some .dir =>
        if maxPathLength < Text.byteLength path.text.toList then
          [.failed (.entry path .nameTooLong)]
        else walkFrom t fuel (dir :: above) ⟨path, address⟩
      | some (.link _) =>
        match t.address path with
        | .error e => [.failed (.entry path e)]
        | .ok target =>
          if t.get? target = some .dir then
            match (dir :: above).find? (·.address == target) with
            | some ancestor => [.failed (.loop path ancestor.path)]
            | none => walkFrom t fuel (dir :: above) ⟨path, target⟩
          else if t.isRegular target then [.file path]
          else []

/-- Depth of the deepest walk. Links lead to ever new directories, and between two links a walk
goes down the tree. -/
def maxDepth (t : FileTree) : Nat := (t.entries.length + 2) * (t.entries.length + 2)

/-- Files below `root`, which leads to a directory, and what could not be entered. -/
def walk (t : FileTree) (root : Path) : List Found :=
  match t.address? root with
  | none => []
  | some address => t.walkFrom t.maxDepth [] ⟨root, address⟩

end ReflectGen.FileTree
