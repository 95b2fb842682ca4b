import ReflectGen.Command
import ReflectGen.Parse.Listing

namespace ReflectGen.Disk

def pathOf (a : Address) : String := "/" ++ "/".intercalate a

def addressOf (p : Path) : Address :=
  p.components.filterMap fun
    | .name text => some text
    | _ => none

/-- What the disk has at an address. -/
inductive Item where
  | file (node : FileNode)
  | dir
  | link (target : Path)

def add (t : FileTree) (a : Address) : Item → FileTree
  | .file node => t.addFile a node
  | .dir => t.set a .dir
  | .link target => t.set a (.link target)

/-- What stands at an address. A link is kept with the place it leads to in the end, or with the
empty path if it leads nowhere. Devices are not read. -/
def item? (a : Address) : IO (Option Item) := do
  let path := System.mkFilePath [pathOf a]
  try
    match (← path.symlinkMetadata).type with
    | .dir => return some .dir
    | .symlink =>
      if ← path.pathExists then return some (.link ⟨(← IO.FS.realPath path).toString⟩)
      else return some (.link ⟨""⟩)
    | .other => return some (.file ⟨.device [] [], {}⟩)
    | .file =>
      let read ← (IO.FS.readBinFile path).toBaseIO
      return some (.file (match read with
        | .ok bytes => ⟨.stored bytes.data.toList, {}⟩
        | .error _ => ⟨.stored [], { readable := false }⟩))
  catch _ => return none

/-- Adds entries with all that stands below them and all that links lead to. -/
partial def load (t : FileTree) : List Address → IO FileTree
  | [] => return t
  | a :: rest => do
    if (t.get? a).isSome then load t rest
    else
      match ← item? a with
      | none => load t rest
      | some .dir =>
        let inside ← (System.mkFilePath [pathOf a]).readDir
        load (t.set a .dir) (inside.toList.map (fun e => a ++ [e.fileName]) ++ rest)
      | some (.link target) => load (t.set a (.link target)) (addressOf target :: rest)
      | some (.file node) => load (t.addFile a node) rest

/-- Adds the entries that the components of a path lead through. -/
def trace (t : FileTree) : Address → List Path.Component → IO FileTree
  | _, [] => return t
  | _, .root :: rest => trace t [] rest
  | a, .here :: rest => trace t a rest
  | a, .up :: rest => trace t a.dropLast rest
  | a, .name text :: rest => do
    let b := a ++ [text]
    match t.get? b with
    | some (.link target) => trace t (addressOf target) rest
    | some _ => trace t b rest
    | none =>
      match ← item? b with
      | none => return t
      | some (.link target) =>
        let goal := addressOf target
        let t := t.set b (.link target)
        let there ← if (t.get? goal).isSome then pure none else item? goal
        trace ((there.map (add t goal)).getD t) goal rest
      | some item => trace (add t b item) b rest

/-- Adds the directories above every entry. -/
def withParents (t : FileTree) : FileTree :=
  t.entries.foldl (fun t (a, _) =>
    (List.range a.length).foldl (fun t n =>
      if (t.get? (a.take n)).isNone then t.set (a.take n) .dir else t) t) t

/-- The disk as far as generation looks at it: the root with all below it, and the ways to the
working directory, to the root and to the output. -/
def snapshot (root : Path) (args : Arguments) : IO FileTree := do
  let cwd : Path := ⟨(← IO.currentDir).toString⟩
  let here := addressOf cwd
  let t ←
    try load { here := here } [addressOf ⟨(← IO.FS.realPath root.text).toString⟩]
    catch _ => pure { here := here }
  let t ← trace t here cwd.components
  let t := withParents (← trace t here root.components)
  let settings := (Settings.load t root).toOption.getD {}
  let output := (Options.build root args settings).outputPath
  return withParents (← trace t here output.components)

/-- Brings a file of the disk to a later state: a device is sent what is new. -/
def storeFile (a : Address) (before : Option FileNode) (after : FileNode) : IO Unit :=
  let put := fun (bytes : List UInt8) => IO.FS.writeBinFile (pathOf a) ⟨bytes.toArray⟩
  if before = some after then pure ()
  else
    match after.body with
    | .stored bytes => put bytes
    | .device _ sent =>
      match before with
      | some ⟨.device _ already, _⟩ => put (sent.drop already.length)
      | _ => put sent

/-- Brings the disk to a later state of its snapshot. -/
def store (before after : FileTree) : IO Unit :=
  after.entries.reverse.forM fun (a, e) =>
    match e with
    | .dir => if before.get? a = some e then pure () else IO.FS.createDirAll (pathOf a)
    | .file _ => (after.node? a).forM (storeFile a (before.node? a))
    | .link _ => pure ()

/-- The parse trees that are listed beside the sources: that of `a.h` in `a.h.parse`. -/
def parser (t : FileTree) : Parse.Parser :=
  .ofTable (t.entries.filterMap fun (a, _) => do
    let source ← t.node? a
    let name ← a.getLast?
    let listing ← t.node? (a.dropLast ++ [name ++ ".parse"])
    let children ← Parse.ofListing? (Text.decodeLossy listing.body.contents)
    return (Source.prepare (Text.decodeLossy source.body.contents), children))

end ReflectGen.Disk

open ReflectGen in
def main (args : List String) : IO UInt32 := do
  let before ←
    match Arguments.parse args with
    | .generate root args => Disk.snapshot root args
    | _ => pure {}
  let (after, out) := Command.run (Disk.parser before) before args
  Disk.store before after
  IO.print out.stdout
  IO.eprint out.stderr
  return out.exit.toUInt32
