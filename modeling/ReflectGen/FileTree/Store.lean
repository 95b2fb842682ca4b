import ReflectGen.FileTree.Resolve

namespace ReflectGen.FileTree

def read (t : FileTree) (p : Path) : Except FileError (List UInt8) :=
  match t.address p with
  | .error e => .error e
  | .ok a =>
    match t.node? a with
    | some node => node.read
    | none => .error .isDirectory

/-- Opens the file at a path for writing. It is created if its name is free. -/
def openFile (t : FileTree) (p : Path) : Except FileError (FileTree × Nat) :=
  match t.locate .create p with
  | .error e => .error e
  | .ok (.free dir name) =>
    .ok (t.addFile (dir ++ [name]) ⟨.stored [], t.newAccess⟩, t.files.length)
  | .ok (.found a) =>
    match t.get? a with
    | some (.file id) =>
      if (t.files[id]?).any (·.access.writable) then .ok (t, id) else .error .permissionDenied
    | _ => .error .isDirectory

/-- Writes bytes to an open file. One that stores its contents is emptied first, and keeps the bytes
that there was room for. -/
def fill (t : FileTree) (id : Nat) (bytes : List UInt8) : FileTree × Except FileError Unit :=
  match t.files[id]? with
  | none => (t, .error .notFound)
  | some node =>
    match node.body with
    | .device _ _ =>
      ({ t with files := t.files.set id { node with body := node.body.take bytes } }, .ok ())
    | .stored old =>
      let room := t.room.map (· + old.length)
      let kept := room.elim bytes bytes.take
      ({ t with
          files := t.files.set id { node with body := node.body.take kept }
          room := room.map (· - kept.length) },
        if kept.length < bytes.length then .error .noSpace else .ok ())

/-- Replaces the contents of a file, which is created if its name is free. What a failure leaves of
the file stays. -/
def write (t : FileTree) (p : Path) (bytes : List UInt8) : FileTree × Except FileError Unit :=
  match t.openFile p with
  | .error e => (t, .error e)
  | .ok (t, id) => t.fill id bytes

/-- A path without the slashes at its end. -/
def withoutSlashes (p : Path) : Path :=
  let text := (p.text.toList.reverse.dropWhile (· == '/')).reverse
  if text = [] then p else ⟨String.ofList text⟩

/-- Puts a new entry at a free name. -/
def place (t : FileTree) (p : Path) (e : FileEntry) : Except FileError FileTree :=
  match t.locate .keep p with
  | .error e => .error e
  | .ok (.found _) => .error .alreadyExists
  | .ok (.free dir name) => .ok (t.set (dir ++ [name]) e)

def makeDir (t : FileTree) (p : Path) : Except FileError FileTree := t.place (withoutSlashes p) .dir

/-- A directory that cannot be made is none the less there if it was before. -/
def makeDirUnlessThere (t : FileTree) (p : Path) : FileTree × Except FileError Unit :=
  match t.makeDir p with
  | .ok t => (t, .ok ())
  | .error e => if t.isDir p then (t, .ok ()) else (t, .error e)

/-- Makes a directory and those above it. What was made before a failure stays. The number of
components bounds that of the directories. -/
def makeDirsUpTo : Nat → FileTree → Path → FileTree × Except FileError Unit
  | 0, t, _ => (t, .error .notFound)
  | fuel + 1, t, p =>
    if p.text = "" then (t, .ok ())
    else
      match t.makeDir p, p.parent? with
      | .error .notFound, some above =>
        match makeDirsUpTo fuel t above with
        | (t, .ok ()) => t.makeDirUnlessThere p
        | (t, .error e) => (t, .error e)
      | _, _ => t.makeDirUnlessThere p

def makeDirs (t : FileTree) (p : Path) : FileTree × Except FileError Unit :=
  makeDirsUpTo (p.components.length + 2) t p

/-- Removes a file, a link or a directory with all that stands below it. -/
def delete (t : FileTree) (p : Path) : Except FileError FileTree :=
  match t.locate .keep p with
  | .error e => .error e
  | .ok (.free _ _) => .error .notFound
  | .ok (.found a) => .ok (t.remove a)

end ReflectGen.FileTree
