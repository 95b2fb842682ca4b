import ReflectGen.Digest
import ReflectGen.Emit.Registration
import ReflectGen.FileTree.Store
import ReflectGen.FileTree.Walk
import ReflectGen.Options
import ReflectGen.Scan
import ReflectGen.Text.Utf8

namespace ReflectGen

/-- Reads the declarations of a file off its path and contents. -/
abbrev FrontEnd := Path → List UInt8 → Except FrontEndError DeclTree

/-- What keeps a generation from giving a result. -/
inductive GenerationError where
  | noRoot (root : Path)
  | write (path : Path) (cause : FileError)
  deriving DecidableEq, Repr

def GenerationError.message : GenerationError → String
  | noRoot root => "scan root does not exist or is not a directory: " ++ root.text
  | write path cause => "failed to write " ++ path.text ++ ": " ++ cause.message

inductive WriteOutcome where
  | written
  | unchanged
  deriving DecidableEq, Repr

/-- Whether a file has contents of the same digest. -/
def FileTree.isCurrent (t : FileTree) (p : Path) (bytes : List UInt8) : Bool :=
  match t.read p with
  | .ok old => Digest.hex old == Digest.hex bytes
  | .error _ => false

/-- Replaces a file. Directories above it are made as needed; a failure to make them names the
directory that holds the file. -/
def FileTree.replace (t : FileTree) (p : Path) (bytes : List UInt8) :
    FileTree × Except GenerationError WriteOutcome :=
  let (t, made) := p.parent?.elim (t, .ok ()) t.makeDirs
  match made with
  | .error e => (t, .error (.write (p.parent?.getD p) e))
  | .ok () =>
    match t.write p bytes with
    | (t, .error e) => (t, .error (.write p e))
    | (t, .ok ()) => (t, .ok .written)

/-- Replaces a file unless it is current. -/
def FileTree.writeIfChanged (t : FileTree) (p : Path) (bytes : List UInt8) :
    FileTree × Except GenerationError WriteOutcome :=
  if t.isCurrent p bytes then (t, .ok .unchanged) else t.replace p bytes

/-- File names with this in them are generated. -/
def generatedTag : List Char := ".heartgen.".toList

def hasInfix (part : List Char) : List Char → Bool
  | [] => part.isEmpty
  | c :: cs => part.isPrefixOf (c :: cs) || hasInfix part cs

namespace Project

def isSource (o : Options) (p : Path) : Bool := p.extension?.any fun e => o.extensions.contains e

/-- Whether a path leads to the output, which has the address `out`. -/
def isOutput (t : FileTree) (out : Option Address) (p : Path) : Bool :=
  out.any fun out => p.fileName? == out.getLast? && t.canonical? p == some out

def isGenerated (p : Path) : Bool := p.fileName?.any fun name => hasInfix generatedTag name.toList

/-- Whether a walked file is scanned. -/
def isInput (t : FileTree) (o : Options) (p : Path) : Bool :=
  isSource o p && !isOutput t (t.canonical? o.outputPath) p && !isGenerated p

/-- The input files among what a walk met, in path order. -/
def inputs (t : FileTree) (o : Options) (found : List FileTree.Found) : List Path :=
  (found.filterMap fun f =>
    match f with
    | .file p => if isInput t o p then some p else none
    | .failed _ => none).mergeSort Path.le

/-- What a walk could not enter, in path order. -/
def walkErrors (found : List FileTree.Found) : List ScanError :=
  ((found.filterMap fun f =>
    match f with
    | .file _ => none
    | .failed e => some e).mergeSort fun a b => Path.le a.path b.path).map
      fun e => ⟨.walk e, ⟨e.path, 1, 1⟩⟩

/-- The input files below the root, and what could not be entered there. -/
def survey (t : FileTree) (o : Options) : Except GenerationError (List Path × List ScanError) :=
  if t.isDir o.root then
    let found := t.walk o.root
    .ok (inputs t o found, walkErrors found)
  else .error (.noRoot o.root)

def discover (t : FileTree) (o : Options) : Except GenerationError (List Path) :=
  (survey t o).map (·.1)

def parse (frontEnd : FrontEnd) (t : FileTree) (p : Path) : Except FrontEndError DeclTree :=
  match t.read p with
  | .error e => .error (.read p e)
  | .ok bytes => frontEnd p bytes

/-- A file that gives no declarations is one error and nothing else. -/
def scanFile (frontEnd : FrontEnd) (t : FileTree) (root p : Path) : FileScan :=
  match parse frontEnd t p with
  | .ok tree => scan root tree
  | .error e => { file := p, errors := [⟨.frontEnd e, ⟨p, 1, 1⟩⟩] }

/-- Merges scans in order. -/
def combine (scans : List FileScan) : Metadata × List ScanError :=
  (scans.foldl (fun m s => m.merge s.metadata) {}, scans.flatMap (·.errors))

def scanFiles (frontEnd : FrontEnd) (t : FileTree) (root : Path) (files : List Path) :
    Metadata × List ScanError :=
  combine (files.map (scanFile frontEnd t root))

/-- What a generation gave. One with errors still has what could be read. -/
structure Generation where
  filesScanned : Nat
  metadata : Metadata
  rendered : String
  outputPath : Path
  /-- None if nothing was to be written. -/
  outcome : Option WriteOutcome := none
  errors : List ScanError
  deriving DecidableEq

def Generation.succeeded (g : Generation) : Bool := g.errors.isEmpty

/-- Scans a project and renders its registration file. -/
def render (frontEnd : FrontEnd) (t : FileTree) (o : Options) :
    Except GenerationError Generation :=
  (survey t o).map fun (files, walked) =>
    let (metadata, scanned) := scanFiles frontEnd t o.root files
    { filesScanned := files.length
      metadata := metadata
      rendered := Emit.render metadata
      outputPath := o.outputPath
      errors := walked ++ scanned }

/-- Renders a project's registration file and writes it if it changed. -/
def run (frontEnd : FrontEnd) (t : FileTree) (o : Options) :
    FileTree × Except GenerationError Generation :=
  match render frontEnd t o with
  | .error e => (t, .error e)
  | .ok g =>
    match t.writeIfChanged g.outputPath (Text.encode g.rendered) with
    | (t, .error e) => (t, .error e)
    | (t, .ok outcome) => (t, .ok { g with outcome := some outcome })

end Project

end ReflectGen
