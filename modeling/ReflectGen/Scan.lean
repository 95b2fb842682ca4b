import ReflectGen.DeclTree
import ReflectGen.Fault
import ReflectGen.Include
import ReflectGen.Metadata

namespace ReflectGen

/-- What the scan of one file found. -/
structure FileScan where
  file : Path
  metadata : Metadata := {}
  errors : List ScanError := []
  deriving DecidableEq

namespace Scan

open DeclTree (Node)
open Forest (Visit)

/-- What the scan waits for. The last two states know the open record. -/
inductive State where
  | scanning
  | awaitingType
  | inside (record : Node)
  | awaitingMember (record : Node) (mark : Mark)
  deriving DecidableEq, Repr

structure Progress where
  state : State := .scanning
  metadata : Metadata := {}
  errors : List ScanError := []
  deriving DecidableEq

namespace Progress

def fail (p : Progress) (fault : Fault) (location : Location) : Progress :=
  { p with errors := p.errors ++ [⟨fault, location⟩] }

/-- Leaves the open record when the next declaration stands elsewhere. -/
def leave (p : Progress) (next above : Node) : Progress :=
  match p.state with
  | .inside record => if record.id = above.id then p else { p with state := .scanning }
  | .awaitingMember record _ =>
    if record.id = above.id then p
    else
      { p with state := .scanning }.fail (.unfinishedType record.decl.spelling) next.decl.location
  | _ => p

def direct (p : Progress) (directive : Directive) (location : Location) : Progress :=
  match directive, p.state with
  | .reflectType, .scanning => { p with state := .awaitingType }
  | .reflectType, _ => p.fail .nestedReflection location
  | .member mark, .inside record => { p with state := .awaitingMember record mark }
  | .member mark, _ => p.fail (.misplacedDirective mark) location

/-- The declaration after a reflect directive becomes the open record if it may be reflected. -/
def bind (p : Progress) (next : Node) : Progress × Visit :=
  let d := next.decl
  if !d.kind.isRecord then
    ({ p with state := .scanning }.fail (.unreflectable d.spelling) d.location, .skip)
  else if d.access = .publicMember ∨ d.access = .nonMember then
    ({ p with state := .inside next }, .descend)
  else ({ p with state := .scanning }.fail (.inaccessibleType d.spelling) d.location, .skip)

/-- Registers a member under the record's qualified name, with its template instances. -/
def capture (p : Progress) (root : Path) (record : Node) (d : Decl) (kind : FieldKind) :
    Progress :=
  let field : Field := ⟨d.spelling, kind, some (relativeInclude root.bytes d.location.file.bytes)⟩
  let registered := (p.metadata.addField record.decl.type.canonical field).1
  { p with metadata := registered.recordType d.type.spelling }

end Progress

/-- The kind a member is captured as, when its own kind and access fit the pending mark. -/
def fieldKind? (mark : Option Mark) (d : Decl) : Option FieldKind :=
  if d.access ≠ .publicMember then none
  else
    match mark, d.kind with
    | none, .field => some .plain
    | some .aliasRef, .field => some .aliasRef
    | some .method, .method => some .method
    | _, _ => none

/-- A declaration directly inside the open record. Nothing below it is looked at. -/
def visitMember (root : Path) (p : Progress) (record : Node) (mark : Option Mark) (d : Decl) :
    Progress :=
  let q := { p with state := .inside record }
  match fieldKind? mark d, mark with
  | some kind, _ => q.capture root record d kind
  | none, some mark => q.fail (.unfitMember mark d.spelling) d.location
  | none, none => q

def step (root : Path) (p : Progress) (next above : Node) : Progress × Visit :=
  let p := p.leave next above
  match Directive.ofMarker? next.decl.spelling with
  | some directive => (p.direct directive next.decl.location, .skip)
  | none =>
    match p.state with
    | .scanning => (p, .descend)
    | .awaitingType => p.bind next
    | .inside record => (visitMember root p record none next.decl, .skip)
    | .awaitingMember record mark => (visitMember root p record (some mark) next.decl, .skip)

/-- Faults that only the end of the file shows. -/
def finish (file : Path) (p : Progress) : Progress :=
  match p.state with
  | .awaitingMember record _ =>
    p.fail (.unfinishedType record.decl.spelling) record.decl.location
  | .awaitingType => p.fail .danglingReflection ⟨file, 1, 1⟩
  | _ => p

/-- The state of a scan after all declarations and before the end of the file. -/
def walk (root : Path) (tree : DeclTree) : Progress :=
  ((tree.forest 0).visit (step root) tree.unit {}).1

end Scan

/-- Scans one file. Includes are named relative to `root`. -/
def scan (root : Path) (tree : DeclTree) : FileScan :=
  let p := Scan.finish tree.file (Scan.walk root tree)
  ⟨tree.file, p.metadata, p.errors⟩

end ReflectGen
