import ReflectGen.SortedSet
import ReflectGen.TypePattern

namespace ReflectGen

/-- How a captured member is registered. -/
inductive FieldKind where
  | plain
  | aliasRef
  | method
  deriving DecidableEq, Repr

/-- A captured member, with the include that contributed it where that is known. -/
structure Field where
  name : String
  kind : FieldKind
  origin : Option String := none
  deriving DecidableEq, Repr

/-- A reflected type and its members in the order of their capture. -/
structure TypeRecord where
  name : String
  fields : List Field := []
  deriving DecidableEq, Repr

namespace TypeRecord

def field? (r : TypeRecord) (name : String) : Option Field := r.fields.find? (·.name == name)

/-- Adds a field at the end unless its name is taken. -/
def insert (r : TypeRecord) (f : Field) : TypeRecord :=
  if (r.field? f.name).isSome then r else { r with fields := r.fields ++ [f] }

end TypeRecord

/-- What is registered: types in the order of their discovery, the capacities and elements of
template instances, and the includes that declare the types. -/
structure Metadata where
  types : List TypeRecord := []
  capacities : SortedSet Nat := ∅
  elements : SortedSet String := ∅
  includes : SortedSet String := ∅
  deriving DecidableEq

namespace Metadata

def type? (m : Metadata) (name : String) : Option TypeRecord := m.types.find? (·.name == name)

def field? (m : Metadata) (type name : String) : Option Field :=
  (m.type? type).bind (·.field? name)

/-- Template instances apart, nothing is registered. -/
def hasNoInstances (m : Metadata) : Bool := m.capacities.isEmpty && m.elements.isEmpty

def isEmpty (m : Metadata) : Bool := m.types.isEmpty && m.hasNoInstances

/-- Adds a field to the named type, which is appended when it is new. -/
def insertField (type : String) (f : Field) : List TypeRecord → List TypeRecord
  | [] => [⟨type, [f]⟩]
  | r :: rest => if r.name = type then r.insert f :: rest else r :: insertField type f rest

/-- Captures a field; the first one seen under a name stays. A new field brings its include
along. The flag tells whether the field is new. -/
def addField (m : Metadata) (type : String) (f : Field) : Metadata × Bool :=
  if (m.field? type f.name).isSome then (m, false)
  else
    ({ m with
        types := insertField type f m.types
        includes := f.origin.elim m.includes m.includes.insert }, true)

def addInclude (m : Metadata) (file : String) : Metadata × Bool :=
  ({ m with includes := m.includes.insert file }, !m.includes.contains file)

/-- Registers a template instance. The flag tells whether it is new. -/
def record (m : Metadata) : TypePattern → Metadata × Bool
  | .fixedString capacity =>
    ({ m with capacities := m.capacities.insert capacity }, !m.capacities.contains capacity)
  | .sequence element =>
    ({ m with elements := m.elements.insert element }, !m.elements.contains element)

/-- Registers every template instance of a type as written. -/
def recordType (m : Metadata) (type : String) : Metadata :=
  (TypePattern.classify type).foldl (fun m p => (m.record p).1) m

def mergeInstances (m other : Metadata) : Metadata :=
  { m with
    capacities := m.capacities.union other.capacities
    elements := m.elements.union other.elements }

/-- Folds a later result in. Fields seen before stay, and an include comes over only with a field
that it contributed. -/
def merge (m other : Metadata) : Metadata :=
  (other.types.foldl (fun m r => r.fields.foldl (fun m f => (m.addField r.name f).1) m) m)
    |>.mergeInstances other

end Metadata

end ReflectGen
