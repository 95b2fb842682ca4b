import Mathlib.Data.List.Nodup
import Mathlib.Data.String.Basic
import ReflectGen.Proofs.StoreViews

namespace ReflectGen

/-- A captured member, without the include that contributed it. -/
structure Member where
  name : String
  kind : FieldKind
  deriving DecidableEq

structure Record where
  name : String
  members : List Member := []
  deriving DecidableEq

namespace Record

def names (r : Record) : List String := r.members.map Member.name

/-- Adds a member at the end unless its name is taken. The flag tells whether it was added. -/
def insert (r : Record) (m : Member) : Record × Bool :=
  if m.name ∈ r.names then (r, false) else ({ r with members := r.members ++ [m] }, true)

end Record

/-- The include of each captured field, by type and field. -/
abbrev Origins := Std.ExtHashMap (String × String) String

structure IndexedStore where
  records : List Record := []
  index : Std.ExtHashMap String Nat := ∅
  capacities : SortedSet Nat := ∅
  elements : SortedSet String := ∅
  includes : SortedSet String := ∅
  origins : Origins := ∅

namespace IndexedStore

def names (s : IndexedStore) : List String := s.records.map Record.name

/-- The named record by way of the index; `some none` if its place is out of range. -/
def lookup (s : IndexedStore) (type : String) : Option (Option Record) :=
  s.index[type]?.map fun i => s.records[i]?

def replaceAt (s : IndexedStore) (i : Nat) (r : Record) : IndexedStore :=
  { s with records := s.records.set i r }

/-- Appends a record and enters its place. -/
def push (s : IndexedStore) (r : Record) : IndexedStore :=
  { s with records := s.records ++ [r], index := s.index.insert r.name s.records.length }

/-- The place of the named record, in a store that has it. -/
def openRecord (s : IndexedStore) (type : String) : IndexedStore × Nat :=
  let next := s.records.length
  let i := s.index.getD type next
  let indexed := { s with index := s.index.insertIfNew type next }
  (if i = next then { indexed with records := s.records ++ [⟨type, []⟩] } else indexed, i)

/-- Lists the include of a field that was just captured. -/
def credit (s : IndexedStore) (type : String) (m : Member) : Option String → IndexedStore
  | none => s
  | some file =>
    { s with includes := s.includes.insert file, origins := s.origins.insert (type, m.name) file }

/-- Captures a member, from an include or without one. The flag tells whether it is new; there is no
result if the place of the record is out of range. -/
def addField (s : IndexedStore) (type : String) (m : Member) (origin : Option String) :
    Option (IndexedStore × Bool) :=
  let (opened, i) := s.openRecord type
  opened.records[i]?.map fun r =>
    let (r, new) := r.insert m
    let stored := opened.replaceAt i r
    (if new then stored.credit type m origin else stored, new)

def addInclude (s : IndexedStore) (file : String) : IndexedStore :=
  { s with includes := s.includes.insert file }

def record (s : IndexedStore) : TypePattern → IndexedStore
  | .fixedString capacity => { s with capacities := s.capacities.insert capacity }
  | .sequence element => { s with elements := s.elements.insert element }

/-- One round of a merge. The origins are those of the other store that are not yet taken over. -/
def takeOver (type : String) (state : IndexedStore × Origins) (m : Member) :
    Option (IndexedStore × Origins) :=
  let key := (type, m.name)
  (state.1.addField type m state.2[key]?).map fun (s, new) =>
    (s, if new then state.2.erase key else state.2)

def mergeInstances (s other : IndexedStore) : IndexedStore :=
  { s with
    capacities := s.capacities.union other.capacities
    elements := s.elements.union other.elements }

def takeOverRecord (state : IndexedStore × Origins) (r : Record) :
    Option (IndexedStore × Origins) :=
  r.members.foldlM (takeOver r.name) state

def merge (s other : IndexedStore) : Option IndexedStore :=
  (other.records.foldlM takeOverRecord (s, other.origins)).map fun state =>
    state.1.mergeInstances other

end IndexedStore

section View

variable (origins : Origins)

def Member.field (type : String) (m : Member) : Field := ⟨m.name, m.kind, origins[(type, m.name)]?⟩

@[simp] theorem Member.name_field (type : String) (m : Member) :
    (m.field origins type).name = m.name := rfl

def Record.typeRecord (r : Record) : TypeRecord := ⟨r.name, r.members.map (·.field origins r.name)⟩

theorem Record.typeRecord_injective : Function.Injective (Record.typeRecord origins) := by
  have member : ∀ type, Function.Injective (Member.field origins type) := by
    rintro type ⟨name, kind⟩ ⟨name', kind'⟩ same
    simp only [Member.field, Field.mk.injEq] at same
    rw [same.1, same.2.1]
  rintro ⟨name, members⟩ ⟨name', members'⟩ same
  simp only [typeRecord, TypeRecord.mk.injEq] at same
  obtain ⟨rfl, same⟩ := same
  rw [List.map_injective_iff.mpr (member name) same]

end View

namespace IndexedStore

/-- What a store registers. -/
def metadata (s : IndexedStore) : Metadata where
  types := s.records.map (·.typeRecord s.origins)
  capacities := s.capacities
  elements := s.elements
  includes := s.includes

def Captured (s : IndexedStore) (type name : String) : Prop :=
  ∃ r ∈ s.records, r.name = type ∧ name ∈ r.names

/-- The tables are in step with the records. -/
structure WellFormed (s : IndexedStore) : Prop where
  names_nodup : s.names.Nodup
  index_iff : ∀ (type : String) (i : Nat), s.index[type]? = some i ↔ s.names[i]? = some type
  members_ne_nil : ∀ r ∈ s.records, r.members ≠ []
  members_nodup : ∀ r ∈ s.records, r.names.Nodup
  origins_captured : ∀ type name, (type, name) ∈ s.origins → s.Captured type name
  origins_listed : ∀ (key : String × String) (file : String),
    s.origins[key]? = some file → file ∈ s.includes.elems

theorem wellFormed_empty : WellFormed {} where
  names_nodup := .nil
  index_iff := by simp [names]
  members_ne_nil := by simp
  members_nodup := by simp
  origins_captured := by simp
  origins_listed := by simp

section Views

variable {s : IndexedStore}

theorem typeNames_metadata (s : IndexedStore) : s.metadata.typeNames = s.names := by
  simp only [Metadata.typeNames, metadata, names, List.map_map]
  rfl

theorem names_fields (r : Record) (origins : Origins) :
    (r.typeRecord origins).fields.map Field.name = r.names := by
  simp only [Record.typeRecord, List.map_map, Record.names]
  rfl

theorem type?_metadata (s : IndexedStore) (type : String) :
    s.metadata.type? type =
      (s.records.find? (·.name == type)).map (·.typeRecord s.origins) := by
  simp only [Metadata.type?, metadata, List.find?_map]
  rfl

/-- The index finds what a search of the row finds. -/
theorem WellFormed.lookup_eq (h : s.WellFormed) (type : String) :
    s.lookup type = (s.records.find? (·.name == type)).map some := by
  unfold lookup
  cases found : s.records.find? (·.name == type) with
  | some r =>
    have name : r.name = type := by simpa using List.find?_some found
    obtain ⟨i, hi⟩ := List.getElem?_of_mem (List.mem_of_find?_eq_some found)
    have place : s.index[type]? = some i := by
      rw [h.index_iff, names, List.getElem?_map, hi, Option.map_some, name]
    rw [place, Option.map_some, hi, Option.map_some]
  | none =>
    rw [List.find?_eq_none] at found
    have nowhere : s.index[type]? = none := by
      rw [Option.eq_none_iff_forall_ne_some]
      intro i hi
      rw [h.index_iff, names, List.getElem?_map, Option.map_eq_some_iff] at hi
      obtain ⟨r, hr, name⟩ := hi
      exact found r (List.mem_of_getElem? hr) (by simpa using name)
    rw [nowhere]
    rfl

theorem WellFormed.find?_name (h : s.WellFormed) {r : Record} (hr : r ∈ s.records) :
    s.records.find? (·.name == r.name) = some r := by
  cases found : s.records.find? (·.name == r.name) with
  | none => exact absurd (List.find?_eq_none.mp found r hr) (by simp)
  | some r' =>
    have name : r'.name = r.name := by simpa using List.find?_some found
    rw [List.inj_on_of_nodup_map h.names_nodup (List.mem_of_find?_eq_some found) hr name]

theorem WellFormed.fieldsOf_name (h : s.WellFormed) {r : Record} (hr : r ∈ s.records) :
    s.metadata.fieldsOf r.name = (r.typeRecord s.origins).fields := by
  rw [Metadata.fieldsOf, type?_metadata, h.find?_name hr]
  rfl

/-- A type that has fields has a record for them. -/
theorem exists_record {type : String} (ne : s.metadata.fieldsOf type ≠ []) :
    ∃ r ∈ s.records, r.name = type ∧
      s.metadata.fieldsOf type = (r.typeRecord s.origins).fields := by
  rw [Metadata.fieldsOf, type?_metadata] at ne ⊢
  cases found : s.records.find? (·.name == type) with
  | none => simp [found] at ne
  | some r => exact ⟨r, List.mem_of_find?_eq_some found, by simpa using List.find?_some found, rfl⟩

theorem WellFormed.sound (h : s.WellFormed) : s.metadata.Sound := by
  refine ⟨?_, ?_, ?_⟩
  · rw [typeNames_metadata]
    exact h.names_nodup
  · intro type ht
    rw [typeNames_metadata] at ht
    obtain ⟨r, hr, rfl⟩ := List.mem_map.mp ht
    rw [h.fieldsOf_name hr]
    exact fun none => h.members_ne_nil r hr (List.map_eq_nil_iff.mp none)
  · intro type
    by_cases none : s.metadata.fieldsOf type = []
    · rw [none]
      exact .nil
    · obtain ⟨r, hr, -, same⟩ := exists_record none
      rw [same, names_fields]
      exact h.members_nodup r hr

theorem captured_of_isSome_field? {type name : String}
    (some : (s.metadata.field? type name).isSome) : s.Captured type name := by
  rw [Metadata.field?_eq_find?, List.find?_isSome] at some
  obtain ⟨f, hf, named⟩ := some
  obtain ⟨r, hr, type_eq, same⟩ := exists_record (List.ne_nil_of_mem hf)
  refine ⟨r, hr, type_eq, ?_⟩
  rw [← names_fields r s.origins, ← same]
  exact List.mem_map.mpr ⟨f, hf, by simpa using named⟩

theorem WellFormed.captured_iff (h : s.WellFormed) (type name : String) :
    s.Captured type name ↔ (s.metadata.field? type name).isSome := by
  refine ⟨?_, captured_of_isSome_field?⟩
  rintro ⟨r, hr, rfl, hn⟩
  rw [← names_fields r s.origins] at hn
  obtain ⟨f, hf, rfl⟩ := List.mem_map.mp hn
  rw [Metadata.field?_eq_find?, List.find?_isSome, h.fieldsOf_name hr]
  exact ⟨f, hf, by simp⟩

/-- The table of origins says what the fields of the metadata say. -/
theorem WellFormed.getElem?_origins (h : s.WellFormed) (type name : String) :
    s.origins[(type, name)]? = (s.metadata.field? type name).bind Field.origin := by
  cases hf : s.metadata.field? type name with
  | none =>
    apply Std.ExtHashMap.getElem?_eq_none
    intro key
    have captured := (h.captured_iff type name).mp (h.origins_captured type name key)
    simp [hf] at captured
  | some f =>
    rw [Metadata.field?_eq_find?] at hf
    have mem := List.mem_of_find?_eq_some hf
    obtain ⟨r, hr, rfl, same⟩ := exists_record (List.ne_nil_of_mem mem)
    rw [same] at mem
    obtain ⟨m, hm, rfl⟩ := List.mem_map.mp mem
    have named : m.name = name := by simpa using List.find?_some hf
    rw [← named]
    rfl

/-- A well-formed store is determined by what it registers. -/
theorem WellFormed.ext {t : IndexedStore} (hs : s.WellFormed) (ht : t.WellFormed)
    (same : s.metadata = t.metadata) : s = t := by
  have index : s.index = t.index := by
    apply Std.ExtHashMap.ext_getElem?
    intro type
    apply Option.ext
    intro i
    rw [hs.index_iff, ht.index_iff, ← typeNames_metadata, same, typeNames_metadata]
  have origins : s.origins = t.origins := by
    apply Std.ExtHashMap.ext_getElem?
    intro key
    rw [hs.getElem?_origins, ht.getElem?_origins, same]
  have records : s.records = t.records := by
    have types := congrArg Metadata.types same
    simp only [metadata, origins] at types
    exact List.map_injective_iff.mpr (Record.typeRecord_injective t.origins) types
  have capacities : s.capacities = t.capacities := congrArg Metadata.capacities same
  have elements : s.elements = t.elements := congrArg Metadata.elements same
  have includes : s.includes = t.includes := congrArg Metadata.includes same
  cases s
  cases t
  simp_all only

end Views

end IndexedStore

end ReflectGen
