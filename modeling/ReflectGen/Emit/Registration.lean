import ReflectGen.Emit.Layout
import ReflectGen.Metadata

namespace ReflectGen.Emit

open Layout

/-- The comment that opens and closes a generated file. -/
def generatedMark : String := "/*\tWRITTEN BY HEART-CODEGEN\t*/"

/-- The capacity of data paths, which is registered in every file. -/
def dataPathCapacity : Nat := 64

/-- Primitive types in the order of their registration, with the types each converts to. -/
def primitives : List (String × List String) :=
  [("int8_t", []), ("uint8_t", []), ("int16_t", []), ("uint16_t", []),
    ("int32_t", ["uint32_t", "uint16_t", "uint8_t"]),
    ("uint32_t", ["int32_t", "int16_t", "int8_t"]),
    ("int64_t", []), ("uint64_t", []), ("bool", []), ("float", []), ("double", [])]

def registered (type : String) (body : List String) : Layout :=
  scope ("BEGIN_SERIALIZE_TYPE(" ++ type ++ ")") (some ("END_SERIALIZE_TYPE(" ++ type ++ ")"))
    (lines body) done

/-- A registration that may stand beside others of the same type. -/
def additive (type : String) (body : List String) : Layout :=
  scope ("BEGIN_SERIALIZE_TYPE_ADDITIVE(" ++ type ++ ")")
    (some ("END_SERIALIZE_TYPE(" ++ type ++ ")")) (lines body) done

def selfAccess (type : String) : String :=
  "SERIALIZE_SELF_ACCESS(" ++ type ++ ", &ReflectionSet<" ++ type ++ ">, &ReflectionGet<" ++ type ++
    ">)"

def includeLine (file : String) : String := "#include \"" ++ file ++ "\""

def header (m : Metadata) : Layout :=
  lines [includeLine "gen/gen.h", "#include <heart/deserialization.h>", ""] ++
    lines (m.includes.elems.map includeLine) ++ blank ++
    line "template <typename T>" (block "void ReflectionSet(T& prop, T value)"
      (line "prop = value;" done)) ++ blank ++
    line "template <typename T>" (block "T ReflectionGet(T& prop)" (line "return prop;" done)) ++
    blank

def primitive (type : String) (targets : List String) : Layout :=
  registered type
    (selfAccess type ::
      targets.map fun target => "SERIALIZE_CONVERSION(" ++ type ++ ", " ++ target ++ ")")

def fixedString (capacity : Nat) : String :=
  TypePattern.fixedStringTemplate ++ "<" ++ toString capacity ++ ">"

def sequence (element : String) : String :=
  TypePattern.sequenceTemplate ++ "<" ++ element ++ ">"

/-- The capacities of a file, the one of data paths included. -/
def capacities (m : Metadata) : List Nat := (m.capacities.insert dataPathCapacity).elems

def stringConversions (m : Metadata) : Layout :=
  additive "const char*"
    ((capacities m).map fun n =>
      "SERIALIZE_CONVERSION(const char*, &" ++ fixedString n ++ "::CreateFromCString)")

def stringBlock (capacity : Nat) : Layout :=
  additive (fixedString capacity) [selfAccess (fixedString capacity)]

def sequenceBlock (element : String) : Layout :=
  registered (sequence element)
    ["SERIALIZE_FUNCTION_ALIAS(" ++ sequence element ++ ", emplace_back<>)",
      "SERIALIZE_FUNCTION_ALIAS(" ++ sequence element ++ ", reserve)"]

def fieldMacro : FieldKind → String
  | .plain => "SERIALIZE_FIELD"
  | .aliasRef => "SERIALIZE_FIELD_ALIAS"
  | .method => "SERIALIZE_FUNCTION"

def fieldLine (type : String) (f : Field) : String :=
  fieldMacro f.kind ++ "(" ++ type ++ ", " ++ f.name ++ ")"

def typeBlock (r : TypeRecord) : Layout := registered r.name (r.fields.map (fieldLine r.name))

/-- Every block of the registration function, each with a blank line after it. -/
def blocks (m : Metadata) : List Layout :=
  (primitives.map fun (type, targets) => primitive type targets) ++
    stringConversions m :: (capacities m).map stringBlock ++
    m.elements.elems.map sequenceBlock ++ m.types.map typeBlock

/-- The whole registration file. -/
def registration (m : Metadata) : Layout :=
  line generatedMark blank ++ header m ++
    block "void ReflectSerializedData()" (concat ((blocks m).map (· ++ blank))) ++
    lines ["", generatedMark]

def render (m : Metadata) : String := (({} : CodeWriter).write (registration m)).text

end ReflectGen.Emit
