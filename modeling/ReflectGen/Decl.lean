import ReflectGen.Path

namespace ReflectGen

/-- The declarations of a C++ file that a scan can meet. -/
inductive DeclKind where
  | translationUnit
  | nameSpace
  | structDef
  | classDef
  | unionDef
  | classTemplate
  | enumDef
  | field
  | method
  | constructorFn
  | destructorFn
  | function
  | object
  | accessLabel
  | linkageBlock
  | other
  deriving DecidableEq, Repr

/-- Only structs and classes can be reflected. -/
def DeclKind.isRecord : DeclKind → Bool
  | structDef | classDef => true
  | _ => false

/-- Member access; declarations outside records are no members. -/
inductive Access where
  | nonMember
  | publicMember
  | protectedMember
  | privateMember
  deriving DecidableEq, Repr

/-- A place in a file; lines and byte columns count from one. -/
structure Location where
  file : Path
  line : Nat
  column : Nat
  deriving DecidableEq, Repr

def Location.text (l : Location) : String :=
  l.file.text ++ ":" ++ toString l.line ++ ":" ++ toString l.column

/-- A type as written and fully qualified. -/
structure TypeName where
  spelling : String := ""
  canonical : String := ""
  deriving DecidableEq, Repr

/-- A type whose qualified form is what was written. -/
def TypeName.plain (spelling : String) : TypeName := ⟨spelling, spelling⟩

structure Decl where
  kind : DeclKind
  spelling : String
  location : Location
  type : TypeName := {}
  access : Access := .nonMember
  deriving DecidableEq, Repr

/-- The declaration that stands for a whole file. -/
def Decl.ofFile (file : Path) : Decl :=
  ⟨.translationUnit, file.text, ⟨file, 1, 1⟩, {}, .nonMember⟩

end ReflectGen
