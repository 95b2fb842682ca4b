import ReflectGen.Decl
import ReflectGen.Directive
import ReflectGen.FileTree.Error

namespace ReflectGen

inductive FaultKind where
  | structuralDirective
  | accessibility
  | incompleteDeclaration
  | invalidMember
  | frontEnd
  deriving DecidableEq, Repr

def FaultKind.name : FaultKind → String
  | structuralDirective => "structural-directive"
  | accessibility => "accessibility"
  | incompleteDeclaration => "incomplete-declaration"
  | invalidMember => "invalid-member"
  | frontEnd => "front-end"

/-- Why a file gave no declaration tree. -/
inductive FrontEndError where
  | read (path : Path) (cause : FileError)
  | parse (path : Path) (problem : String)
  deriving DecidableEq, Repr

def FrontEndError.message : FrontEndError → String
  | read path cause => "failed to read " ++ path.text ++ ": " ++ cause.message
  | parse path problem => "failed to parse " ++ path.text ++ ": " ++ problem

/-- Why a directory entry could not be walked. -/
inductive WalkError where
  | entry (path : Path) (cause : FileError)
  | loop (link ancestor : Path)
  deriving DecidableEq, Repr

def WalkError.path : WalkError → Path
  | entry path _ => path
  | loop link _ => link

def WalkError.message : WalkError → String
  | entry path cause => "IO error for operation on " ++ path.text ++ ": " ++ cause.message
  | loop link ancestor =>
    "File system loop found: " ++ link.text ++ " points to an ancestor " ++ ancestor.text

/-- What a scan can find wrong. -/
inductive Fault where
  /-- A reflect directive where a type is already pending or open. -/
  | nestedReflection
  /-- A reflect directive that nothing follows. -/
  | danglingReflection
  | misplacedDirective (mark : Mark)
  | inaccessibleType (name : String)
  | unreflectable (name : String)
  /-- A type whose last directive no member follows. -/
  | unfinishedType (name : String)
  | unfitMember (mark : Mark) (name : String)
  | frontEnd (error : FrontEndError)
  | walk (error : WalkError)
  deriving DecidableEq, Repr

namespace Fault

def kind : Fault → FaultKind
  | nestedReflection | danglingReflection | misplacedDirective _ => .structuralDirective
  | inaccessibleType _ | unreflectable _ => .accessibility
  | unfinishedType _ => .incompleteDeclaration
  | unfitMember _ _ => .invalidMember
  | frontEnd _ | walk _ => .frontEnd

def message : Fault → String
  | nestedReflection => "Cannot reflect nested types; a reflected type is already pending or open"
  | danglingReflection => "Reflect-type directive is not followed by any declaration"
  | misplacedDirective mark =>
    "Directive " ++ (Directive.member mark).marker ++
      " is only valid directly inside a reflected type"
  | inaccessibleType name =>
    "Ignoring reflected type '" ++ name ++ "': non-public types cannot be reflected"
  | unreflectable name =>
    "Ignoring reflected declaration '" ++ name ++
      "': only public structs and classes can be reflected"
  | unfinishedType name =>
    "Reflected type '" ++ name ++ "' ended while a directive was still pending"
  | unfitMember .aliasRef name =>
    "Directive precedes '" ++ name ++ "', which is not a public data member"
  | unfitMember .method name =>
    "Directive precedes '" ++ name ++ "', which is not a public member method"
  | frontEnd error => error.message
  | walk error => error.message

end Fault

/-- A fault and where it was found. -/
structure ScanError where
  fault : Fault
  location : Location
  deriving DecidableEq, Repr

/-- The text of a message with its place. -/
def Location.annotate (l : Location) (message : String) : String :=
  message ++ " (at " ++ l.text ++ ")"

end ReflectGen
