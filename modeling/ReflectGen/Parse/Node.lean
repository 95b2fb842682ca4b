import ReflectGen.Forest
import ReflectGen.Text.ByteOffset
import ReflectGen.Text.Lines

namespace ReflectGen.Parse

open Text

inductive RecordKind where
  | struct
  | classRecord
  | union
  deriving DecidableEq, Repr

/-- Kinds of parse nodes, as far as declarations are read off them. -/
inductive NodeKind where
  | namespaceDefinition
  | record (kind : RecordKind)
  | enumSpecifier
  | fieldDeclaration
  | declaration
  | functionDefinition
  | templateDeclaration
  | templateParameters
  | linkage
  | accessSpecifier
  | conditional
  /-- The branch of a conditional that its condition does not guard. -/
  | alternative
  /-- A node that only groups declarations, or one that the parser could not read. -/
  | group
  /-- Aliases, assertions, friends and other declarations that name no member. -/
  | remark
  | storageClass
  | typeQualifier
  | identifier
  | destructorName
  | operatorName
  | qualifiedName
  | pointerDeclarator
  | referenceDeclarator
  | arrayDeclarator
  | functionDeclarator
  | parenthesized
  | attributed
  | initialized
  | ifndefKeyword
  | comment
  | other
  deriving DecidableEq, Repr

/-- The kind of a node by its name in the grammar. -/
def NodeKind.ofName : String → NodeKind
  | "namespace_definition" => namespaceDefinition
  | "struct_specifier" => record .struct
  | "class_specifier" => record .classRecord
  | "union_specifier" => record .union
  | "enum_specifier" => enumSpecifier
  | "field_declaration" => fieldDeclaration
  | "declaration" => declaration
  | "function_definition" => functionDefinition
  | "template_declaration" => templateDeclaration
  | "template_parameter_list" => templateParameters
  | "linkage_specification" => linkage
  | "access_specifier" => accessSpecifier
  | "preproc_ifdef" => conditional
  | "preproc_else" | "preproc_elif" => alternative
  | "preproc_if" | "declaration_list" | "ERROR" => group
  | "alias_declaration" | "type_definition" | "using_declaration" | "static_assert_declaration"
  | "friend_declaration" | "namespace_alias_definition" | "template_instantiation" => remark
  | "storage_class_specifier" => storageClass
  | "type_qualifier" => typeQualifier
  | "identifier" | "field_identifier" | "type_identifier" | "template_function"
  | "template_method" => identifier
  | "destructor_name" => destructorName
  | "operator_name" => operatorName
  | "qualified_identifier" => qualifiedName
  | "pointer_declarator" => pointerDeclarator
  | "reference_declarator" => referenceDeclarator
  | "array_declarator" => arrayDeclarator
  | "function_declarator" => functionDeclarator
  | "parenthesized_declarator" => parenthesized
  | "attributed_declarator" => attributed
  | "init_declarator" => initialized
  | "#ifndef" => ifndefKeyword
  | "comment" => comment
  | _ => other

/-- The part a node plays in the one above it. -/
inductive Role where
  | plain
  | name
  | body
  | type
  | declarator
  | size
  | other
  deriving DecidableEq, Repr

def Role.ofName : String → Role
  | "" => plain
  | "name" => name
  | "body" => body
  | "type" => type
  | "declarator" => declarator
  | "size" => size
  | _ => other

/-- A node of a parse tree, over a byte range of the parsed text. -/
structure Node where
  kind : NodeKind
  named : Bool
  role : Role
  start : Nat
  stop : Nat
  deriving DecidableEq, Repr

namespace Node

def text (source : List Char) (n : Node) : List Char := slice n.start n.stop source

/-- The text of a node with each run of white space as one blank. -/
def spelling (source : List Char) (n : Node) : List Char := squeeze (n.text source)

end Node

/-- The nodes below one node, left to right. -/
abbrev Children := Forest Node

/-- The first child in a role, with what stands below it. -/
def child? (role : Role) (cs : Children) : Option (Node × Children) :=
  cs.trees.find? (·.1.role == role)

def inRole (role : Role) (cs : Children) : List (Node × Children) :=
  cs.trees.filter (·.1.role == role)

def namedChildren (cs : Children) : List (Node × Children) := cs.trees.filter (·.1.named)

end ReflectGen.Parse
