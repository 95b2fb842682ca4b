import ReflectGen.DeclTree
import ReflectGen.Parse.Declarator

namespace ReflectGen.Parse

open Text

/-- Defined while sources are read for generation. -/
def activeDefine : List Char := "__HEART_CODEGEN_ACTIVE".toList

/-- Where a declaration stands: the enclosing names and, inside a record, the record's own name. -/
structure Scope where
  qualifier : List Char := []
  record : Option (List Char) := none
  deriving DecidableEq, Repr

namespace Scope

def qualify (s : Scope) (name : List Char) : List Char :=
  if s.qualifier = [] ∨ name = [] then name else s.qualifier ++ [':', ':'] ++ name

/-- The access of a declaration: that in force inside a record, none elsewhere. -/
def memberAccess (s : Scope) (inForce : Access) : Access :=
  if s.record.isSome then inForce else .nonMember

end Scope

/-- A file and the text its parse tree is about. -/
structure SourceFile where
  path : Path
  text : List Char
  deriving DecidableEq, Repr

namespace SourceFile

def place (src : SourceFile) (n : Node) : Location :=
  let spot := position n.start src.text
  ⟨src.path, spot.1 + 1, spot.2 + 1⟩

def declare (src : SourceFile) (kind : DeclKind) (spelling : List Char) (n : Node)
    (type : TypeName) (access : Access) : Decl :=
  ⟨kind, String.ofList spelling, src.place n, type, access⟩

end SourceFile

/-- Which of the nodes below one are turned into declarations, and how. -/
inductive Pick where
  /-- All of them. -/
  | items
  /-- What a template declares. -/
  | templated
  /-- One side of a conditional: the alternatives if set, else all but those. -/
  | branch (alternatives : Bool)
  /-- Those inside the body. -/
  | body
  /-- The body itself. -/
  | linked
  /-- The type, if it is defined in place. -/
  | definedType
  deriving DecidableEq, Repr

/-- Whether only the first node that fits is taken. -/
def Pick.once : Pick → Bool
  | .body | .linked | .definedType => true
  | _ => false

/-- What a node contributes to the declarations. -/
inductive Action where
  | declare (ds : List Decl)
  /-- A type defined in place, then declarations. -/
  | define (ds : List Decl)
  /-- The nodes below it stand in its place. -/
  | splice (pick : Pick)
  /-- A declaration with a body in a scope of its own. -/
  | enclose (d : Decl) (scope : Scope) (access : Access)
  /-- A declaration with a body in the scope around it. -/
  | link (d : Decl)
  /-- A declaration that changes the access in force. -/
  | label (d : Decl) (access : Access)
  deriving DecidableEq, Repr

namespace SourceFile

/-- The type of a declaration as written, after its qualifiers. -/
def typeText (src : SourceFile) (cs : Children) : List Char :=
  let qualifiers :=
    ((namedChildren cs).filter (·.1.kind == .typeQualifier)).map (·.1.spelling src.text)
  let type := (child? .type cs).toList.map (·.1.spelling src.text)
  [' '].intercalate (qualifiers ++ type)

def functionKind (src : SourceFile) (scope : Scope) (name : Node) (typed : Bool) : DeclKind :=
  match scope.record with
  | none => .function
  | some record =>
    if name.kind = .destructorName then .destructorFn
    else if name.text src.text = record ∨ (!typed ∧ name.kind ≠ .operatorName) then .constructorFn
    else .method

/-- The declarations of a declarator list. -/
def declarators (src : SourceFile) (scope : Scope) (access : Access) (n : Node) (cs : Children) :
    List Decl :=
  let typed := (child? .type cs).isSome
  let isStatic := (namedChildren cs).any fun c =>
    c.1.kind == .storageClass && c.1.text src.text == "static".toList
  let isField := n.kind = .fieldDeclaration && scope.record.isSome && !isStatic
  (inRole .declarator cs).filterMap fun d =>
    (Declarator.name? d).map fun name =>
      let kind :=
        if Declarator.isFunction d then src.functionKind scope name typed
        else if isField then .field
        else .object
      src.declare kind (name.text src.text) name
        (.plain (String.ofList (Declarator.decorate src.text (src.typeText cs) d)))
        (scope.memberAccess access)

def enclosedNamespace (src : SourceFile) (scope : Scope) (n : Node) (cs : Children) : Action :=
  let nameNode := (child? .name cs).map (·.1)
  let name := nameNode.elim [] (·.text src.text)
  let qualified := if name = [] then scope.qualifier else scope.qualify name
  .enclose (src.declare .nameSpace name (nameNode.getD n) (.plain (String.ofList qualified))
    .nonMember) ⟨qualified, none⟩ .nonMember

def recordKind : RecordKind → DeclKind
  | .struct => .structDef
  | .classRecord => .classDef
  | .union => .unionDef

/-- The access in force at the start of a record's body. -/
def initialAccess : RecordKind → Access
  | .classRecord => .privateMember
  | _ => .publicMember

def enclosedRecord (src : SourceFile) (scope : Scope) (access : Access) (kind : DeclKind)
    (start : Access) (n : Node) (cs : Children) : Action :=
  let nameNode := (child? .name cs).map (·.1)
  let name := nameNode.elim [] (·.spelling src.text)
  let qualified := scope.qualify name
  .enclose (src.declare kind name (nameNode.getD n)
    ⟨String.ofList name, String.ofList qualified⟩ (scope.memberAccess access))
    ⟨qualified, some name⟩ start

def enumeration (src : SourceFile) (scope : Scope) (access : Access) (n : Node) (cs : Children) :
    Decl :=
  let nameNode := (child? .name cs).map (·.1)
  let name := nameNode.elim [] (·.text src.text)
  src.declare .enumDef name (nameNode.getD n)
    ⟨String.ofList name, String.ofList (scope.qualify name)⟩ (scope.memberAccess access)

def functionDefinition (src : SourceFile) (scope : Scope) (access : Access) (cs : Children) :
    List Decl :=
  (((child? .declarator cs).bind Declarator.name?).map fun name =>
    src.declare (src.functionKind scope name (child? .type cs).isSome) (name.text src.text) name
      (.plain (String.ofList (src.typeText cs))) (scope.memberAccess access)).toList

/-- The access that a label gives to what follows it. -/
def labelAccess? (label : List Char) : Option Access :=
  let word := trim (dropEndWhile (· == ':') (trim label))
  if word = "public".toList then some .publicMember
  else if word = "protected".toList then some .protectedMember
  else if word = "private".toList then some .privateMember
  else none

/-- Of a conditional on the generator's own define only the branch it compiles is read. -/
def conditionalPick (src : SourceFile) (cs : Children) : Pick :=
  if (child? .name cs).elim [] (·.1.text src.text) = activeDefine then
    .branch (cs.trees.head?.any (·.1.kind == .ifndefKeyword))
  else .items

/-- A member or function template, which is never reflected. -/
def templateMember (src : SourceFile) (scope : Scope) (access : Access) (n : Node)
    (cs : Children) : Decl :=
  let name := (child? .declarator cs).bind Declarator.name?
  src.declare .other (name.elim [] (·.text src.text)) (name.getD n) {} (scope.memberAccess access)

/-- What an item contributes. -/
def item (src : SourceFile) (scope : Scope) (access : Access) (n : Node) (cs : Children) :
    Action :=
  match n.kind with
  | .namespaceDefinition => src.enclosedNamespace scope n cs
  | .record kind => src.enclosedRecord scope access (recordKind kind) (initialAccess kind) n cs
  | .enumSpecifier => .declare [src.enumeration scope access n cs]
  | .fieldDeclaration | .declaration => .define (src.declarators scope access n cs)
  | .functionDefinition => .declare (src.functionDefinition scope access cs)
  | .templateDeclaration => .splice .templated
  | .linkage => .link (src.declare .linkageBlock [] n {} .nonMember)
  | .accessSpecifier =>
    match labelAccess? (n.text src.text) with
    | some access => .label (src.declare .accessLabel [] n {} access) access
    | none => .declare []
  | .conditional => .splice (src.conditionalPick cs)
  | .alternative | .group => .splice .items
  | .remark => .declare [src.declare .other [] n {} (scope.memberAccess access)]
  | _ => .declare []

/-- What a direct part of a template contributes. -/
def templateItem (src : SourceFile) (scope : Scope) (access : Access) (n : Node) (cs : Children) :
    Action :=
  match n.kind with
  | .templateParameters => .declare []
  | .record kind => src.enclosedRecord scope access .classTemplate (initialAccess kind) n cs
  | .declaration | .fieldDeclaration | .functionDefinition =>
    .declare [src.templateMember scope access n cs]
  | _ => src.item scope access n cs

/-- Whether a type specifier defines the type it names. -/
def definesType (n : Node) (cs : Children) : Bool :=
  match n.kind with
  | .record _ | .enumSpecifier => (child? .body cs).isSome
  | _ => false

/-- What a node contributes under a pick; none if it is passed over. -/
def action? (src : SourceFile) (pick : Pick) (scope : Scope) (access : Access) (n : Node)
    (cs : Children) : Option Action :=
  match pick with
  | .items => if n.named then some (src.item scope access n cs) else none
  | .templated => if n.named then some (src.templateItem scope access n cs) else none
  | .branch alternatives =>
    if n.named && (n.kind == .alternative) == alternatives then some (src.item scope access n cs)
    else none
  | .body => if n.role = .body then some (.splice .items) else none
  | .linked => if n.role = .body then some (src.item scope access n cs) else none
  | .definedType =>
    if n.role = .type then
      some (if definesType n cs then src.item scope access n cs else .declare [])
    else none

/-- The declarations of sibling nodes, and the access in force after them. -/
def lower (src : SourceFile) : Pick → Scope → Access → Children → Forest Decl × Access
  | _, _, access, .nil => (.nil, access)
  | pick, scope, access, .cons n cs rest =>
    match src.action? pick scope access n cs with
    | none => lower src pick scope access rest
    | some action =>
      let here : Forest Decl × Access :=
        match action with
        | .declare ds => (.leaves ds, access)
        | .define ds =>
          let type := lower src .definedType scope access cs
          (type.1 ++ .leaves ds, type.2)
        | .splice inner => lower src inner scope access cs
        | .enclose d inner start => (.cons d (lower src .body inner start cs).1 .nil, access)
        | .link d =>
          let body := lower src .linked scope access cs
          (.cons d body.1 .nil, body.2)
        | .label d access => (.leaves [d], access)
      if pick.once then here
      else
        let after := lower src pick scope here.2 rest
        (here.1 ++ after.1, after.2)

/-- The declaration tree of a file, from what stands below the root of its parse tree. -/
def declTree (src : SourceFile) (parsed : Children) : DeclTree :=
  .ofForest src.path (src.lower .items {} .nonMember parsed).1

end SourceFile

end ReflectGen.Parse
