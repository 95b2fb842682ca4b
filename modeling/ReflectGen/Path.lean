namespace ReflectGen

/-- A file path as it is spelled. Two spellings may name the same components. -/
structure Path where
  text : String
  deriving DecidableEq, Repr

namespace Path

/-- What a path consists of once repeated slashes and idle dots are gone. -/
inductive Component where
  | root
  | here
  | up
  | name (text : String)
  deriving DecidableEq, Repr

/-- Root comes first, then the leading dot, the parent and names by their characters. -/
def Component.before : Component → Component → Bool
  | root, root => false
  | root, _ => true
  | here, root => false
  | here, here => false
  | here, _ => true
  | up, name _ => true
  | up, _ => false
  | name a, name b => a < b
  | name _, _ => false

/-- Pieces between slashes. -/
def segments : List Char → List (List Char)
  | [] => [[]]
  | c :: cs =>
    if c = '/' then [] :: segments cs
    else
      match segments cs with
      | [] => [[c]]
      | piece :: rest => (c :: piece) :: rest

/-- How a path starts: at the root, with a dot of its own, or with neither. -/
inductive Anchor where
  | root
  | here
  | bare
  deriving DecidableEq, Repr

/-- A path cut at its slashes, the start apart. -/
structure Spelling where
  anchor : Anchor
  body : List (List Char)
  deriving DecidableEq, Repr

def spelling (p : Path) : Spelling :=
  match segments p.text.toList with
  | [] :: next :: rest => ⟨.root, next :: rest⟩
  | ['.'] :: rest => ⟨.here, rest⟩
  | body => ⟨.bare, body⟩

/-- An empty piece or a lone dot names nothing. -/
def isIdle (piece : List Char) : Bool := piece == [] || piece == ['.']

def component? (piece : List Char) : Option Component :=
  if isIdle piece then none
  else if piece = ['.', '.'] then some .up
  else some (.name (String.ofList piece))

def Anchor.components : Anchor → List Component
  | .root => [.root]
  | .here => [.here]
  | .bare => []

def components (p : Path) : List Component :=
  p.spelling.anchor.components ++ p.spelling.body.filterMap component?

def dropIdle (body : List (List Char)) : List (List Char) := body.dropWhile isIdle

def dropIdleEnd (body : List (List Char)) : List (List Char) :=
  (dropIdle body.reverse).reverse

def joinPieces (body : List (List Char)) : List Char := ['/'].intercalate body

def Spelling.path (s : Spelling) : Path :=
  match s.anchor, s.body with
  | .root, body => ⟨String.ofList ('/' :: joinPieces body)⟩
  | .here, [] => ⟨"."⟩
  | .here, body => ⟨String.ofList ('.' :: '/' :: joinPieces body)⟩
  | .bare, body => ⟨String.ofList (joinPieces body)⟩

/-- The path without its last component, unless that is the root or there is none. -/
def parent? (p : Path) : Option Path :=
  let body := dropIdleEnd p.spelling.body
  match body, p.spelling.anchor with
  | [], .root => none
  | [], .bare => none
  | [], .here => some ⟨""⟩
  | _ :: _, anchor => some (Spelling.path ⟨anchor, dropIdleEnd body.dropLast⟩)

/-- The last component, if it is a name. -/
def fileName? (p : Path) : Option String :=
  match p.components.getLast? with
  | some (.name text) => some text
  | _ => none

/-- What follows the last dot of a file name; a dot that opens the name does not count. -/
def extension? (p : Path) : Option String :=
  p.fileName?.bind fun name =>
    let tail := name.toList.reverse.takeWhile (· ≠ '.')
    let stem := name.toList.reverse.dropWhile (· ≠ '.')
    if stem.length ≤ 1 then none else some (String.ofList tail.reverse)

def isAbsolute (p : Path) : Bool := p.text.toList.head? == some '/'

/-- `q` as seen from `p`; an absolute `q` stands for itself. -/
def join (p q : Path) : Path :=
  if q.isAbsolute then q
  else if p.text = "" || p.text.toList.getLast? == some '/' then ⟨p.text ++ q.text⟩
  else ⟨p.text ++ "/" ++ q.text⟩

/-- Drops the pieces of the first `n` components. -/
def dropComponents : Nat → List (List Char) → List (List Char)
  | 0, body => body
  | _ + 1, [] => []
  | n + 1, piece :: rest =>
    if isIdle piece then dropComponents (n + 1) rest else dropComponents n rest

/-- The part of `p` below `base`, if the components of `base` open those of `p`. -/
def below? (base p : Path) : Option Path :=
  if base.components.isPrefixOf p.components then
    match base.components.length with
    | 0 => some (Spelling.path ⟨p.spelling.anchor, dropIdleEnd p.spelling.body⟩)
    | n + 1 =>
      let taken := if p.spelling.anchor = .bare then n + 1 else n
      let body := dropIdleEnd (dropIdle (dropComponents taken p.spelling.body))
      some ⟨String.ofList (joinPieces body)⟩
  else none

/-- Component by component; of two paths where one continues the other, the shorter comes first. -/
def componentsLe : List Component → List Component → Bool
  | [], _ => true
  | _ :: _, [] => false
  | a :: as, b :: bs => a.before b || (a == b && componentsLe as bs)

def le (p q : Path) : Bool := componentsLe p.components q.components

/-- Whether two spellings name the same components. -/
def same (p q : Path) : Bool := p.components == q.components

end Path

end ReflectGen
