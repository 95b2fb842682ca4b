namespace ReflectGen

/-- What a directive inside a reflected type says of the member after it. -/
inductive Mark where
  | aliasRef
  | method
  deriving DecidableEq, Repr

/-- An annotation of the scanned sources. -/
inductive Directive where
  | reflectType
  | member (mark : Mark)
  deriving DecidableEq, Repr

namespace Directive

def all : List Directive := [reflectType, member .aliasRef, member .method]

/-- The call that stands for the directive in a source text. -/
def callName : Directive → String
  | reflectType => "SERIALIZE_STRUCT"
  | member .aliasRef => "SERIALIZE_AS_REF"
  | member .method => "SERIALIZE_MEMBER_METHOD"

/-- The function name that stands for the directive in a declaration tree. -/
def marker : Directive → String
  | reflectType => "HEARTGEN___SERIALIZE_NEXT_SYMBOL_STRUCT"
  | member .aliasRef => "HEARTGEN___SERIALIZE_NEXT_SYMBOL_AS_REF"
  | member .method => "HEARTGEN___SERIALIZE_NEXT_SYMBOL_AS_MEMB_FUNCTION"

def ofMarker? (spelling : String) : Option Directive := all.find? (·.marker == spelling)

theorem ofMarker?_marker (d : Directive) : ofMarker? d.marker = some d := by
  cases d with
  | reflectType => decide
  | member m => cases m <;> decide

theorem ofMarker?_eq_some_iff {spelling : String} {d : Directive} :
    ofMarker? spelling = some d ↔ spelling = d.marker := by
  constructor
  · intro found
    rw [ofMarker?] at found
    have same := List.find?_some found
    exact (eq_of_beq same).symm
  · rintro rfl
    exact ofMarker?_marker d

end Directive

end ReflectGen
