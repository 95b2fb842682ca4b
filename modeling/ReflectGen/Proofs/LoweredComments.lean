import Mathlib.Data.List.Basic
import ReflectGen.Proofs.FieldSource

namespace ReflectGen.Parse

open Text

namespace Declarator

/-- Kinds of declarators that hold another one. -/
def wraps : NodeKind → Bool
  | .pointerDeclarator | .referenceDeclarator | .arrayDeclarator | .functionDeclarator
  | .parenthesized | .attributed | .initialized => true
  | _ => false

/-- The declarator inside a declarator. -/
def inner? (cs : Children) : Option (Node × Children) := cs.trees.find? fun t => isInner cs t.1

/-- What a declarator adds to the type in front of it. -/
def added (source : List Char) (t : Node × Children) : List Char :=
  decorations source (fun _ => true) (.cons t.1 t.2 .nil)

section Readings

variable (source : List Char) (choose : Node → Bool) (cs : Children)

theorem nameAmong_eq :
    nameAmong choose cs = (cs.trees.find? fun t => choose t.1).elim none name? := by
  induction cs with
  | nil => rfl
  | cons n below rest _ ih =>
    by_cases taken : choose n = true
    · simp [nameAmong, Forest.trees, taken, name?]
    · simp [nameAmong, Forest.trees, taken, ih]

theorem functionAmong_eq :
    functionAmong choose cs = (cs.trees.find? fun t => choose t.1).elim false isFunction := by
  induction cs with
  | nil => rfl
  | cons n below rest _ ih =>
    by_cases taken : choose n = true
    · simp [functionAmong, Forest.trees, taken, isFunction]
    · simp [functionAmong, Forest.trees, taken, ih]

theorem decorations_eq :
    decorations source choose cs = (cs.trees.find? fun t => choose t.1).elim [] (added source) := by
  induction cs with
  | nil => rfl
  | cons n below rest _ ih =>
    by_cases taken : choose n = true
    · simp [decorations, Forest.trees, taken, added]
    · simp [decorations, Forest.trees, taken, ih]

end Readings

end Declarator

/-- Nodes without the comments among and below them. -/
def withoutComments : Children → Children
  | .nil => .nil
  | .cons n below rest =>
    if n.kind = .comment then withoutComments rest
    else .cons n (withoutComments below) (withoutComments rest)

/-- A tree without the comments below its root. -/
def uncommented (t : Node × Children) : Node × Children := (t.1, withoutComments t.2)

/-- No comment plays a part in the node above it. -/
def PlainComments (cs : Children) : Prop := ∀ n ∈ cs.preorder, n.kind = .comment → n.role = .plain

instance (cs : Children) : Decidable (PlainComments cs) :=
  inferInstanceAs (Decidable (∀ n ∈ cs.preorder, _))

namespace PlainComments

variable {n : Node} {cs kids siblings : Children}

theorem root (h : PlainComments (.cons n kids siblings)) : n.kind = .comment → n.role = .plain :=
  h n (by simp [Forest.preorder])

theorem below (h : PlainComments (.cons n kids siblings)) : PlainComments kids :=
  fun m mem => h m (by simp [Forest.preorder, mem])

theorem rest (h : PlainComments (.cons n kids siblings)) : PlainComments siblings :=
  fun m mem => h m (by simp [Forest.preorder, mem])

theorem role_of_mem (h : PlainComments cs) {t : Node × Children} (mem : t ∈ cs.trees) :
    t.1.kind = .comment → t.1.role = .plain := by
  induction cs with
  | nil => cases mem
  | cons n kids siblings _ ih =>
    rcases List.mem_cons.mp mem with rfl | mem
    · exact h.root
    · exact ih h.rest mem

end PlainComments

section LookUps

theorem filter_withoutComments {p : Node → Bool} (cs : Children)
    (h : ∀ t ∈ cs.trees, t.1.kind = .comment → p t.1 = false) :
    (withoutComments cs).trees.filter (fun t => p t.1) =
      (cs.trees.filter fun t => p t.1).map uncommented := by
  induction cs with
  | nil => rfl
  | cons n below rest _ ih =>
    have later := ih fun t mem => h t (List.mem_cons_of_mem _ mem)
    rw [withoutComments]
    by_cases comment : n.kind = .comment
    · have passed : p n = false := h (n, below) List.mem_cons_self comment
      simp [comment, Forest.trees, passed, later]
    · by_cases taken : p n = true <;> simp [comment, Forest.trees, taken, later, uncommented]

theorem find?_withoutComments {p : Node → Bool} (cs : Children)
    (h : ∀ t ∈ cs.trees, t.1.kind = .comment → p t.1 = false) :
    (withoutComments cs).trees.find? (fun t => p t.1) =
      (cs.trees.find? fun t => p t.1).map uncommented := by
  rw [← List.head?_filter, ← List.head?_filter, filter_withoutComments cs h, List.head?_map]

variable {cs : Children}

theorem not_role_of_comment (plain : PlainComments cs) {role : Role} (named : role ≠ .plain) :
    ∀ t ∈ cs.trees, t.1.kind = .comment → (t.1.role == role) = false := by
  intro t mem comment
  rw [plain.role_of_mem mem comment]
  simpa using named.symm

theorem child?_withoutComments (plain : PlainComments cs) (role : Role) (named : role ≠ .plain) :
    child? role (withoutComments cs) = (child? role cs).map uncommented :=
  find?_withoutComments (p := fun n => n.role == role) cs (not_role_of_comment plain named)

theorem inRole_withoutComments (plain : PlainComments cs) (role : Role) (named : role ≠ .plain) :
    inRole role (withoutComments cs) = (inRole role cs).map uncommented :=
  filter_withoutComments (p := fun n => n.role == role) cs (not_role_of_comment plain named)

/-- The node in a role is the same, whatever is removed below it. -/
theorem childNode?_withoutComments (plain : PlainComments cs) (role : Role)
    (named : role ≠ .plain) :
    (child? role (withoutComments cs)).map (·.1) = (child? role cs).map (·.1) := by
  rw [child?_withoutComments plain role named, Option.map_map]
  rfl

theorem isSome_child?_withoutComments (plain : PlainComments cs) (role : Role)
    (named : role ≠ .plain) :
    (child? role (withoutComments cs)).isSome = (child? role cs).isSome := by
  rw [child?_withoutComments plain role named, Option.isSome_map]

theorem mem_inRole {role : Role} {t : Node × Children} (h : t ∈ child? role cs) :
    t ∈ inRole role cs :=
  List.mem_filter.mpr ⟨List.mem_of_find?_eq_some h,
    List.find?_some (p := fun t : Node × Children => t.1.role == role) h⟩

theorem namedChildren_withoutComments (cs : Children) (q : Node → Bool)
    (h : ∀ n : Node, n.kind = .comment → q n = false) :
    (namedChildren (withoutComments cs)).filter (fun t => q t.1) =
      ((namedChildren cs).filter fun t => q t.1).map uncommented := by
  have both := filter_withoutComments (p := fun n => q n && n.named) cs fun t _ comment => by
    simp [h t.1 comment]
  simpa [namedChildren, List.filter_filter] using both

theorem kind_ne_comment {t : Node × Children} (mem : t ∈ (withoutComments cs).trees) :
    t.1.kind ≠ .comment := by
  induction cs with
  | nil => cases mem
  | cons n below rest _ ih =>
    rw [withoutComments] at mem
    split at mem
    · exact ih mem
    · rename_i other
      rcases List.mem_cons.mp mem with rfl | mem
      · exact other
      · exact ih mem

theorem head?_withoutComments (cs : Children) :
    (withoutComments cs).trees.head? =
      (cs.trees.find? (·.1.kind != .comment)).map uncommented := by
  rw [← find?_withoutComments (p := fun n => n.kind != .comment) cs (by simp), ← List.head?_filter,
    List.filter_eq_self.mpr fun t mem => by simpa using kind_ne_comment mem]

end LookUps

namespace Declarator

/-- A comment is taken for the declarator inside a declarator, and another node stands behind
it. -/
def CommentFirst (cs : Children) : Prop :=
  child? .declarator cs = none ∧ (namedChildren cs).head?.any (·.1.kind == .comment) ∧
    (namedChildren cs).any (·.1.kind != .comment)

instance (cs : Children) : Decidable (CommentFirst cs) :=
  inferInstanceAs (Decidable (_ ∧ _ ∧ _))

variable {cs : Children}

theorem inner?_of_isSome (h : (child? .declarator cs).isSome) :
    inner? cs = child? .declarator cs := by
  simp only [inner?, isInner, h, if_true]
  rfl

theorem inner?_of_eq_none (h : child? .declarator cs = none) :
    inner? cs = (namedChildren cs).head? := by
  simp [inner?, isInner, h, namedChildren, List.head?_filter]

/-- The declarator inside one stays the same, unless a comment was taken for it, and then none is
left. -/
theorem inner?_withoutComments (plain : PlainComments cs) (clear : ¬CommentFirst cs) :
    inner? (withoutComments cs) = (inner? cs).map uncommented ∨
      inner? (withoutComments cs) = none ∧ ∃ t, inner? cs = some t ∧ t.1.kind = .comment := by
  have role := child?_withoutComments plain .declarator (by decide)
  cases marked : child? .declarator cs with
  | some t =>
    left
    rw [marked, Option.map_some] at role
    rw [inner?_of_isSome (by simp [role]), inner?_of_isSome (by simp [marked]), role, marked,
      Option.map_some]
  | none =>
    rw [marked, Option.map_none] at role
    have others := namedChildren_withoutComments cs (fun n => n.kind != .comment) (by simp)
    rw [List.filter_eq_self.mpr fun t mem => by
      simpa using kind_ne_comment (List.mem_filter.mp mem).1] at others
    rw [inner?_of_eq_none role, inner?_of_eq_none marked, others, List.head?_map]
    cases named : namedChildren cs with
    | nil => exact .inl rfl
    | cons t ts =>
      by_cases comment : t.1.kind = .comment
      · right
        have nothing : ¬(t :: ts).any (·.1.kind != .comment) := by
          intro other
          exact clear ⟨marked, by simp [named, comment], by rw [named]; exact other⟩
        simp only [List.any_eq_true, not_exists, not_and] at nothing
        rw [List.filter_eq_nil_iff.mpr nothing]
        exact ⟨rfl, t, rfl, comment⟩
      · left
        simp [comment]

/-- A reading of the declarator inside one that makes nothing of a comment. -/
theorem elim_inner?_withoutComments {β : Type} {nothing : β} {reading : Node × Children → β}
    (plain : PlainComments cs) (clear : ¬CommentFirst cs)
    (comment : ∀ t, t.1.kind = .comment → reading t = nothing)
    (inner : ∀ t ∈ inner? cs, reading (uncommented t) = reading t) :
    (inner? (withoutComments cs)).elim nothing reading = (inner? cs).elim nothing reading := by
  rcases inner?_withoutComments plain clear with same | ⟨gone, t, found, isComment⟩
  · rw [same]
    cases found : inner? cs with
    | none => rfl
    | some t => exact inner t found
  · rw [gone, found]
    exact (comment t isComment).symm

section Agreement

variable {n : Node} {cs' : Children}

-- What a declarator says hangs on its own kind, on the declarator inside it and on one node in a
-- role.

theorem name?_of_wraps (h : wraps n.kind) : name? (n, cs) = (inner? cs).elim none name? := by
  simp only [name?, nameAmong, if_true, nameAmong_eq]
  cases kind : n.kind <;> first | rfl | simp [kind, wraps] at h

theorem name?_congr
    (inner : wraps n.kind → (inner? cs).elim none name? = (inner? cs').elim none name?)
    (name : n.kind = .qualifiedName →
      (child? .name cs).elim none name? = (child? .name cs').elim none name?) :
    name? (n, cs) = name? (n, cs') := by
  by_cases wrapped : wraps n.kind
  · rw [name?_of_wraps wrapped, name?_of_wraps wrapped, inner wrapped]
  · simp only [name?, nameAmong, if_true, nameAmong_eq]
    cases kind : n.kind
    case qualifiedName => exact congrArg (Option.or · (some n)) (name kind)
    all_goals first | rfl | exact absurd (by rw [kind]; rfl) wrapped

theorem isFunction_congr
    (inner : wraps n.kind → (inner? cs).elim false isFunction = (inner? cs').elim false isFunction)
    (declarator : (child? .declarator cs).map (·.1) = (child? .declarator cs').map (·.1)) :
    isFunction (n, cs) = isFunction (n, cs') := by
  simp only [isFunction, functionAmong, if_true, functionAmong_eq]
  cases kind : n.kind
  case functionDeclarator =>
    have alike := congrArg (Option.all (·.kind != .parenthesized)) declarator
    rwa [Option.all_map, Option.all_map] at alike
  all_goals first | rfl | exact inner (by rw [kind]; rfl)

theorem added_congr {source : List Char}
    (inner : wraps n.kind →
      (inner? cs).elim [] (added source) = (inner? cs').elim [] (added source))
    (size : (child? .size cs).map (·.1) = (child? .size cs').map (·.1)) :
    added source (n, cs) = added source (n, cs') := by
  have bound : (child? .size cs).elim [] (·.1.text source) =
      (child? .size cs').elim [] (·.1.text source) := by
    have alike := congrArg (Option.elim · [] (·.text source)) size
    simpa only [Option.elim_map, Function.comp_def] using alike
  have inside (h : wraps n.kind) :
      decorations source (isInner cs) cs = decorations source (isInner cs') cs' := by
    rw [decorations_eq, decorations_eq]
    exact inner h
  simp only [added, decorations, if_true, bound]
  cases kind : n.kind <;> first | rfl | dsimp only; rw [inside (by rw [kind]; rfl)]

end Agreement

/-- A declarator gives the same name, the same kind of declaration and the same type without its
comments. -/
structure Alike (source : List Char) (t : Node × Children) : Prop where
  name : name? (uncommented t) = name? t
  function : isFunction (uncommented t) = isFunction t
  type : added source (uncommented t) = added source t

theorem alike_of_inner {source : List Char} {n : Node} (plain : PlainComments cs)
    (clear : wraps n.kind → ¬CommentFirst cs)
    (inner : wraps n.kind → ∀ t ∈ inner? cs, Alike source t)
    (name : n.kind = .qualifiedName → ∀ t ∈ child? .name cs, Alike source t) :
    Alike source (n, cs) where
  name := by
    apply name?_congr
    · intro h
      apply elim_inner?_withoutComments plain (clear h)
      · intro t comment
        simp [name?, nameAmong, comment]
      · exact fun t mem => (inner h t mem).name
    · intro h
      rw [child?_withoutComments plain .name (by decide)]
      cases found : child? .name cs with
      | none => rfl
      | some t => exact (name h t found).name
  function := by
    apply isFunction_congr
    · intro h
      apply elim_inner?_withoutComments plain (clear h)
      · intro t comment
        simp [isFunction, functionAmong, comment]
      · exact fun t mem => (inner h t mem).function
    · exact childNode?_withoutComments plain .declarator (by decide)
  type := by
    apply added_congr
    · intro h
      apply elim_inner?_withoutComments plain (clear h)
      · intro t comment
        simp [added, decorations, comment]
      · exact fun t mem => (inner h t mem).type
    · exact childNode?_withoutComments plain .size (by decide)

end Declarator

namespace SourceFile

open Declarator

/-- The nodes that are looked into to lower a node. -/
def consulted (t : Node × Children) : List (Node × Children) :=
  match t.1.kind with
  | .namespaceDefinition | .record _ => (child? .body t.2).elim [] (·.2.trees)
  | .fieldDeclaration | .declaration => (child? .type t.2).toList ++ inRole .declarator t.2
  | .functionDefinition => (child? .declarator t.2).toList
  | .templateDeclaration | .conditional | .alternative | .group => t.2.trees
  | .linkage => (child? .body t.2).toList
  | .qualifiedName => (child? .name t.2).toList
  | kind => if wraps kind then (inner? t.2).toList else []

variable (src : SourceFile)

/-- A comment stands in front of the keyword by which a conditional asks for the generator's own
define to be missing. -/
def KeywordBehind (cs : Children) : Prop :=
  (child? .name cs).elim [] (·.1.text src.text) = activeDefine ∧
    cs.trees.head?.any (·.1.kind == .comment) ∧
    (cs.trees.find? (·.1.kind != .comment)).any (·.1.kind == .ifndefKeyword)

/-- A comment stands in front of the node that is read because it is the first. -/
def Obstructed (t : Node × Children) : Prop :=
  wraps t.1.kind ∧ CommentFirst t.2 ∨ t.1.kind = .conditional ∧ src.KeywordBehind t.2

instance (t : Node × Children) : Decidable (src.Obstructed t) :=
  inferInstanceAs (Decidable (_ ∧ _ ∨ _ ∧ _ ∧ _ ∧ _))

/-- No comment obstructs a node, nor any that is looked into to lower it. -/
inductive Clear : Node × Children → Prop
  | intro {t} (here : ¬src.Obstructed t)
      (inside : ∀ part ∈ consulted t, ¬src.Discards t part.1 → Clear part) : Clear t

variable {src} {n : Node} {cs : Children}

theorem Clear.here {t : Node × Children} (h : src.Clear t) : ¬src.Obstructed t := by
  cases h with
  | intro here _ => exact here

theorem Clear.inside {t part : Node × Children} (h : src.Clear t) (mem : part ∈ consulted t)
    (kept : ¬src.Discards t part.1) : src.Clear part := by
  cases h with
  | intro _ inside => exact inside part mem kept

theorem Clear.part (h : src.Clear (n, cs)) (other : n.kind ≠ .conditional) :
    ∀ t ∈ consulted (n, cs), src.Clear t :=
  fun _ mem => h.inside mem fun discards => other discards.1

/-- A declarator that no comment obstructs reads the same without its comments. -/
theorem Clear.alike (plain : PlainComments cs) :
    ∀ t ∈ cs.trees, src.Clear t → Alike src.text t := by
  induction cs with
  | nil =>
    intro t mem
    cases mem
  | cons n below rest ihBelow ihRest =>
    intro t mem clear
    rcases List.mem_cons.mp mem with rfl | mem
    · apply alike_of_inner plain.below
      · exact fun h first => clear.here (.inl ⟨h, first⟩)
      · intro h t found
        have look : consulted (n, below) = (inner? below).toList := by
          cases kind : n.kind <;> simp_all [consulted, wraps]
        refine ihBelow plain.below t (List.mem_of_find?_eq_some found) ?_
        apply clear.part (by intro conditional; simp [conditional, wraps] at h)
        simpa [look] using found
      · intro h t found
        refine ihBelow plain.below t (List.mem_of_find?_eq_some found) ?_
        apply clear.part (by simp [h])
        simpa [consulted, h] using found
    · exact ihRest plain.rest t mem clear

section Items

variable {scope : Scope} {access : Access}

theorem typeText_withoutComments (plain : PlainComments cs) :
    src.typeText (withoutComments cs) = src.typeText cs := by
  have qualifiers := namedChildren_withoutComments cs (·.kind == .typeQualifier)
    (by simp +contextual)
  have type := child?_withoutComments plain .type (by decide)
  simp only [typeText, qualifiers, type]
  cases child? .type cs <;> simp [uncommented, Function.comp_def]

theorem any_withoutComments (cs : Children) (q : Node → Bool)
    (h : ∀ n : Node, n.kind = .comment → q n = false) :
    (namedChildren (withoutComments cs)).any (fun t => q t.1) =
      (namedChildren cs).any fun t => q t.1 := by
  have same := congrArg (List.any · fun _ => true) (namedChildren_withoutComments cs q h)
  simpa [List.any_filter] using same

theorem declaratorName_withoutComments (plain : PlainComments cs)
    (clear : ∀ t ∈ child? .declarator cs, src.Clear t) :
    (child? .declarator (withoutComments cs)).bind name? =
      (child? .declarator cs).bind name? := by
  rw [child?_withoutComments plain .declarator (by decide)]
  cases found : child? .declarator cs with
  | none => rfl
  | some t => exact (Clear.alike plain t (List.mem_of_find?_eq_some found) (clear t found)).name

theorem declarators_withoutComments (plain : PlainComments cs)
    (clear : ∀ t ∈ inRole .declarator cs, src.Clear t) :
    src.declarators scope access n (withoutComments cs) = src.declarators scope access n cs := by
  have isStatic := any_withoutComments cs
    (fun c => c.kind == .storageClass && c.text src.text == "static".toList) (by simp +contextual)
  unfold declarators
  rw [isSome_child?_withoutComments plain .type (by decide), isStatic,
    typeText_withoutComments plain, inRole_withoutComments plain .declarator (by decide),
    List.filterMap_map]
  apply List.filterMap_congr
  intro t mem
  have alike := Clear.alike plain t (List.mem_filter.mp mem).1 (clear t mem)
  have type : decorate src.text (src.typeText cs) (uncommented t) =
      decorate src.text (src.typeText cs) t := congrArg (src.typeText cs ++ ·) alike.type
  simp only [Function.comp_apply, alike.name, alike.function, type]

theorem conditionalPick_withoutComments (plain : PlainComments cs)
    (clear : ¬src.KeywordBehind cs) :
    src.conditionalPick (withoutComments cs) = src.conditionalPick cs := by
  have name : (child? .name (withoutComments cs)).elim [] (·.1.text src.text) =
      (child? .name cs).elim [] (·.1.text src.text) := by
    rw [child?_withoutComments plain .name (by decide), Option.elim_map]
    rfl
  unfold conditionalPick
  rw [name]
  by_cases active : (child? .name cs).elim [] (·.1.text src.text) = activeDefine
  · rw [if_pos active, if_pos active, head?_withoutComments]
    -- Only a comment in front of the keyword could change which node is the first.
    cases trees : cs.trees with
    | nil => rfl
    | cons t ts =>
      by_cases comment : t.1.kind = .comment
      · have other : (List.find? (·.1.kind != .comment) (t :: ts)).any
            (·.1.kind == .ifndefKeyword) = false := by
          rw [← Bool.not_eq_true]
          intro behind
          exact clear ⟨active, by simp [trees, comment], by rw [trees]; exact behind⟩
        have first : (t.1.kind == .ifndefKeyword) = false := by
          rw [comment]
          rfl
        rw [Option.any_map, List.head?_cons, Option.any_some, first]
        exact congrArg Pick.branch other
      · simp [comment, uncommented]
  · rw [if_neg active, if_neg active]

theorem definesType_withoutComments (plain : PlainComments cs) :
    definesType n (withoutComments cs) = definesType n cs := by
  unfold definesType
  rw [isSome_child?_withoutComments plain .body (by decide)]

theorem item_withoutComments (plain : PlainComments cs) (clear : src.Clear (n, cs)) :
    src.item scope access n (withoutComments cs) = src.item scope access n cs := by
  have name := childNode?_withoutComments plain .name (by decide)
  unfold item
  cases kind : n.kind
  case namespaceDefinition => simp only [enclosedNamespace, name]
  case record => simp only [enclosedRecord, name]
  case enumSpecifier => simp only [enumeration, name]
  case fieldDeclaration =>
    have parts := clear.part (by simp [kind])
    exact congrArg Action.define (declarators_withoutComments plain fun t mem =>
      parts t (by simp [consulted, kind, mem]))
  case declaration =>
    have parts := clear.part (by simp [kind])
    exact congrArg Action.define (declarators_withoutComments plain fun t mem =>
      parts t (by simp [consulted, kind, mem]))
  case functionDefinition =>
    have parts := clear.part (by simp [kind])
    have declarator := declaratorName_withoutComments plain fun t mem =>
      parts t (by simpa [consulted, kind] using mem)
    simp only [functionDefinition, declarator, typeText_withoutComments plain,
      isSome_child?_withoutComments plain .type (by decide)]
  case conditional =>
    exact congrArg Action.splice (conditionalPick_withoutComments plain fun behind =>
      clear.here (.inr ⟨kind, behind⟩))
  all_goals rfl

theorem templateItem_withoutComments (plain : PlainComments cs) (clear : src.Clear (n, cs)) :
    src.templateItem scope access n (withoutComments cs) = src.templateItem scope access n cs := by
  have member (declarator : ∀ t ∈ child? .declarator cs, t ∈ consulted (n, cs))
      (other : n.kind ≠ .conditional) :
      src.templateMember scope access n (withoutComments cs) =
        src.templateMember scope access n cs := by
    unfold templateMember
    rw [declaratorName_withoutComments plain fun t mem => clear.part other t (declarator t mem)]
  have name := childNode?_withoutComments plain .name (by decide)
  have item : src.item scope access n (withoutComments cs) = src.item scope access n cs :=
    item_withoutComments plain clear
  unfold templateItem
  cases kind : n.kind
  case templateParameters => rfl
  case record => simp only [enclosedRecord, name]
  case declaration =>
    dsimp only
    rw [member (fun t mem => by simp [consulted, kind, mem_inRole mem]) (by simp [kind])]
  case fieldDeclaration =>
    dsimp only
    rw [member (fun t mem => by simp [consulted, kind, mem_inRole mem]) (by simp [kind])]
  case functionDefinition =>
    dsimp only
    rw [member (fun t mem => by simpa [consulted, kind] using mem) (by simp [kind])]
  all_goals exact item

end Items

variable (src) in
/-- No comment obstructs what a pick takes of sibling nodes. -/
def ClearFor : Pick → Children → Prop
  | .branch alternatives, cs =>
    ∀ t ∈ cs.trees, (t.1.kind == .alternative) = alternatives → src.Clear t
  | .body, cs => ∀ t ∈ child? .body cs, ∀ part ∈ t.2.trees, src.Clear part
  | .linked, cs => ∀ t ∈ child? .body cs, src.Clear t
  | .definedType, cs => ∀ t ∈ child? .type cs, src.Clear t
  | _, cs => ∀ t ∈ cs.trees, src.Clear t

variable (src) in
/-- No comment obstructs what an action makes of the nodes below. -/
def ClearBelow (cs : Children) : Action → Prop
  | .define _ => src.ClearFor .definedType cs
  | .splice pick => src.ClearFor pick cs
  | .enclose _ _ _ => src.ClearFor .body cs
  | .link _ => src.ClearFor .linked cs
  | _ => True

section Picks

variable {pick : Pick} {scope : Scope} {access : Access} {rest : Children}

theorem Clear.body (h : src.Clear (n, cs))
    (look : consulted (n, cs) = (child? .body cs).elim [] (·.2.trees))
    (other : n.kind ≠ .conditional) : src.ClearFor .body cs := by
  intro t found part mem
  apply h.part other
  rw [look, Option.mem_def.mp found]
  exact mem

theorem Clear.branch (h : src.Clear (n, cs)) (conditional : n.kind = .conditional) :
    src.ClearFor (src.conditionalPick cs) cs := by
  have look : consulted (n, cs) = cs.trees := by simp [consulted, conditional]
  unfold conditionalPick
  split
  · intro t mem taken
    refine h.inside (by rw [look]; exact mem) ?_
    intro discards
    have branch := discards.2.2
    cases first : cs.trees.head?.any (·.1.kind == .ifndefKeyword) <;> simp_all
  · rename_i inactive
    intro t mem
    exact h.inside (by rw [look]; exact mem) fun discards => inactive discards.2.1

theorem item_clearBelow (h : src.Clear (n, cs)) :
    src.ClearBelow cs (src.item scope access n cs) := by
  unfold item
  cases kind : n.kind
  case namespaceDefinition => exact h.body (by simp [consulted, kind]) (by simp [kind])
  case record => exact h.body (by simp [consulted, kind]) (by simp [kind])
  case fieldDeclaration =>
    exact fun t mem => h.part (by simp [kind]) t (by simp_all [consulted])
  case declaration =>
    exact fun t mem => h.part (by simp [kind]) t (by simp_all [consulted])
  case linkage => exact fun t mem => h.part (by simp [kind]) t (by simp_all [consulted])
  case accessSpecifier =>
    dsimp only
    split <;> trivial
  case conditional => exact h.branch kind
  case templateDeclaration => exact fun t mem => h.part (by simp [kind]) t (by simp_all [consulted])
  case alternative => exact fun t mem => h.part (by simp [kind]) t (by simp_all [consulted])
  case group => exact fun t mem => h.part (by simp [kind]) t (by simp_all [consulted])
  all_goals trivial

theorem templateItem_clearBelow (h : src.Clear (n, cs)) :
    src.ClearBelow cs (src.templateItem scope access n cs) := by
  have other : src.ClearBelow cs (src.item scope access n cs) := item_clearBelow h
  unfold templateItem
  cases kind : n.kind
  case record => exact h.body (by simp [consulted, kind]) (by simp [kind])
  all_goals first | exact other | trivial

theorem ClearFor.head (clear : src.ClearFor pick (.cons n cs rest)) {action : Action}
    (taken : src.action? pick scope access n cs = some action) (whole : pick ≠ .body) :
    src.Clear (n, cs) := by
  have first : (n, cs) ∈ (Forest.cons n cs rest).trees := by simp [Forest.trees]
  cases pick
  case body => exact absurd rfl whole
  case branch alternatives =>
    apply clear (n, cs) first
    simp only [action?, Option.ite_none_right_eq_some, Bool.and_eq_true, beq_iff_eq] at taken
    exact taken.1.2
  case linked =>
    simp only [action?, Option.ite_none_right_eq_some] at taken
    exact clear (n, cs) (by simp [child?, Forest.trees, taken.1])
  case definedType =>
    simp only [action?, Option.ite_none_right_eq_some] at taken
    exact clear (n, cs) (by simp [child?, Forest.trees, taken.1])
  all_goals exact clear (n, cs) first

theorem ClearFor.tail (scope : Scope) (access : Access)
    (clear : src.ClearFor pick (.cons n cs rest))
    (passed : pick.once → src.action? pick scope access n cs = none) : src.ClearFor pick rest := by
  cases pick
  case branch alternatives => exact fun t mem => clear t (by simp [Forest.trees, mem])
  case items => exact fun t mem => clear t (by simp [Forest.trees, mem])
  case templated => exact fun t mem => clear t (by simp [Forest.trees, mem])
  all_goals
    have other := passed rfl
    simp only [action?, ite_eq_right_iff, reduceCtorEq, imp_false] at other
    simpa [ClearFor, child?, Forest.trees, List.find?_cons, other] using clear

theorem action?_clearBelow (clear : src.ClearFor pick (.cons n cs rest)) {action : Action}
    (taken : src.action? pick scope access n cs = some action) : src.ClearBelow cs action := by
  by_cases whole : pick = .body
  · subst whole
    simp only [action?, Option.ite_none_right_eq_some, Option.some.injEq] at taken
    obtain ⟨role, rfl⟩ := taken
    exact clear (n, cs) (by simp [child?, Forest.trees, role])
  · have here := clear.head taken whole
    cases pick <;>
      simp only [action?, Option.ite_none_right_eq_some, Option.some.injEq] at taken <;>
      obtain ⟨-, rfl⟩ := taken
    case body => exact absurd rfl whole
    case templated => exact templateItem_clearBelow here
    case definedType =>
      split
      · exact item_clearBelow here
      · trivial
    all_goals exact item_clearBelow here

theorem action?_withoutComments (plain : PlainComments cs)
    (clear : src.ClearFor pick (.cons n cs rest)) :
    src.action? pick scope access n (withoutComments cs) = src.action? pick scope access n cs := by
  cases taken : src.action? pick scope access n cs with
  | none =>
    -- Whether a node is passed over is told by the node alone.
    cases pick <;> simp_all [action?]
  | some action =>
    by_cases whole : pick = .body
    · subst whole
      exact taken
    · have here := clear.head taken whole
      have item : src.item scope access n (withoutComments cs) = src.item scope access n cs :=
        item_withoutComments plain here
      rw [← taken]
      cases pick
      case templated => simp only [action?, templateItem_withoutComments plain here]
      all_goals simp only [action?, item, definesType_withoutComments plain]

/-- A comment is no item, and it is passed over where a node in a role is looked for. -/
theorem action?_comment (comment : n.kind = .comment) (plain : n.role = .plain) {action : Action}
    (taken : src.action? pick scope access n cs = some action) :
    pick.once = false ∧ action = .declare [] := by
  cases pick <;> simp_all [action?, item, templateItem, Pick.once]

theorem lower_comment (comment : n.kind = .comment) (plain : n.role = .plain) :
    src.lower pick scope access (.cons n cs rest) = src.lower pick scope access rest := by
  cases taken : src.action? pick scope access n cs with
  | none => exact src.lower_cons_none rest taken
  | some action =>
    obtain ⟨many, rfl⟩ := action?_comment comment plain taken
    rw [src.lower_cons_some rest taken, many]
    rfl

theorem contribution_withoutComments {action : Action} (clear : src.ClearBelow cs action)
    (below : ∀ pick scope access, src.ClearFor pick cs →
      src.lower pick scope access (withoutComments cs) = src.lower pick scope access cs) :
    src.contribution scope access (withoutComments cs) action =
      src.contribution scope access cs action := by
  cases action with
  | define ds => simp only [contribution, below .definedType scope access clear]
  | splice pick => exact below pick scope access clear
  | enclose d inner start => simp only [contribution, below .body inner start clear]
  | link d => simp only [contribution, below .linked scope access clear]
  | declare ds => rfl
  | label d access => rfl

end Picks

/-- Sibling nodes are lowered as without their comments. -/
theorem lower_withoutComments (pick : Pick) (scope : Scope) (access : Access)
    (plain : PlainComments cs) (clear : src.ClearFor pick cs) :
    src.lower pick scope access (withoutComments cs) = src.lower pick scope access cs := by
  induction cs generalizing pick scope access with
  | nil => rfl
  | cons n below rest ihBelow ihRest =>
    rw [withoutComments]
    by_cases comment : n.kind = .comment
    · rw [if_pos comment, lower_comment comment (plain.root comment)]
      refine ihRest pick scope access plain.rest (clear.tail scope access ?_)
      intro once
      cases taken : src.action? pick scope access n below with
      | none => rfl
      | some action =>
        have many := (action?_comment comment (plain.root comment) taken).1
        rw [once] at many
        cases many
    · rw [if_neg comment]
      have same : src.action? pick scope access n (withoutComments below) =
          src.action? pick scope access n below := action?_withoutComments plain.below clear
      cases taken : src.action? pick scope access n below with
      | none =>
        rw [src.lower_cons_none _ taken, src.lower_cons_none _ (same.trans taken)]
        exact ihRest pick scope access plain.rest (clear.tail scope access fun _ => taken)
      | some action =>
        rw [src.lower_cons_some _ taken, src.lower_cons_some _ (same.trans taken),
          contribution_withoutComments (action?_clearBelow clear taken) fun pick scope access h =>
            ihBelow pick scope access plain.below h]
        by_cases once : pick.once
        · rw [if_pos once, if_pos once]
        · rw [if_neg once, if_neg once, ihRest pick scope _ plain.rest
            (clear.tail scope access fun h => absurd h once)]

/-- A declarator in which a comment stands first names nothing. -/
theorem name?_of_commentFirst (wrapped : wraps n.kind) (first : CommentFirst cs) :
    name? (n, cs) = none := by
  obtain ⟨unmarked, comment, -⟩ := first
  rw [name?_of_wraps wrapped, inner?_of_eq_none unmarked]
  cases head : (namedChildren cs).head? with
  | none => rfl
  | some t =>
    rw [head, Option.any_some, beq_iff_eq] at comment
    simp [name?, nameAmong, comment]

/-- A file is lowered as without its comments where none stands in front of a node that is read
because it is the first. A declaration with a comment first in each of its declarators declares
nothing. -/
theorem comments_ignored_unless_first (src : SourceFile) (parsed : Children)
    (plain : PlainComments parsed) :
    ((∀ t ∈ parsed.trees, src.Clear t) →
      src.declTree (withoutComments parsed) = src.declTree parsed) ∧
    ∀ scope access n cs, (∀ d ∈ inRole .declarator cs, wraps d.1.kind ∧ CommentFirst d.2) →
      src.declarators scope access n cs = [] := by
  constructor
  · intro clear
    unfold declTree
    rw [lower_withoutComments .items {} .nonMember plain clear]
  · intro scope access n cs first
    rw [declarators, List.filterMap_eq_nil_iff]
    intro d mem
    rw [name?_of_commentFirst (first d mem).1 (first d mem).2, Option.map_none]

section Remarked

/-- A declaration with a comment between the sign of its declarator and the name. -/
def remarked (sign : Char) : SourceFile :=
  ⟨⟨"sample.h"⟩, "int ".toList ++ sign :: " /*b*/ x;".toList⟩

/-- How that is parsed, for a kind of declarator and the part that the name plays in it. -/
def remarkedTree (kind : NodeKind) (role : Role) : Children :=
  .cons ⟨.declaration, true, .plain, 0, 14⟩
    (.cons ⟨.other, true, .type, 0, 3⟩ .nil
      (.cons ⟨kind, true, .declarator, 4, 13⟩
        (.cons ⟨.other, false, .plain, 4, 5⟩ .nil
          (.cons ⟨.comment, true, .plain, 6, 11⟩ .nil
            (.cons ⟨.identifier, true, role, 12, 13⟩ .nil .nil)))
        (.cons ⟨.other, false, .plain, 13, 14⟩ .nil .nil)))
    .nil

theorem reference_lost_behind_comment :
    PlainComments (remarkedTree .referenceDeclarator .plain) ∧
      ((remarked '&').declTree (remarkedTree .referenceDeclarator .plain)).entries = [] ∧
      ((remarked '&').declTree
          (withoutComments (remarkedTree .referenceDeclarator .plain))).entries.map
        (fun e => (e.decl.spelling, e.decl.type.spelling)) = [("x", "int &")] := by
  decide +kernel

theorem pointer_kept_behind_comment :
    PlainComments (remarkedTree .pointerDeclarator .declarator) ∧
      (∀ t ∈ (remarkedTree .pointerDeclarator .declarator).trees, (remarked '*').Clear t) ∧
      (remarked '*').declTree (withoutComments (remarkedTree .pointerDeclarator .declarator)) =
        (remarked '*').declTree (remarkedTree .pointerDeclarator .declarator) := by
  have plain : PlainComments (remarkedTree .pointerDeclarator .declarator) := by decide +kernel
  have clear : ∀ t ∈ (remarkedTree .pointerDeclarator .declarator).trees,
      (remarked '*').Clear t := by
    have name : (remarked '*').Clear (⟨.identifier, true, .declarator, 12, 13⟩, .nil) :=
      .intro (by decide +kernel) (by simp [consulted, wraps])
    have type : (remarked '*').Clear (⟨.other, true, .type, 0, 3⟩, .nil) :=
      .intro (by decide +kernel) (by simp [consulted, wraps])
    simp only [remarkedTree, Forest.trees, List.mem_singleton, forall_eq]
    refine .intro (by decide +kernel) ?_
    suffices inside : (remarked '*').Clear (⟨.pointerDeclarator, true, .declarator, 4, 13⟩, _) by
      simpa [consulted, child?, inRole, Forest.trees] using ⟨fun _ => type, fun _ => inside⟩
    refine .intro (by decide +kernel) ?_
    simpa [consulted, wraps, inner?, isInner, child?, Forest.trees] using fun _ => name
  exact ⟨plain, clear, (comments_ignored_unless_first _ _ plain).1 clear⟩

end Remarked

end SourceFile

end ReflectGen.Parse
