import Mathlib.Algebra.GroupWithZero.Nat
import ReflectGen.Proofs.Lowering
import ReflectGen.Proofs.MarkerScope

namespace ReflectGen

/-- Kinds of declarations that name a type. -/
def DeclKind.definesType : DeclKind → Bool
  | structDef | classDef | unionDef | classTemplate | enumDef => true
  | _ => false

namespace Decl

/-- Whether a declaration lends its name to the types inside it. -/
def qualifies (d : Decl) : Bool :=
  (d.kind == .nameSpace || d.kind.isScope) && d.spelling != ""

def isAnonymousRecord (d : Decl) : Bool := d.kind.isScope && d.spelling == ""

/-- The names that the declarations around a type lend to it, outermost first. They are given
innermost first. -/
def scopeNames (around : List Decl) : List String :=
  ((around.filter qualifies).map spelling).reverse

/-- The name of a type under the declarations around it. -/
def qualifiedName (around : List Decl) (d : Decl) : String :=
  "::".intercalate (scopeNames around ++ [d.spelling])

/-- The declarations around a type up to the innermost record without a name. -/
def upToAnonymous (around : List Decl) : List Decl := around.takeWhile (!·.isAnonymousRecord)

end Decl

namespace DeclTree

/-- The declarations around the one numbered `id`, innermost first, and the file at the end. -/
def around (t : DeclTree) (id : Nat) : List Decl :=
  match _parent : t.parent? id with
  | none => []
  | some up => (t.get? up).toList ++ t.around up
termination_by id
decreasing_by exact parent?_lt _parent

theorem around_unit (t : DeclTree) : t.around 0 = [] := by
  rw [around]
  rfl

theorem around_of_mem_edges {t : DeclTree} {n up : Node}
    (h : (n, up) ∈ (t.forest 0).edges t.unit) : t.around n.id = up.decl :: t.around up.id := by
  obtain ⟨-, holder, parent⟩ := edge_spec h
  rw [around]
  split
  · rename_i none
    rw [parent] at none
    cases none
  · rename_i id some
    rw [parent, Option.some.injEq] at some
    subst some
    rw [holder]
    rfl

end DeclTree

namespace Parse

open Text

/-- What qualifies the names inside a declaration that itself stands under `q`. -/
def innerQualifier (q : List Char) (d : Decl) : List Char :=
  if d.kind = .nameSpace then
    if d.spelling = "" then q else Scope.qualify ⟨q, none⟩ d.spelling.toList
  else if d.kind.isScope then Scope.qualify ⟨q, none⟩ d.spelling.toList
  else q

/-- A type has its name under the qualifier `q`. -/
def NamedUnder (q : List Char) (d : Decl) : Prop :=
  d.kind.definesType → d.type.canonical.toList = Scope.qualify ⟨q, none⟩ d.spelling.toList

theorem namedUnder_of_not_definesType {q : List Char} {d : Decl}
    (h : d.kind.definesType = false) : NamedUnder q d := by
  intro types
  rw [h] at types
  cases types

/-- Every type of a forest has its name under the scopes around it, the outermost under `q`. -/
def Qualified (q : List Char) : Forest Decl → Prop
  | .nil => True
  | .cons d kids rest => NamedUnder q d ∧ Qualified (innerQualifier q d) kids ∧ Qualified q rest

theorem qualified_append {q : List Char} {f g : Forest Decl} (hf : Qualified q f)
    (hg : Qualified q g) : Qualified q (f ++ g) := by
  induction f with
  | nil => exact hg
  | cons d kids rest _ ih =>
    obtain ⟨named, inner, later⟩ := hf
    exact ⟨named, inner, ih later⟩

theorem qualified_leaves {q : List Char} {ds : List Decl} (h : ∀ d ∈ ds, NamedUnder q d) :
    Qualified q (.leaves ds) := by
  induction ds with
  | nil => trivial
  | cons d ds ih =>
    have later := ih fun e he => h e (List.mem_cons_of_mem d he)
    exact ⟨h d List.mem_cons_self, trivial, later⟩

/-- The declarations that an action adds are named under the qualifier of its scope, and the scope
it opens has the qualifier of its declaration. -/
def Names (scope : Scope) : Action → Prop
  | .declare ds => ∀ d ∈ ds, NamedUnder scope.qualifier d
  | .define ds => ∀ d ∈ ds, NamedUnder scope.qualifier d
  | .splice _ => True
  | .enclose d inner _ =>
    NamedUnder scope.qualifier d ∧ inner.qualifier = innerQualifier scope.qualifier d
  | .link d => d.kind = .linkageBlock
  | .label d _ => d.kind = .accessLabel

namespace SourceFile

variable (src : SourceFile) (scope : Scope) (access : Access) (n : Node) (cs : Children)

theorem definesType_functionKind (typed : Bool) :
    (src.functionKind scope n typed).definesType = false := by
  unfold functionKind
  split
  · rfl
  · split
    · rfl
    · split <;> rfl

theorem definesType_of_mem_declarators {d : Decl} (h : d ∈ src.declarators scope access n cs) :
    d.kind.definesType = false := by
  simp only [declarators, List.mem_filterMap, Option.map_eq_some_iff] at h
  obtain ⟨declarator, -, name, -, rfl⟩ := h
  simp only [declare]
  split
  · exact src.definesType_functionKind scope name _
  · split <;> rfl

theorem enclosedNamespace_names : Names scope (src.enclosedNamespace scope n cs) := by
  refine ⟨namedUnder_of_not_definesType rfl, ?_⟩
  simp only [innerQualifier, declare, if_true]
  by_cases anonymous : ((child? .name cs).map (·.1)).elim [] (·.text src.text) = []
  · simp [anonymous]
  · simp [Scope.qualify]

theorem enclosedRecord_names {kind : DeclKind} (hk : kind.isScope) (start : Access) :
    Names scope (src.enclosedRecord scope access kind start n cs) := by
  have other : kind ≠ .nameSpace := by
    rintro rfl
    cases hk
  refine ⟨?_, ?_⟩
  · intro _
    simp [declare, Scope.qualify]
  · simp [innerQualifier, declare, other, hk, Scope.qualify]

theorem item_names : Names scope (src.item scope access n cs) := by
  have declarators (d : Decl) (hd : d ∈ src.declarators scope access n cs) :
      NamedUnder scope.qualifier d :=
    namedUnder_of_not_definesType (src.definesType_of_mem_declarators scope access n cs hd)
  unfold item
  cases n.kind with
  | namespaceDefinition => exact src.enclosedNamespace_names scope n cs
  | record kind => cases kind <;> exact src.enclosedRecord_names scope access n cs rfl _
  | enumSpecifier =>
    intro d hd
    rw [List.mem_singleton] at hd
    subst hd
    intro _
    simp [enumeration, declare, Scope.qualify]
  | fieldDeclaration => exact declarators
  | declaration => exact declarators
  | functionDefinition =>
    intro d hd
    simp only [functionDefinition, Option.mem_toList, Option.map_eq_some_iff] at hd
    obtain ⟨name, -, rfl⟩ := hd
    exact namedUnder_of_not_definesType (src.definesType_functionKind scope name _)
  | linkage => rfl
  | accessSpecifier =>
    simp only
    split
    · rfl
    · intro d hd
      cases hd
  | remark =>
    intro d hd
    rw [List.mem_singleton] at hd
    subst hd
    exact namedUnder_of_not_definesType rfl
  | templateDeclaration => trivial
  | conditional => trivial
  | alternative => trivial
  | group => trivial
  | _ =>
    intro d hd
    cases hd

theorem templateItem_names : Names scope (src.templateItem scope access n cs) := by
  have member : Names scope (.declare [src.templateMember scope access n cs]) := by
    intro d hd
    rw [List.mem_singleton] at hd
    subst hd
    exact namedUnder_of_not_definesType rfl
  unfold templateItem
  split
  · intro d hd
    cases hd
  · exact src.enclosedRecord_names scope access n cs rfl _
  · exact member
  · exact member
  · exact member
  · exact src.item_names scope access n cs

variable {scope access n cs}

theorem action?_names {pick : Pick} {action : Action}
    (h : src.action? pick scope access n cs = some action) : Names scope action := by
  cases pick <;> simp only [action?, Option.ite_none_right_eq_some, Option.some.injEq] at h <;>
    obtain ⟨-, rfl⟩ := h
  · exact src.item_names scope access n cs
  · exact src.templateItem_names scope access n cs
  · exact src.item_names scope access n cs
  · trivial
  · exact src.item_names scope access n cs
  · split
    · exact src.item_names scope access n cs
    · intro d hd
      cases hd

theorem contribution_qualified {action : Action}
    (ih : ∀ pick scope access, Qualified scope.qualifier (src.lower pick scope access cs).1)
    (h : Names scope action) :
    Qualified scope.qualifier (src.contribution scope access cs action).1 := by
  cases action with
  | declare ds => exact qualified_leaves h
  | define ds => exact qualified_append (ih .definedType scope access) (qualified_leaves h)
  | splice pick => exact ih pick scope access
  | enclose d inner start =>
    obtain ⟨named, same⟩ := h
    refine ⟨named, ?_, trivial⟩
    rw [← same]
    exact ih .body inner start
  | link d =>
    have kind : d.kind = .linkageBlock := h
    have same : innerQualifier scope.qualifier d = scope.qualifier := by
      simp [innerQualifier, kind, DeclKind.isScope]
    refine ⟨namedUnder_of_not_definesType (by rw [kind]; rfl), ?_, trivial⟩
    rw [same]
    exact ih .linked scope access
  | label d access =>
    have kind : d.kind = .accessLabel := h
    exact ⟨namedUnder_of_not_definesType (by rw [kind]; rfl), trivial, trivial⟩

theorem lower_qualified (pick : Pick) (scope : Scope) (access : Access) (cs : Children) :
    Qualified scope.qualifier (src.lower pick scope access cs).1 := by
  induction cs generalizing pick scope access with
  | nil => trivial
  | cons n kids rest ihk ihr =>
    cases h : src.action? pick scope access n kids with
    | none =>
      rw [src.lower_cons_none rest h]
      exact ihr pick scope access
    | some action =>
      have here : Qualified scope.qualifier (src.contribution scope access kids action).1 :=
        src.contribution_qualified ihk (src.action?_names h)
      rw [src.lower_cons_some rest h]
      split
      · exact here
      · exact qualified_append here (ihr pick scope _)

end SourceFile

/-- The qualifier that the declarations around a type, innermost first, make up. -/
def qualifierOf (around : List Decl) : List Char :=
  ("::".intercalate (Decl.scopeNames (Decl.upToAnonymous around))).toList

theorem intercalate_ne_nil {names : List String} (some : names ≠ []) (shown : ∀ s ∈ names, s ≠ "") :
    ("::".intercalate names).toList ≠ [] := by
  cases names with
  | nil => exact absurd rfl some
  | cons s rest =>
    have first : s.toList ≠ [] := by simpa using shown s List.mem_cons_self
    rw [String.toList_intercalate]
    cases rest <;> simp [first]

theorem qualifies_spelling {ds : List Decl} : ∀ s ∈ Decl.scopeNames ds, s ≠ "" := by
  intro s hs
  simp only [Decl.scopeNames, List.mem_reverse, List.mem_map, List.mem_filter, Decl.qualifies,
    Bool.and_eq_true, bne_iff_ne] at hs
  obtain ⟨d, ⟨-, -, shown⟩, rfl⟩ := hs
  exact shown

/-- One more name goes behind those in front of it. -/
theorem qualify_intercalate {names : List String} (shown : ∀ s ∈ names, s ≠ "") {name : String}
    (hn : name ≠ "") :
    Scope.qualify ⟨("::".intercalate names).toList, none⟩ name.toList =
      ("::".intercalate (names ++ [name])).toList := by
  have named : name.toList ≠ [] := by simpa using hn
  cases names with
  | nil => simp [Scope.qualify]
  | cons s rest =>
    have some : s :: rest ≠ [] := List.cons_ne_nil s rest
    have before := intercalate_ne_nil some shown
    rw [String.intercalate_append_of_ne_nil some (List.cons_ne_nil name []),
      String.intercalate_singleton]
    simp only [Scope.qualify, before, named, or_self, if_false]
    simp

theorem qualifierOf_cons (d : Decl) (around : List Decl) :
    qualifierOf (d :: around) = innerQualifier (qualifierOf around) d := by
  unfold qualifierOf Decl.upToAnonymous
  by_cases anonymous : d.isAnonymousRecord = true
  · have parts : d.kind.isScope = true ∧ d.spelling = "" := by
      simpa [Decl.isAnonymousRecord] using anonymous
    have other : d.kind ≠ .nameSpace := by
      intro kind
      rw [kind] at parts
      cases parts.1
    rw [List.takeWhile_cons_of_neg (by simp [anonymous])]
    simp [innerQualifier, other, parts, Scope.qualify, Decl.scopeNames]
  · rw [List.takeWhile_cons_of_pos (by simp [anonymous])]
    by_cases lends : d.qualifies = true
    · have parts : (d.kind = .nameSpace ∨ d.kind.isScope = true) ∧ d.spelling ≠ "" := by
        simpa [Decl.qualifies] using lends
      have names : Decl.scopeNames (d :: around.takeWhile (!·.isAnonymousRecord)) =
          Decl.scopeNames (around.takeWhile (!·.isAnonymousRecord)) ++ [d.spelling] := by
        simp [Decl.scopeNames, lends]
      rw [names, ← qualify_intercalate qualifies_spelling parts.2, innerQualifier]
      rcases parts.1 with kind | kind
      · simp [kind, parts.2]
      · simp [kind, parts.2]
    · have names : Decl.scopeNames (d :: around.takeWhile (!·.isAnonymousRecord)) =
          Decl.scopeNames (around.takeWhile (!·.isAnonymousRecord)) := by
        simp [Decl.scopeNames, lends]
      rw [names, innerQualifier]
      simp only [Decl.qualifies, Decl.isAnonymousRecord] at lends anonymous
      by_cases kind : d.kind = .nameSpace
      · have unnamed : d.spelling = "" := by simpa [kind] using lends
        simp [kind, unnamed]
      · have other : d.kind.isScope = false := by
          by_cases scope : d.kind.isScope = true
          · have unnamed : d.spelling = "" := by simpa [scope] using lends
            simp [scope, unnamed] at anonymous
          · simpa using scope
        simp [kind, other]

/-- What holds of the declarations without their numbers, read at a numbered one: the qualifier is
that of the declarations around it. -/
theorem namedUnder_of_mem {t : DeclTree} {f : Forest DeclTree.Node} {above : DeclTree.Node}
    (edges : ∀ e ∈ f.edges above, e ∈ (t.forest 0).edges t.unit)
    (named : Qualified (qualifierOf (above.decl :: t.around above.id)) (f.map DeclTree.Node.decl))
    {n : DeclTree.Node} (hn : n ∈ f.preorder) :
    NamedUnder (qualifierOf (t.around n.id)) n.decl := by
  induction f generalizing above with
  | nil => simp [Forest.preorder] at hn
  | cons m kids rest ihk ihr =>
    simp only [Forest.edges, List.mem_cons, List.mem_append] at edges
    obtain ⟨here, inner, later⟩ := named
    have lineage : t.around m.id = above.decl :: t.around above.id :=
      DeclTree.around_of_mem_edges (edges _ (.inl rfl))
    rw [← lineage] at here inner
    rw [← qualifierOf_cons] at inner
    simp only [Forest.preorder, List.mem_cons, List.mem_append] at hn
    rcases hn with rfl | hn | hn
    · exact here
    · exact ihk (fun e he => edges e (.inr (.inl he))) inner hn
    · exact ihr (fun e he => edges e (.inr (.inr he))) later hn

theorem namedUnder_of_mem_nodes (src : SourceFile) (parsed : Children) {n : DeclTree.Node}
    (hn : n ∈ (src.declTree parsed).nodes) :
    NamedUnder (qualifierOf ((src.declTree parsed).around n.id)) n.decl := by
  rcases List.mem_cons.mp hn with rfl | hn
  · exact namedUnder_of_not_definesType rfl
  · have lowered := src.lower_qualified .items {} .nonMember parsed
    have decls : ((src.declTree parsed).forest 0).map DeclTree.Node.decl =
        (src.lower .items {} .nonMember parsed).1 := DeclTree.map_forest_ofForest _ _
    refine namedUnder_of_mem (fun e he => he) ?_ hn
    rw [decls, show (src.declTree parsed).unit.id = 0 from rfl, DeclTree.around_unit]
    exact lowered

theorem length_qualifiedName (around : List Decl) (d : Decl) :
    (Decl.qualifiedName around d).length =
      ((Decl.scopeNames around).map fun s => s.length + 2).sum + d.spelling.length := by
  have separator : "::".length = 2 := rfl
  unfold Decl.qualifiedName
  induction Decl.scopeNames around with
  | nil => simp
  | cons s rest ih =>
    rw [List.cons_append, String.intercalate_cons_of_ne_nil (by simp), String.length_append,
      String.length_append, ih, separator, List.map_cons, List.sum_cons]
    omega

/-- A name that is cut off at a record without a name is the whole one just where no scope around
that record lends a name. -/
theorem qualifiedName_upToAnonymous_iff (around : List Decl) (d : Decl) :
    Decl.qualifiedName (Decl.upToAnonymous around) d = Decl.qualifiedName around d ↔
      ∀ e ∈ around.dropWhile (!·.isAnonymousRecord), e.qualifies = false := by
  have cut_nil : Decl.scopeNames (around.dropWhile (!·.isAnonymousRecord)) = [] ↔
      ∀ e ∈ around.dropWhile (!·.isAnonymousRecord), e.qualifies = false := by
    simp [Decl.scopeNames]
  have split := congrArg Decl.scopeNames (List.takeWhile_append_dropWhile
    (p := fun e => !Decl.isAnonymousRecord e) (l := around)).symm
  have names : Decl.scopeNames around =
      Decl.scopeNames (around.dropWhile (!·.isAnonymousRecord)) ++
        Decl.scopeNames (Decl.upToAnonymous around) := by
    rw [split, Decl.scopeNames, List.filter_append, List.map_append, List.reverse_append]
    rfl
  rw [← cut_nil]
  constructor
  · intro same
    have lengths := congrArg String.length same
    rw [length_qualifiedName, length_qualifiedName, names, List.map_append, List.sum_append]
      at lengths
    -- A name that was cut off would have made the text longer.
    cases cut : Decl.scopeNames (around.dropWhile (!·.isAnonymousRecord)) with
    | nil => rfl
    | cons s rest =>
      rw [cut, List.map_cons, List.sum_cons] at lengths
      omega
  · intro cut
    rw [Decl.qualifiedName, Decl.qualifiedName, names, cut, List.nil_append]

/-- A type of a lowered file is named by the scopes around it up to the innermost record without a
name, and by its own name. That is its full name unless a scope with a name stands around such a
record. -/
theorem canonical_name_cut_at_anonymous_record (src : SourceFile) (parsed : Children)
    {n : DeclTree.Node} (hn : n ∈ (src.declTree parsed).nodes) (kind : n.decl.kind.definesType)
    (shown : n.decl.spelling ≠ "") :
    n.decl.type.canonical =
        Decl.qualifiedName (Decl.upToAnonymous ((src.declTree parsed).around n.id)) n.decl ∧
      (n.decl.type.canonical = Decl.qualifiedName ((src.declTree parsed).around n.id) n.decl ↔
        ∀ e ∈ ((src.declTree parsed).around n.id).dropWhile (!·.isAnonymousRecord),
          e.qualifies = false) := by
  have named := namedUnder_of_mem_nodes src parsed hn kind
  rw [qualifierOf, qualify_intercalate qualifies_spelling shown, String.toList_inj] at named
  refine ⟨named, ?_⟩
  rw [← qualifiedName_upToAnonymous_iff, named]
  rfl

section AnonymousRecord

/-- A record without a name inside a named one, with a named one inside. -/
def nestedSource : SourceFile :=
  ⟨⟨"/project/src/sample.h"⟩,
    "struct A { struct { struct C { int d; }; int c; }; int b; };".toList⟩

/-- The parse tree of the source, less its punctuation. -/
def nestedParsed : Children :=
  .ofTrees [
    (⟨.record .struct, true, .plain, 0, 59⟩, .ofTrees [
      (⟨.identifier, true, .name, 7, 8⟩, .nil),
      (⟨.other, true, .body, 9, 59⟩, .ofTrees [
        (⟨.fieldDeclaration, true, .plain, 11, 50⟩, .ofTrees [
          (⟨.record .struct, true, .type, 11, 49⟩, .ofTrees [
            (⟨.other, true, .body, 18, 49⟩, .ofTrees [
              (⟨.fieldDeclaration, true, .plain, 20, 40⟩, .ofTrees [
                (⟨.record .struct, true, .type, 20, 39⟩, .ofTrees [
                  (⟨.identifier, true, .name, 27, 28⟩, .nil),
                  (⟨.other, true, .body, 29, 39⟩, .ofTrees [
                    (⟨.fieldDeclaration, true, .plain, 31, 37⟩, .leaves [
                      ⟨.other, true, .type, 31, 34⟩,
                      ⟨.identifier, true, .declarator, 35, 36⟩])])])]),
              (⟨.fieldDeclaration, true, .plain, 41, 47⟩, .leaves [
                ⟨.other, true, .type, 41, 44⟩,
                ⟨.identifier, true, .declarator, 45, 46⟩])])])]),
        (⟨.fieldDeclaration, true, .plain, 51, 57⟩, .leaves [
          ⟨.other, true, .type, 51, 54⟩,
          ⟨.identifier, true, .declarator, 55, 56⟩])])])]

def nestedOuter : DeclTree.Node :=
  ⟨1, ⟨.structDef, "A", ⟨⟨"/project/src/sample.h"⟩, 1, 8⟩, ⟨"A", "A"⟩, .nonMember⟩⟩

def nestedAnonymous : DeclTree.Node :=
  ⟨2, ⟨.structDef, "", ⟨⟨"/project/src/sample.h"⟩, 1, 12⟩, ⟨"", ""⟩, .publicMember⟩⟩

def nestedInner : DeclTree.Node :=
  ⟨3, ⟨.structDef, "C", ⟨⟨"/project/src/sample.h"⟩, 1, 28⟩, ⟨"C", "C"⟩, .publicMember⟩⟩

theorem nestedInner_mem : nestedInner ∈ (nestedSource.declTree nestedParsed).nodes := by
  decide +kernel

theorem around_nestedInner :
    (nestedSource.declTree nestedParsed).around nestedInner.id =
      [nestedAnonymous.decl, nestedOuter.decl, .ofFile ⟨"/project/src/sample.h"⟩] := by
  let t := nestedSource.declTree nestedParsed
  have inner : t.around nestedInner.id = nestedAnonymous.decl :: t.around nestedAnonymous.id :=
    DeclTree.around_of_mem_edges (by decide +kernel)
  have middle : t.around nestedAnonymous.id = nestedOuter.decl :: t.around nestedOuter.id :=
    DeclTree.around_of_mem_edges (by decide +kernel)
  have outer : t.around nestedOuter.id = t.unit.decl :: t.around t.unit.id :=
    DeclTree.around_of_mem_edges (by decide +kernel)
  have top : t.around t.unit.id = [] := t.around_unit
  rw [inner, middle, outer, top]
  rfl

/-- The inner record loses the name of the outer one. -/
theorem nestedInner_unqualified :
    nestedInner ∈ (nestedSource.declTree nestedParsed).nodes ∧
      nestedInner.decl.type.canonical = "C" ∧
      Decl.qualifiedName ((nestedSource.declTree nestedParsed).around nestedInner.id)
        nestedInner.decl = "A::C" := by
  refine ⟨nestedInner_mem, rfl, ?_⟩
  rw [around_nestedInner]
  decide

theorem nestedInner_cut :
    nestedInner.decl.kind.definesType ∧ nestedInner.decl.spelling ≠ "" ∧
      nestedInner.decl.type.canonical = Decl.qualifiedName (Decl.upToAnonymous
        ((nestedSource.declTree nestedParsed).around nestedInner.id)) nestedInner.decl :=
  ⟨rfl, by decide, (canonical_name_cut_at_anonymous_record nestedSource nestedParsed
    nestedInner_mem rfl (by decide)).1⟩

end AnonymousRecord

end Parse

end ReflectGen
