import ReflectGen.Proofs.MemberAccess

namespace ReflectGen

/-- The access that the last label among some declarations gives. -/
def Decl.lastLabel? (ds : List Decl) : Option Access :=
  (ds.filter (·.kind == .accessLabel)).getLast?.map Decl.access

theorem Decl.lastLabel?_concat (ds : List Decl) (d : Decl) :
    lastLabel? (ds ++ [d]) = if d.kind = .accessLabel then some d.access else lastLabel? ds := by
  unfold lastLabel?
  by_cases label : d.kind = .accessLabel <;> simp [label]

namespace Forest

/-- Without linkage blocks the labels of a body are those among its roots. -/
theorem bodyLabels_of_roots {f : Forest Decl} (plain : ∀ d ∈ f.roots, d.kind ≠ .linkageBlock) :
    f.bodyLabels = (f.roots.filter (·.kind == .accessLabel)).map Decl.access := by
  induction f with
  | nil => rfl
  | cons d kids rest _ ih =>
    rw [roots] at plain
    have here : d.kind ≠ .linkageBlock := plain d List.mem_cons_self
    have later := ih fun e he => plain e (List.mem_cons_of_mem d he)
    rw [bodyLabels, roots, later]
    cases hk : d.kind <;> simp [hk] at here ⊢

theorem inForce_of_roots (start : Access) {f : Forest Decl}
    (plain : ∀ d ∈ f.roots, d.kind ≠ .linkageBlock) :
    f.inForce start = (Decl.lastLabel? f.roots).getD start := by
  rw [inForce, bodyLabels_of_roots plain, Decl.lastLabel?, List.getLast?_map]

theorem Governed.access_of_append {inRecord : Bool} {start : Access} {f kids g : Forest Decl}
    {d : Decl} (h : Governed inRecord start (f ++ cons d kids g)) :
    ∀ a ∈ governedAccess? inRecord (f.inForce start) d.kind, d.access = a :=
  (governed_of_append h).1

/-- In a record without linkage blocks the last label up to a declaration gives its access. -/
theorem Governed.access_of_roots {start : Access} {f : Forest Decl} (h : Governed true start f)
    (plain : ∀ d ∈ f.roots, d.kind ≠ .linkageBlock) {before after : List Decl} {d : Decl}
    (place : f.roots = before ++ d :: after) (other : d.kind ≠ .nameSpace) :
    d.access = (Decl.lastLabel? (before ++ [d])).getD start := by
  rw [place] at plain
  have unlinked : d.kind ≠ .linkageBlock := plain d (by simp)
  obtain ⟨s, kids, u, rfl, rfl⟩ := exists_append_of_roots place
  have access := h.access_of_append
  rw [inForce_of_roots start fun e he => plain e (List.mem_append_left _ he)] at access
  rw [Decl.lastLabel?_concat]
  by_cases label : d.kind = .accessLabel
  · rw [if_pos label, Option.getD_some]
  · rw [if_neg label]
    apply access
    cases hk : d.kind <;> simp [hk] at label unlinked other <;> rfl

/-- Outside records only labels have an access. -/
theorem Governed.access_outside {start : Access} {f : Forest Decl} (h : Governed false start f)
    {d : Decl} (mem : d ∈ f.roots) (other : d.kind ≠ .accessLabel) : d.access = .nonMember := by
  obtain ⟨before, after, place⟩ := List.append_of_mem mem
  obtain ⟨s, kids, u, rfl, -⟩ := exists_append_of_roots place
  apply h.access_of_append
  cases hk : d.kind <;> simp [hk] at other <;> rfl

end Forest

namespace Parse.SourceFile

open Forest

variable (src : SourceFile) (parsed : Children)

theorem governed_unit :
    Governed false .nonMember (((src.declTree parsed).forest 0).map DeclTree.Node.decl) := by
  have lowered := (src.lower_threads .items {} .nonMember parsed).1
  rw [declTree, DeclTree.map_forest_ofForest]
  exact lowered

theorem hasTree_of_mem {r : DeclTree.Node}
    (hr : r ∈ ((src.declTree parsed).forest 0).preorder) :
    (((src.declTree parsed).forest 0).map DeclTree.Node.decl).HasTree r.decl
      (((src.declTree parsed).forest r.id).map DeclTree.Node.decl) := by
  obtain ⟨kids, tree⟩ := exists_hasTree_of_mem_preorder hr
  rw [DeclTree.forest_of_hasTree tree]
  exact tree.map DeclTree.Node.decl

/-- A declaration directly in a struct, class or union has the access of the last label up to it, or
the one that the record starts with; one directly in the file or in a namespace has none. Linkage
blocks in a record are left out, since the labels inside them count for what comes after. -/
theorem access_follows_labels {r : DeclTree.Node} (hr : r ∈ (src.declTree parsed).nodes) :
    (∀ start, r.decl.kind.startAccess? = some start →
      (∀ d ∈ (src.declTree parsed).children r.id, d.kind ≠ .linkageBlock) →
      ∀ before d after, (src.declTree parsed).children r.id = before ++ d :: after →
        d.kind ≠ .nameSpace → d.access = (Decl.lastLabel? (before ++ [d])).getD start) ∧
    (r.decl.kind = .translationUnit ∨ r.decl.kind = .nameSpace →
      ∀ d ∈ (src.declTree parsed).children r.id, d.kind ≠ .accessLabel →
        d.access = .nonMember) := by
  rw [DeclTree.children_eq_roots]
  rcases List.mem_cons.mp hr with rfl | hr
  · constructor
    · intro start kind
      cases kind
    · intro _ d mem other
      exact (src.governed_unit parsed).access_outside mem other
  have tree := src.hasTree_of_mem parsed hr
  have whole := src.governed_unit parsed
  constructor
  · intro start kind plain before d after place other
    exact (whole.of_hasTree tree kind).access_of_roots plain place other
  · obtain ⟨_, _, _, -, below, -⟩ := whole.exists_around tree
    rintro (kind | kind) d mem other
    · -- A file is never inside another one.
      rw [kind] at below
      rw [below] at mem
      cases mem
    · rw [kind] at below
      exact below.access_outside mem other

/-- A class in a namespace. A struct without a name, defined in place, has a label of its own in
front of the class's only one. -/
def innerLabel : SourceFile :=
  ⟨⟨"a/s.h"⟩, "namespace n{class A{int a;struct{private:int b;}c;public:int d;};}".toList⟩

/-- The parse tree of the source, less its punctuation. -/
def innerLabelTree : Children :=
  .ofTrees [
    (⟨.namespaceDefinition, true, .plain, 0, 66⟩, .ofTrees [
      (⟨.identifier, true, .name, 10, 11⟩, .nil),
      (⟨.group, true, .body, 11, 66⟩, .ofTrees [
        (⟨.record .classRecord, true, .plain, 12, 64⟩, .ofTrees [
          (⟨.identifier, true, .name, 18, 19⟩, .nil),
          (⟨.other, true, .body, 19, 64⟩, .ofTrees [
            (⟨.fieldDeclaration, true, .plain, 20, 26⟩, .leaves [
              ⟨.other, true, .type, 20, 23⟩,
              ⟨.identifier, true, .declarator, 24, 25⟩]),
            (⟨.fieldDeclaration, true, .plain, 26, 50⟩, .ofTrees [
              (⟨.record .struct, true, .type, 26, 48⟩, .ofTrees [
                (⟨.other, true, .body, 32, 48⟩, .ofTrees [
                  (⟨.accessSpecifier, true, .plain, 33, 40⟩, .nil),
                  (⟨.fieldDeclaration, true, .plain, 41, 47⟩, .leaves [
                    ⟨.other, true, .type, 41, 44⟩,
                    ⟨.identifier, true, .declarator, 45, 46⟩])])]),
              (⟨.identifier, true, .declarator, 48, 49⟩, .nil)]),
            (⟨.accessSpecifier, true, .plain, 50, 56⟩, .nil),
            (⟨.fieldDeclaration, true, .plain, 57, 63⟩, .leaves [
              ⟨.other, true, .type, 57, 60⟩,
              ⟨.identifier, true, .declarator, 61, 62⟩])])])])])]

def outerScope : DeclTree.Node :=
  ⟨1, ⟨.nameSpace, "n", ⟨⟨"a/s.h"⟩, 1, 11⟩, .plain "n", .nonMember⟩⟩

def outerClass : DeclTree.Node :=
  ⟨2, ⟨.classDef, "A", ⟨⟨"a/s.h"⟩, 1, 19⟩, ⟨"A", "n::A"⟩, .nonMember⟩⟩

def classPart (kind : DeclKind) (spelling : String) (column : Nat) (type : String)
    (access : Access) : Decl :=
  ⟨kind, spelling, ⟨⟨"a/s.h"⟩, 1, column⟩, .plain type, access⟩

/-- What stands in the class up to the variable of the inner type. -/
def partsBefore : List Decl :=
  [classPart .field "a" 25 "int" .privateMember, classPart .structDef "" 27 "" .privateMember]

def innerVariable : Decl := classPart .field "c" 49 "struct{private:int b;}" .privateMember

def partsAfter : List Decl :=
  [classPart .accessLabel "" 51 "" .publicMember, classPart .field "d" 62 "int" .publicMember]

/-- The variable after the inner label has the access that the class starts with, and the class has
none. -/
theorem innerLabel_access :
    (innerLabel.declTree innerLabelTree).children outerClass.id =
        partsBefore ++ innerVariable :: partsAfter ∧
      innerVariable.access =
        (Decl.lastLabel? (partsBefore ++ [innerVariable])).getD .privateMember ∧
      outerClass.decl ∈ (innerLabel.declTree innerLabelTree).children outerScope.id ∧
      outerClass.decl.access = .nonMember := by
  have inTree : outerClass ∈ (innerLabel.declTree innerLabelTree).nodes := by decide +kernel
  have scopeInTree : outerScope ∈ (innerLabel.declTree innerLabelTree).nodes := by decide +kernel
  have parts : (innerLabel.declTree innerLabelTree).children outerClass.id =
      partsBefore ++ innerVariable :: partsAfter := by
    decide +kernel
  have unlinked : ∀ d ∈ (innerLabel.declTree innerLabelTree).children outerClass.id,
      d.kind ≠ .linkageBlock := by
    rw [parts]
    decide
  have inScope : outerClass.decl ∈
      (innerLabel.declTree innerLabelTree).children outerScope.id := by
    decide +kernel
  refine ⟨parts, ?_, inScope, ?_⟩
  · exact (access_follows_labels innerLabel innerLabelTree inTree).1 .privateMember rfl unlinked
      partsBefore innerVariable partsAfter parts (by decide)
  · exact (access_follows_labels innerLabel innerLabelTree scopeInTree).2 (.inr rfl)
      outerClass.decl inScope (by decide)

end Parse.SourceFile

end ReflectGen
