import ReflectGen.Parse.Lowering

namespace ReflectGen

/-- Kinds of declarations that never hold others. -/
def DeclKind.isLeaf : DeclKind → Bool
  | enumDef | field | method | constructorFn | destructorFn | function | object | other => true
  | _ => false

/-- The access in force at the start of a record's body, where the kind of the record tells it. -/
def DeclKind.startAccess? : DeclKind → Option Access
  | structDef | unionDef => some .publicMember
  | classDef => some .privateMember
  | _ => none

/-- Kinds of records, templates included. -/
def DeclKind.isScope : DeclKind → Bool
  | structDef | classDef | unionDef | classTemplate => true
  | _ => false

namespace Parse

/-- What an action can be, for a node in a scope and under an access. -/
inductive Fits (scope : Scope) (access : Access) : Action → Prop
  | declares {ds} (h : ∀ d ∈ ds, d.kind.isLeaf ∧ d.kind ≠ .field ∧
      d.access = scope.memberAccess access) : Fits scope access (.declare ds)
  | defines {ds} (h : ∀ d ∈ ds, d.kind.isLeaf ∧ d.access = scope.memberAccess access) :
      Fits scope access (.define ds)
  | splices (pick) : Fits scope access (.splice pick)
  | opensNamespace {d qualifier} (hk : d.kind = .nameSpace) (ha : d.access = .nonMember) :
      Fits scope access (.enclose d ⟨qualifier, none⟩ .nonMember)
  | opensRecord {d qualifier name start} (hk : d.kind.isScope)
      (hs : ∀ a ∈ d.kind.startAccess?, start = a) (ha : d.access = scope.memberAccess access) :
      Fits scope access (.enclose d ⟨qualifier, some name⟩ start)
  | links {d} (hk : d.kind = .linkageBlock) (ha : d.access = .nonMember) :
      Fits scope access (.link d)
  | labels {d} (hk : d.kind = .accessLabel) : Fits scope access (.label d d.access)

namespace SourceFile

variable (src : SourceFile)

/-- What an action on a node makes of the nodes below it, and the access in force after it. -/
def contribution (scope : Scope) (access : Access) (cs : Children) : Action → Forest Decl × Access
  | .declare ds => (.leaves ds, access)
  | .define ds =>
    ((src.lower .definedType scope access cs).1 ++ .leaves ds,
      (src.lower .definedType scope access cs).2)
  | .splice inner => src.lower inner scope access cs
  | .enclose d inner start => (.cons d (src.lower .body inner start cs).1 .nil, access)
  | .link d =>
    (.cons d (src.lower .linked scope access cs).1 .nil, (src.lower .linked scope access cs).2)
  | .label d access => (.leaves [d], access)

theorem lower_cons_none {pick : Pick} {scope : Scope} {access : Access} {n : Node} {cs : Children}
    (rest : Children) (h : src.action? pick scope access n cs = none) :
    src.lower pick scope access (.cons n cs rest) = src.lower pick scope access rest := by
  rw [lower, h]

theorem lower_cons_some {pick : Pick} {scope : Scope} {access : Access} {n : Node} {cs : Children}
    {action : Action} (rest : Children) (h : src.action? pick scope access n cs = some action) :
    src.lower pick scope access (.cons n cs rest) =
      if pick.once then src.contribution scope access cs action
      else
        ((src.contribution scope access cs action).1 ++
            (src.lower pick scope (src.contribution scope access cs action).2 rest).1,
          (src.lower pick scope (src.contribution scope access cs action).2 rest).2) := by
  rw [lower, h]
  cases action <;> rfl

theorem functionKind_isLeaf (scope : Scope) (name : Node) (typed : Bool) :
    (src.functionKind scope name typed).isLeaf ∧ src.functionKind scope name typed ≠ .field := by
  unfold functionKind
  split
  · decide
  · split
    · decide
    · split <;> decide

/-- A declaration is that of a data member: it stems from a declarator of a non-static field
declaration that declares no function. -/
structure DeclaresField (t : Node × Children) (d : Decl) : Prop where
  kind : t.1.kind = .fieldDeclaration
  -- A storage class is a named node.
  nonStatic : ∀ c ∈ namedChildren t.2, c.1.kind = .storageClass →
    c.1.text src.text ≠ "static".toList
  declarator : ∃ declarator ∈ inRole .declarator t.2, ¬Declarator.isFunction declarator ∧
    ∃ name, Declarator.name? declarator = some name ∧
      d = src.declare .field (name.text src.text) name
        (.plain (String.ofList (Declarator.decorate src.text (src.typeText t.2) declarator)))
        d.access

theorem mem_declarators {scope : Scope} {access : Access} {n : Node} {cs : Children} {d : Decl}
    (h : d ∈ src.declarators scope access n cs) :
    d.kind.isLeaf ∧ d.access = scope.memberAccess access ∧
      (d.kind = .field → src.DeclaresField (n, cs) d) := by
  simp only [declarators, List.mem_filterMap, Option.map_eq_some_iff] at h
  obtain ⟨declarator, hrole, name, hname, rfl⟩ := h
  by_cases hf : Declarator.isFunction declarator
  · have hk := src.functionKind_isLeaf scope name (child? .type cs).isSome
    simp only [hf, if_true, declare]
    exact ⟨hk.1, trivial, fun hfield => absurd hfield hk.2⟩
  · simp only [hf, Bool.false_eq_true, if_false, declare]
    split
    · rename_i hfield
      simp only [Bool.and_eq_true, decide_eq_true_eq, Bool.not_eq_true', List.any_eq_false,
        beq_iff_eq, not_and] at hfield
      refine ⟨rfl, trivial, fun _ => ⟨hfield.1.1, ?_, declarator, hrole, hf, name, hname, rfl⟩⟩
      intro c hc hkind
      exact hfield.2 c hc hkind
    · exact ⟨rfl, trivial, by simp⟩

theorem item_fits (scope : Scope) (access : Access) (n : Node) (cs : Children) :
    Fits scope access (src.item scope access n cs) := by
  unfold item
  cases hk : n.kind with
  | namespaceDefinition => exact .opensNamespace rfl rfl
  | record kind =>
    cases kind <;> exact .opensRecord rfl
      (by simp [declare, recordKind, DeclKind.startAccess?, initialAccess]) rfl
  | enumSpecifier => exact .declares (by simp [enumeration, declare, DeclKind.isLeaf])
  | fieldDeclaration =>
    exact .defines fun d hd => ⟨(src.mem_declarators hd).1, (src.mem_declarators hd).2.1⟩
  | declaration =>
    exact .defines fun d hd => ⟨(src.mem_declarators hd).1, (src.mem_declarators hd).2.1⟩
  | functionDefinition =>
    apply Fits.declares
    intro d hd
    simp only [functionDefinition, Option.mem_toList, Option.map_eq_some_iff] at hd
    obtain ⟨name, -, rfl⟩ := hd
    have hk := src.functionKind_isLeaf scope name (child? .type cs).isSome
    exact ⟨hk.1, hk.2, rfl⟩
  | templateDeclaration => exact .splices _
  | linkage => exact .links rfl rfl
  | accessSpecifier =>
    simp only
    split
    · exact .labels rfl
    · exact .declares (by simp)
  | conditional => exact .splices _
  | alternative => exact .splices _
  | group => exact .splices _
  | remark => exact .declares (by simp [declare, DeclKind.isLeaf])
  | _ => exact .declares (by simp)

theorem templateItem_fits (scope : Scope) (access : Access) (n : Node) (cs : Children) :
    Fits scope access (src.templateItem scope access n cs) := by
  have member : Fits scope access (.declare [src.templateMember scope access n cs]) :=
    .declares (by simp [templateMember, declare, DeclKind.isLeaf])
  unfold templateItem
  split
  · exact .declares (by simp)
  · exact .opensRecord rfl (by simp [declare, DeclKind.startAccess?]) rfl
  · exact member
  · exact member
  · exact member
  · exact src.item_fits scope access n cs

theorem action?_fits {pick : Pick} {scope : Scope} {access : Access} {n : Node} {cs : Children}
    {action : Action} (h : src.action? pick scope access n cs = some action) :
    Fits scope access action := by
  cases pick <;> simp only [action?, Option.ite_none_right_eq_some, Option.some.injEq] at h <;>
    obtain ⟨-, rfl⟩ := h
  · exact src.item_fits scope access n cs
  · exact src.templateItem_fits scope access n cs
  · exact src.item_fits scope access n cs
  · exact .splices _
  · exact src.item_fits scope access n cs
  · split
    · exact src.item_fits scope access n cs
    · exact .declares (by simp)

end SourceFile

end Parse

end ReflectGen
