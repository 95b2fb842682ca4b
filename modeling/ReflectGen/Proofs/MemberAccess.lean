import ReflectGen.Proofs.Lowering
import ReflectGen.Proofs.Numbering

namespace ReflectGen

namespace Forest

/-- The access labels of a record's body, among its declarations and inside linkage blocks. -/
def bodyLabels : Forest Decl → List Access
  | nil => []
  | cons d kids rest =>
    (match d.kind with
      | .accessLabel => [d.access]
      | .linkageBlock => kids.bodyLabels
      | _ => []) ++ rest.bodyLabels

/-- The access in force after the given declarations of a body that starts with `start`. -/
def inForce (start : Access) (f : Forest Decl) : Access := f.bodyLabels.getLast?.getD start

theorem bodyLabels_append (f g : Forest Decl) :
    (f ++ g).bodyLabels = f.bodyLabels ++ g.bodyLabels := by
  induction f with
  | nil => rfl
  | cons d kids rest _ ih => simp [bodyLabels, ih]

theorem inForce_append (start : Access) (f g : Forest Decl) :
    (f ++ g).inForce start = g.inForce (f.inForce start) := by
  unfold inForce
  rw [bodyLabels_append, List.getLast?_append]
  cases g.bodyLabels.getLast? <;> simp

theorem bodyLabels_leaves {ds : List Decl} (h : ∀ d ∈ ds, d.kind.isLeaf) :
    (leaves ds).bodyLabels = [] := by
  induction ds with
  | nil => rfl
  | cons d ds ih =>
    have hd : d.kind.isLeaf := h d (by simp)
    have hrest : (leaves ds).bodyLabels = [] := ih fun d hd => h d (by simp [hd])
    cases hk : d.kind <;> simp [hk, DeclKind.isLeaf] at hd <;>
      simpa [leaves, ofTrees, bodyLabels, hk] using hrest

/-- The access that a declaration of some kind has to have, inside a record or not. A label has its
own. -/
def governedAccess? (inRecord : Bool) (access : Access) : DeclKind → Option Access
  | .accessLabel => none
  | .nameSpace | .linkageBlock => some .nonMember
  | _ => some (if inRecord then access else .nonMember)

/-- Each declaration has the access in force where it stands. -/
def Governed (inRecord : Bool) (access : Access) : Forest Decl → Prop
  | nil => True
  | cons d kids rest =>
    (∀ a ∈ governedAccess? inRecord access d.kind, d.access = a) ∧
      (match d.kind with
        | .nameSpace => Governed false .nonMember kids
        | .structDef | .unionDef => Governed true .publicMember kids
        | .classDef => Governed true .privateMember kids
        | .classTemplate => ∃ start, Governed true start kids
        | .linkageBlock => Governed inRecord access kids
        | _ => kids = nil) ∧
      Governed inRecord ((cons d kids nil).inForce access) rest

theorem governed_append {inRecord : Bool} {access : Access} {f g : Forest Decl}
    (hf : Governed inRecord access f) (hg : Governed inRecord (f.inForce access) g) :
    Governed inRecord access (f ++ g) := by
  induction f generalizing access with
  | nil => exact hg
  | cons d kids rest _ ih =>
    obtain ⟨hd, hkids, hrest⟩ := hf
    refine ⟨hd, hkids, ih hrest ?_⟩
    have split : (cons d kids rest).inForce access =
        rest.inForce ((cons d kids nil).inForce access) :=
      inForce_append access (cons d kids nil) rest
    rw [← split]
    exact hg

theorem governed_of_append {inRecord : Bool} {access : Access} {f g : Forest Decl}
    (h : Governed inRecord access (f ++ g)) : Governed inRecord (f.inForce access) g := by
  induction f generalizing access with
  | nil => exact h
  | cons d kids rest _ ih =>
    have split : (cons d kids rest).inForce access =
        rest.inForce ((cons d kids nil).inForce access) :=
      inForce_append access (cons d kids nil) rest
    rw [split]
    exact ih h.2.2

theorem governed_leaves {inRecord : Bool} {access : Access} {ds : List Decl}
    (h : ∀ d ∈ ds, d.kind.isLeaf ∧ d.access = if inRecord then access else .nonMember) :
    Governed inRecord access (leaves ds) := by
  induction ds with
  | nil => trivial
  | cons d ds ih =>
    obtain ⟨hleaf, ha⟩ := h d (by simp)
    have hrest := ih fun d hd => h d (by simp [hd])
    have quiet : (cons d nil nil).inForce access = access := by
      unfold inForce
      rw [show cons d nil nil = leaves [d] from rfl, bodyLabels_leaves (by simpa using hleaf)]
      rfl
    refine ⟨?_, ?_, by rw [quiet]; exact hrest⟩
    · cases hk : d.kind <;> simp [hk, DeclKind.isLeaf] at hleaf <;>
        simpa [governedAccess?, eq_comm] using ha
    · cases hk : d.kind <;> simp [hk, DeclKind.isLeaf] at hleaf <;> rfl

/-- What governs a forest governs each tree in it, under the access in force there. -/
theorem Governed.exists_around {inRecord : Bool} {access : Access} {f kids : Forest Decl} {d : Decl}
    (h : Governed inRecord access f) (tree : f.HasTree d kids) :
    ∃ inRecord access rest, Governed inRecord access (cons d kids rest) := by
  induction f generalizing inRecord access with
  | nil => exact tree.elim
  | cons e inner rest ihk ihr =>
    rcases tree with ⟨rfl, rfl⟩ | tree | tree
    · exact ⟨inRecord, access, rest, h⟩
    · obtain ⟨-, below, -⟩ := h
      cases hk : e.kind <;> simp only [hk] at below
      case nameSpace | structDef | unionDef | classDef | linkageBlock => exact ihk below tree
      case classTemplate =>
        obtain ⟨_, below⟩ := below
        exact ihk below tree
      all_goals
        subst below
        exact tree.elim
    · exact ihr h.2.2 tree

/-- A struct or class governs what stands directly inside it from its own start. -/
theorem Governed.of_hasTree {inRecord : Bool} {access start : Access} {f kids : Forest Decl}
    {d : Decl} (h : Governed inRecord access f) (ht : f.HasTree d kids)
    (hs : d.kind.startAccess? = some start) : Governed true start kids := by
  obtain ⟨_, _, _, -, below, -⟩ := h.exists_around ht
  cases hk : d.kind <;> simp [hk, DeclKind.startAccess?] at hs <;> subst hs <;>
    simpa [hk] using below

end Forest

namespace Parse.SourceFile

open Forest

variable (src : SourceFile)

/-- A type defined in place keeps its labels to itself. -/
theorem lower_definedType_access (scope : Scope) (access : Access) (cs : Children) :
    (src.lower .definedType scope access cs).2 = access := by
  induction cs with
  | nil => rfl
  | cons n kids rest _ ih =>
    cases h : src.action? .definedType scope access n kids with
    | none => rw [src.lower_cons_none rest h, ih]
    | some action =>
      rw [src.lower_cons_some rest h, if_pos (show Pick.definedType.once = true from rfl)]
      simp only [action?, Option.ite_none_right_eq_some, Option.some.injEq] at h
      obtain ⟨-, rfl⟩ := h
      split
      · rename_i hd
        cases hk : n.kind <;> simp [definesType, hk] at hd <;> simp [item, hk] <;> rfl
      · rfl

/-- Each declaration has the access in force where it stands, and the access in force is threaded
through. -/
def Threads (scope : Scope) (access : Access) (result : Forest Decl × Access) : Prop :=
  Governed scope.record.isSome access result.1 ∧ result.2 = result.1.inForce access

theorem contribution_threads {scope : Scope} {access : Access} {cs : Children} {action : Action}
    (ih : ∀ pick scope access, Threads scope access (src.lower pick scope access cs))
    (h : Fits scope access action) :
    Threads scope access (src.contribution scope access cs action) := by
  cases h with
  | declares h =>
    refine ⟨governed_leaves fun d hd => ⟨(h d hd).1, (h d hd).2.2⟩, ?_⟩
    simp [contribution, inForce, bodyLabels_leaves fun d hd => (h d hd).1]
  | @defines ds h =>
    -- The declarators come after the type defined in place, under the access from before it.
    obtain ⟨hg, ha⟩ := ih .definedType scope access
    have same := src.lower_definedType_access scope access cs
    have quiet : (leaves ds).bodyLabels = [] := bodyLabels_leaves fun d hd => (h d hd).1
    refine ⟨governed_append hg ?_, ?_⟩
    · rw [← ha, same]
      exact governed_leaves h
    · simp only [contribution]
      rw [inForce_append, ← ha, inForce, quiet]
      rfl
  | splices pick => exact ih pick scope access
  | opensNamespace hk ha =>
    refine ⟨⟨?_, ?_, trivial⟩, ?_⟩
    · simp [governedAccess?, hk, ha]
    · simpa [hk] using (ih .body ⟨_, none⟩ .nonMember).1
    · simp [contribution, inForce, bodyLabels, hk]
  | @opensRecord d qualifier name start hk hs ha =>
    have hbody := (ih .body ⟨qualifier, some name⟩ start).1
    refine ⟨⟨?_, ?_, trivial⟩, ?_⟩
    · cases hd : d.kind <;> simp [hd, DeclKind.isScope] at hk <;>
        simp [governedAccess?, ha, Scope.memberAccess]
    · cases hd : d.kind <;> simp [hd, DeclKind.isScope] at hk <;>
        simp [hd, DeclKind.startAccess?] at hs
      case classTemplate => exact ⟨start, hbody⟩
      all_goals
        subst hs
        exact hbody
    · cases hd : d.kind <;> simp [hd, DeclKind.isScope] at hk <;>
        simp [contribution, inForce, bodyLabels, hd]
  | links hk ha =>
    obtain ⟨hg, hf⟩ := ih .linked scope access
    refine ⟨⟨?_, ?_, trivial⟩, ?_⟩
    · simp [governedAccess?, hk, ha]
    · simpa [hk] using hg
    · simpa [contribution, inForce, bodyLabels, hk] using hf
  | labels hk =>
    refine ⟨⟨?_, ?_, trivial⟩, ?_⟩
    · simp [governedAccess?, hk]
    · simp [hk]
    · simp [contribution, leaves, ofTrees, inForce, bodyLabels, hk]

theorem lower_threads (pick : Pick) (scope : Scope) (access : Access) (cs : Children) :
    Threads scope access (src.lower pick scope access cs) := by
  induction cs generalizing pick scope access with
  | nil => exact ⟨trivial, rfl⟩
  | cons n kids rest ihk ihr =>
    cases h : src.action? pick scope access n kids with
    | none =>
      rw [src.lower_cons_none rest h]
      exact ihr pick scope access
    | some action =>
      rw [src.lower_cons_some rest h]
      have here := src.contribution_threads ihk (src.action?_fits h)
      split
      · exact here
      · have after := ihr pick scope (src.contribution scope access kids action).2
        rw [here.2] at after
        refine ⟨governed_append here.1 ?_, ?_⟩
        · rw [here.2]
          exact after.1
        · rw [inForce_append, here.2]
          exact after.2

end Parse.SourceFile

end ReflectGen
