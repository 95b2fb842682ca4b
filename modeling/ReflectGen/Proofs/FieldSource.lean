import ReflectGen.Proofs.Lowering

namespace ReflectGen

namespace Forest

variable {α : Type}

theorem preorder_append (s t : Forest α) : (s ++ t).preorder = s.preorder ++ t.preorder := by
  induction s with
  | nil => rfl
  | cons a kids rest _ ih => simp [preorder, ih]

theorem preorder_leaves (roots : List α) : (leaves roots).preorder = roots := by
  induction roots with
  | nil => rfl
  | cons a rest ih => simpa [leaves, ofTrees, preorder] using ih

end Forest

namespace Parse.SourceFile

/-- Where the parts of a node are found: in the body of a namespace or record, else right below
it. -/
def parts (t : Node × Children) : List (Node × Children) :=
  match t.1.kind with
  | .namespaceDefinition | .record _ => (child? .body t.2).elim [] (·.2.trees)
  | _ => t.2.trees

variable (src : SourceFile)

/-- A conditional on the generator's own define discards its alternatives, or all but those if it
asks for the define to be missing. -/
def Discards (t : Node × Children) (part : Node) : Prop :=
  t.1.kind = .conditional ∧ (child? .name t.2).elim [] (·.1.text src.text) = activeDefine ∧
    if t.2.trees.head?.any (·.1.kind == .ifndefKeyword) then part.kind ≠ .alternative
    else part.kind = .alternative

/-- The nodes of a parse tree that stand in no discarded branch. -/
inductive Kept (parsed : Children) : Node × Children → Prop
  | top {t} (h : t ∈ parsed.trees) : Kept parsed t
  | inside {t part} (ht : Kept parsed t) (hp : part ∈ parts t) (hk : ¬src.Discards t part.1) :
      Kept parsed part

/-- All siblings that a pick can turn into declarations are kept. -/
def Opens (parsed : Children) : Pick → Children → Prop
  | .branch alternatives, cs =>
    ∀ t ∈ cs.trees, (t.1.kind == .alternative) = alternatives → src.Kept parsed t
  | .body, cs => ∀ t ∈ child? .body cs, ∀ part ∈ t.2.trees, src.Kept parsed part
  | _, cs => ∀ t ∈ cs.trees, src.Kept parsed t

/-- What an action on a node reads below it is kept, and the fields it adds stem from a kept
node. -/
def Reads (parsed : Children) (t : Node × Children) : Action → Prop
  | .define ds =>
    src.Opens parsed .definedType t.2 ∧ src.Kept parsed t ∧
      ∀ d ∈ ds, d.kind = .field → src.DeclaresField t d
  | .splice pick => src.Opens parsed pick t.2
  | .enclose _ _ _ => src.Opens parsed .body t.2
  | .link _ => src.Opens parsed .linked t.2
  | _ => True

section

variable {src} {parsed : Children} {n : Node} {cs : Children}

/-- Everything right below a kept node is kept, unless the node is a record, a namespace or a
conditional. -/
theorem Kept.children (h : src.Kept parsed (n, cs)) (hp : parts (n, cs) = cs.trees)
    (hc : n.kind ≠ .conditional) : ∀ t ∈ cs.trees, src.Kept parsed t := by
  intro t ht
  exact h.inside (by rw [hp]; exact ht) fun hd => hc hd.1

theorem Kept.body (h : src.Kept parsed (n, cs))
    (hp : parts (n, cs) = (child? .body cs).elim [] (·.2.trees)) (hc : n.kind ≠ .conditional) :
    src.Opens parsed .body cs := by
  intro t ht part hpart
  refine h.inside ?_ fun hd => hc hd.1
  rw [hp, Option.mem_def.mp ht]
  exact hpart

/-- Of a conditional on the generator's own define the branch that is read is the kept one. -/
theorem Kept.branch (h : src.Kept parsed (n, cs)) (hc : n.kind = .conditional) :
    src.Opens parsed (src.conditionalPick cs) cs := by
  have hp : parts (n, cs) = cs.trees := by simp [parts, hc]
  unfold conditionalPick
  split
  · rename_i hname
    intro t ht hk
    refine h.inside (by rw [hp]; exact ht) ?_
    rintro ⟨-, -, hd⟩
    -- The pick and the discarding ask the same of the first node, with opposite answers.
    cases hb : cs.trees.head?.any (·.1.kind == .ifndefKeyword) <;> simp_all
  · rename_i hname
    intro t ht
    refine h.inside (by rw [hp]; exact ht) fun hd => hname hd.2.1

theorem item_reads (scope : Scope) (access : Access) (h : src.Kept parsed (n, cs)) :
    src.Reads parsed (n, cs) (src.item scope access n cs) := by
  unfold item
  cases hk : n.kind with
  | namespaceDefinition => exact h.body (by simp [parts, hk]) (by simp [hk])
  | record kind => exact h.body (by simp [parts, hk]) (by simp [hk])
  | fieldDeclaration =>
    exact ⟨h.children (by simp [parts, hk]) (by simp [hk]), h,
      fun d hd => (src.mem_declarators hd).2.2⟩
  | declaration =>
    exact ⟨h.children (by simp [parts, hk]) (by simp [hk]), h,
      fun d hd => (src.mem_declarators hd).2.2⟩
  | templateDeclaration => exact h.children (by simp [parts, hk]) (by simp [hk])
  | linkage => exact h.children (by simp [parts, hk]) (by simp [hk])
  | accessSpecifier =>
    simp only
    split <;> trivial
  | conditional => exact h.branch hk
  | alternative => exact h.children (by simp [parts, hk]) (by simp [hk])
  | group => exact h.children (by simp [parts, hk]) (by simp [hk])
  | _ => trivial

theorem templateItem_reads (scope : Scope) (access : Access) (h : src.Kept parsed (n, cs)) :
    src.Reads parsed (n, cs) (src.templateItem scope access n cs) := by
  have other := item_reads scope access h
  unfold templateItem
  cases hk : n.kind with
  | templateParameters => trivial
  | record kind => exact h.body (by simp [parts, hk]) (by simp [hk])
  | declaration => trivial
  | fieldDeclaration => trivial
  | functionDefinition => trivial
  | _ => exact other

theorem action?_reads {pick : Pick} {scope : Scope} {access : Access} {rest : Children}
    {action : Action} (ho : src.Opens parsed pick (.cons n cs rest))
    (h : src.action? pick scope access n cs = some action) : src.Reads parsed (n, cs) action := by
  have first : (n, cs) ∈ (Forest.cons n cs rest).trees := by simp [Forest.trees]
  cases pick <;> simp only [action?, Option.ite_none_right_eq_some, Option.some.injEq] at h
  case items =>
    obtain ⟨-, rfl⟩ := h
    exact item_reads scope access (ho _ first)
  case templated =>
    obtain ⟨-, rfl⟩ := h
    exact templateItem_reads scope access (ho _ first)
  case branch alternatives =>
    obtain ⟨hn, rfl⟩ := h
    exact item_reads scope access (ho _ first (by simpa using (Bool.and_eq_true_iff.mp hn).2))
  case body =>
    obtain ⟨hr, rfl⟩ := h
    exact ho (n, cs) (by simp [child?, Forest.trees, hr])
  case linked =>
    obtain ⟨-, rfl⟩ := h
    exact item_reads scope access (ho _ first)
  case definedType =>
    obtain ⟨-, rfl⟩ := h
    split
    · exact item_reads scope access (ho _ first)
    · trivial

theorem Opens.tail {pick : Pick} {rest : Children} (ho : src.Opens parsed pick (.cons n cs rest))
    (hn : pick = .body → n.role ≠ .body) : src.Opens parsed pick rest := by
  cases pick
  case body =>
    have hr : (n.role == .body) = false := by simpa using hn rfl
    simpa [Opens, child?, Forest.trees, List.find?_cons, hr] using ho
  case branch alternatives =>
    intro t ht hk
    exact ho t (by simp [Forest.trees, ht]) hk
  all_goals
    intro t ht
    exact ho t (by simp [Forest.trees, ht])

theorem field_of_mem_contribution {scope : Scope} {access : Access} {action : Action} {d : Decl}
    (ih : ∀ pick scope access, src.Opens parsed pick cs →
      d ∈ (src.lower pick scope access cs).1.preorder →
        ∃ t, src.Kept parsed t ∧ src.DeclaresField t d)
    (hfits : Fits scope access action) (hr : src.Reads parsed (n, cs) action)
    (hd : d ∈ (src.contribution scope access cs action).1.preorder) (hf : d.kind = .field) :
    ∃ t, src.Kept parsed t ∧ src.DeclaresField t d := by
  cases hfits with
  | declares h =>
    simp only [contribution, Forest.preorder_leaves] at hd
    exact absurd hf (h d hd).2.1
  | defines h =>
    simp only [contribution, Forest.preorder_append, Forest.preorder_leaves, List.mem_append] at hd
    rcases hd with hd | hd
    · exact ih _ _ _ hr.1 hd
    · exact ⟨(n, cs), hr.2.1, hr.2.2 d hd hf⟩
  | splices pick => exact ih pick _ _ hr hd
  | opensNamespace hkind =>
    simp only [contribution, Forest.preorder, List.append_nil, List.mem_cons] at hd
    rcases hd with rfl | hd
    · simp [hkind] at hf
    · exact ih .body _ _ hr hd
  | opensRecord hkind =>
    simp only [contribution, Forest.preorder, List.append_nil, List.mem_cons] at hd
    rcases hd with rfl | hd
    · simp [hf, DeclKind.isScope] at hkind
    · exact ih .body _ _ hr hd
  | links hkind =>
    simp only [contribution, Forest.preorder, List.append_nil, List.mem_cons] at hd
    rcases hd with rfl | hd
    · simp [hkind] at hf
    · exact ih .linked _ _ hr hd
  | labels hkind =>
    simp only [contribution, Forest.preorder_leaves, List.mem_singleton] at hd
    subst hd
    simp [hkind] at hf

end

/-- Every data member among lowered declarations stems from a kept field declaration. -/
theorem field_of_mem_lower {parsed : Children} {d : Decl} (hf : d.kind = .field) (pick : Pick)
    (scope : Scope) (access : Access) (cs : Children) (ho : src.Opens parsed pick cs)
    (hd : d ∈ (src.lower pick scope access cs).1.preorder) :
    ∃ t, src.Kept parsed t ∧ src.DeclaresField t d := by
  induction cs generalizing pick scope access with
  | nil => simp [lower, Forest.preorder] at hd
  | cons n kids rest ihk ihr =>
    cases h : src.action? pick scope access n kids with
    | none =>
      rw [src.lower_cons_none rest h] at hd
      refine ihr pick scope access (ho.tail ?_) hd
      rintro rfl hr
      simp [action?, hr] at h
    | some action =>
      rw [src.lower_cons_some rest h] at hd
      have here : d ∈ (src.contribution scope access kids action).1.preorder →
          ∃ t, src.Kept parsed t ∧ src.DeclaresField t d := fun hd =>
        field_of_mem_contribution ihk (src.action?_fits h) (action?_reads ho h) hd hf
      split at hd
      · exact here hd
      · rename_i honce
        rw [Forest.preorder_append, List.mem_append] at hd
        rcases hd with hd | hd
        · exact here hd
        · refine ihr pick scope _ (ho.tail ?_) hd
          rintro rfl
          exact absurd rfl honce

end Parse.SourceFile

end ReflectGen
