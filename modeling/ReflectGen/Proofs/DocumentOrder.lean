import ReflectGen.Proofs.FieldSource
import ReflectGen.Proofs.Numbering

namespace ReflectGen

/-- A place on an earlier line, or on the same line and not further right. -/
def Location.upTo (a b : Location) : Prop :=
  a.line < b.line ∨ a.line = b.line ∧ a.column ≤ b.column

instance (a b : Location) : Decidable (a.upTo b) := by unfold Location.upTo; infer_instance

namespace Forest

theorem preorder_map {α β : Type} (g : α → β) (f : Forest α) :
    (f.map g).preorder = f.preorder.map g := by
  induction f with
  | nil => rfl
  | cons a kids rest ihk ihr =>
    rw [map, preorder, preorder, ihk, ihr, List.map_cons, List.map_append]

/-- A walk that goes down everywhere meets the labels in pre-order. -/
theorem visit_descend {α : Type} (above : α) (f : Forest α) (seen : List α) :
    f.visit (fun seen a _ => (seen ++ [a], .descend)) above seen = (seen ++ f.preorder, true) := by
  induction f generalizing above seen with
  | nil => rw [visit, preorder, List.append_nil]
  | cons a kids rest ihk ihr =>
    simp only [visit, ihk, ihr, preorder]
    rw [List.append_assoc, List.append_assoc, List.singleton_append]

end Forest

namespace DeclTree

/-- The declarations of a tree, as a walk that goes down everywhere meets them. -/
def traversal (t : DeclTree) : List Node :=
  ((t.forest 0).visit (fun seen n _ => (seen ++ [n], .descend)) t.unit []).1

theorem traversal_eq (t : DeclTree) : t.traversal = (t.forest 0).preorder := by
  rw [traversal, Forest.visit_descend, List.nil_append]

end DeclTree

namespace Text

/-- Rows and columns grow with the offset. -/
theorem position_mono (cs : List Char) {a b : Nat} (h : a ≤ b) :
    (position a cs).1 < (position b cs).1 ∨
      (position a cs).1 = (position b cs).1 ∧ (position a cs).2 ≤ (position b cs).2 := by
  induction cs generalizing a b with
  | nil => exact .inr ⟨rfl, Nat.le_refl _⟩
  | cons c cs ih =>
    rw [position, position]
    by_cases hb : b < c.utf8Size
    · have ha : a < c.utf8Size := Nat.lt_of_le_of_lt h hb
      rw [if_pos ha, if_pos hb]
      exact .inr ⟨rfl, h⟩
    · rw [if_neg hb]
      by_cases ha : a < c.utf8Size
      · rw [if_pos ha]
        dsimp only
        split
        · exact .inl (Nat.succ_pos _)
        · split
          · exact .inr ⟨rfl, by omega⟩
          · left
            omega
      · rw [if_neg ha]
        have later := ih (Nat.sub_le_sub_right h c.utf8Size)
        dsimp only
        split
        · omega
        · split <;> split <;> omega

end Text

namespace Parse

open Text

/-- The type of a declaration stands in front of its declarators, and the name of a scope in front
of its body. -/
def RolesInOrder (cs : Children) : Prop :=
  (∀ t ∈ child? .type cs, ∀ d ∈ inRole .declarator cs, t.1.stop ≤ d.1.start) ∧
    ∀ n ∈ child? .name cs, ∀ b ∈ child? .body cs, n.1.stop ≤ b.1.start

instance (cs : Children) : Decidable (RolesInOrder cs) := by unfold RolesInOrder; infer_instance

/-- The nodes below one that runs from `start` to `stop`: inside it, one behind the other, and with
their own parts in order. -/
def Laid (start stop : Nat) : Children → Prop
  | .nil => start ≤ stop
  | .cons n below rest =>
    start ≤ n.start ∧ RolesInOrder below ∧ Laid n.start n.stop below ∧ Laid n.stop stop rest

instance decidableLaid : (start stop : Nat) → (cs : Children) → Decidable (Laid start stop cs)
  | start, stop, .nil => inferInstanceAs (Decidable (start ≤ stop))
  | start, stop, .cons n below rest =>
    have := decidableLaid n.start n.stop below
    have := decidableLaid n.stop stop rest
    inferInstanceAs (Decidable (start ≤ n.start ∧ RolesInOrder below ∧
      Laid n.start n.stop below ∧ Laid n.stop stop rest))

namespace Laid

variable {start stop : Nat} {cs : Children}

theorem le (h : Laid start stop cs) : start ≤ stop := by
  induction cs generalizing start stop with
  | nil => exact h
  | cons n below rest ihb ihr =>
    obtain ⟨first, -, inside, after⟩ := h
    have := ihb inside
    have := ihr after
    omega

theorem of_mem (h : Laid start stop cs) {t : Node × Children} (mem : t ∈ cs.trees) :
    start ≤ t.1.start ∧ t.1.stop ≤ stop ∧ RolesInOrder t.2 ∧ Laid t.1.start t.1.stop t.2 := by
  induction cs generalizing start with
  | nil => cases mem
  | cons n below rest _ ih =>
    obtain ⟨first, roles, inside, after⟩ := h
    rcases List.mem_cons.mp mem with rfl | mem
    · exact ⟨first, after.le, roles, inside⟩
    · obtain ⟨low, rest⟩ := ih after mem
      have := inside.le
      exact ⟨by omega, rest⟩

end Laid

/-- The name of a declarator stands inside it. -/
theorem Declarator.nameAmong_within {choose : Node → Bool} {cs : Children} {name : Node}
    {start stop : Nat} (h : nameAmong choose cs = some name) (laid : Laid start stop cs) :
    start ≤ name.start ∧ name.start ≤ stop := by
  induction cs generalizing choose start stop with
  | nil => cases h
  | cons n below rest ihb ihr =>
    obtain ⟨first, -, inside, after⟩ := laid
    have := inside.le
    have := after.le
    have itself : start ≤ n.start ∧ n.start ≤ stop := by omega
    have deeper {choose : Node → Bool} (h : nameAmong choose below = some name) :
        start ≤ name.start ∧ name.start ≤ stop := by
      have := ihb h inside
      omega
    rw [nameAmong] at h
    by_cases taken : choose n = true
    · rw [if_pos taken] at h
      cases hk : n.kind <;> simp only [hk] at h
      case identifier | destructorName | operatorName =>
        cases h
        exact itself
      case qualifiedName =>
        rcases Option.or_eq_some_iff.mp h with h | ⟨-, h⟩
        · exact deeper h
        · cases h
          exact itself
      case pointerDeclarator | referenceDeclarator | arrayDeclarator | functionDeclarator |
          parenthesized | attributed | initialized =>
        exact deeper h
      all_goals cases h
    · rw [if_neg taken] at h
      have := ihr h after
      omega

theorem Declarator.name?_within {t : Node × Children} {name : Node} (h : name? t = some name)
    (laid : Laid t.1.start t.1.stop t.2) (roles : RolesInOrder t.2) :
    t.1.start ≤ name.start ∧ name.start ≤ t.1.stop :=
  nameAmong_within h ⟨Nat.le_refl _, roles, laid, Nat.le_refl _⟩

/-- A node is looked for by its role. -/
def Pick.role? : Pick → Option Role
  | .body | .linked => some .body
  | .definedType => some .type
  | _ => none

theorem mem_of_child? {role : Role} {cs : Children} {t : Node × Children}
    (h : child? role cs = some t) : t ∈ cs.trees :=
  List.mem_of_find?_eq_some h

namespace SourceFile

variable (src : SourceFile)

/-- Declarations that stand where nodes start, each no earlier than the one before and all from
`low` to `high`. -/
def Placed : Nat → List Decl → Nat → Prop
  | low, [], high => low ≤ high
  | low, d :: ds, high => ∃ n : Node, low ≤ n.start ∧ d.location = src.place n ∧
      Placed n.start ds high

variable {src} {low mid high : Nat} {ds es : List Decl}

namespace Placed

theorem le (h : src.Placed low ds high) : low ≤ high := by
  induction ds generalizing low with
  | nil => exact h
  | cons d ds ih =>
    obtain ⟨n, first, -, later⟩ := h
    exact Nat.le_trans first (ih later)

theorem of_le {lower : Nat} (h : src.Placed low ds high) (hl : lower ≤ low) :
    src.Placed lower ds high := by
  cases ds with
  | nil => exact Nat.le_trans hl h
  | cons d ds =>
    obtain ⟨n, first, here, later⟩ := h
    exact ⟨n, Nat.le_trans hl first, here, later⟩

theorem append (hd : src.Placed low ds mid) (he : src.Placed mid es high) :
    src.Placed low (ds ++ es) high := by
  induction ds generalizing low with
  | nil => exact he.of_le hd
  | cons d ds ih =>
    obtain ⟨n, first, here, later⟩ := hd
    exact ⟨n, first, here, ih later⟩

theorem up_to {higher : Nat} (h : src.Placed low ds high) (hh : high ≤ higher) :
    src.Placed low ds higher := by
  have none : src.Placed high [] higher := hh
  have same := h.append none
  rw [List.append_nil] at same
  exact same

theorem single {d : Decl} {n : Node} (here : d.location = src.place n) (first : low ≤ n.start)
    (last : n.start ≤ high) : src.Placed low [d] high :=
  ⟨n, first, here, last⟩

theorem exists_of_mem (h : src.Placed low ds high) {d : Decl} (mem : d ∈ ds) :
    ∃ n : Node, low ≤ n.start ∧ d.location = src.place n := by
  induction ds generalizing low with
  | nil => cases mem
  | cons e ds ih =>
    obtain ⟨n, first, here, later⟩ := h
    rcases List.mem_cons.mp mem with rfl | mem
    · exact ⟨n, first, here⟩
    · obtain ⟨m, after, there⟩ := ih later mem
      exact ⟨m, Nat.le_trans first after, there⟩

theorem pairwise (h : src.Placed low ds high) :
    ds.Pairwise fun a b => a.location.upTo b.location := by
  induction ds generalizing low with
  | nil => exact .nil
  | cons d ds ih =>
    obtain ⟨n, -, here, later⟩ := h
    refine .cons (fun e mem => ?_) (ih later)
    obtain ⟨m, after, there⟩ := later.exists_of_mem mem
    have grows := position_mono src.text after
    rw [here, there]
    simp only [Location.upTo, place]
    omega

end Placed

/-- What declarators name stands in the order of the declarators. -/
theorem placed_filterMap {f : Node × Children → Option Decl} {role : Role} {cs : Children}
    {start stop : Nat} (laid : Laid start stop cs)
    (named : ∀ t ∈ cs.trees, ∀ d ∈ f t, ∃ name, d.location = src.place name ∧
      t.1.start ≤ name.start ∧ name.start ≤ t.1.stop)
    (first : ∀ t ∈ inRole role cs, low ≤ t.1.start) (hl : low ≤ stop) :
    src.Placed low ((inRole role cs).filterMap f) stop := by
  induction cs generalizing start low with
  | nil => exact hl
  | cons n below rest _ ih =>
    obtain ⟨-, -, inside, after⟩ := laid
    have later := fun t mem => named t (List.mem_cons_of_mem (n, below) mem)
    unfold inRole at first ⊢
    rw [Forest.trees, List.filter_cons] at first ⊢
    by_cases plays : (n.role == role) = true
    · rw [if_pos plays] at first ⊢
      rw [List.filterMap_cons]
      cases found : f (n, below) with
      | none =>
        exact ih after later (fun t mem => first t (List.mem_cons_of_mem _ mem)) hl
      | some d =>
        obtain ⟨name, here, low', high'⟩ := named (n, below) List.mem_cons_self d found
        have start' : low ≤ n.start := first (n, below) List.mem_cons_self
        have end' := after.le
        refine ⟨name, Nat.le_trans start' low', here, ?_⟩
        apply ih after later
        · intro t mem
          have := (after.of_mem (List.mem_of_mem_filter mem)).1
          exact Nat.le_trans high' this
        · exact Nat.le_trans high' end'
    · rw [if_neg plays] at first ⊢
      exact ih after later first hl

variable (src)

theorem isSome_action?_of_role {pick : Pick} {role : Role} (h : pick.role? = some role)
    (scope : Scope) (access : Access) (n : Node) (below : Children) :
    (src.action? pick scope access n below).isSome ↔ n.role = role := by
  cases pick <;> cases h <;> simp [action?]

/-- A pick by role takes the first node in the role and nothing else. -/
theorem lower_of_role {pick : Pick} {role : Role} (h : pick.role? = some role) (scope : Scope)
    (access : Access) (cs : Children) :
    child? role cs = none ∧ src.lower pick scope access cs = (.nil, access) ∨
      ∃ t action, child? role cs = some t ∧
        src.action? pick scope access t.1 t.2 = some action ∧
        src.lower pick scope access cs = src.contribution scope access t.2 action := by
  have once : pick.once = true := by cases pick <;> cases h <;> rfl
  induction cs with
  | nil => exact .inl ⟨rfl, rfl⟩
  | cons n below rest _ ih =>
    have taken := src.isSome_action?_of_role h scope access n below
    unfold child? at ih ⊢
    rw [Forest.trees, List.find?_cons]
    cases act : src.action? pick scope access n below with
    | none =>
      rw [act] at taken
      have other : (n.role == role) = false := by simpa using taken
      rw [src.lower_cons_none rest act, other]
      exact ih
    | some action =>
      rw [act] at taken
      have plays : (n.role == role) = true := by simpa using taken
      rw [src.lower_cons_some rest act, if_pos once, plays]
      exact .inr ⟨(n, below), action, rfl, act, rfl⟩

/-- Where the declarations of an action on a node stand: inside the node, a scope in front of its
body, and declarators behind the type. -/
def StandsIn (n : Node) (below : Children) : Action → Prop
  | .declare ds => src.Placed n.start ds n.stop
  | .define ds => src.Placed ((child? .type below).elim n.start (·.1.stop)) ds n.stop
  | .splice pick => pick.once = false
  | .enclose d _ _ => ∃ m : Node, d.location = src.place m ∧ n.start ≤ m.start ∧
      m.start ≤ n.stop ∧ ∀ b ∈ child? .body below, m.start ≤ b.1.start
  | .link d | .label d _ => d.location = src.place n

section Actions

variable {n : Node} {below : Children} (laid : Laid n.start n.stop below)
  (roles : RolesInOrder below) (scope : Scope) (access : Access)

include laid

/-- A named declaration stands at its name, or at the node if it has none. -/
theorem nameOr_within :
    n.start ≤ (((child? .name below).map (·.1)).getD n).start ∧
      (((child? .name below).map (·.1)).getD n).start ≤ n.stop := by
  have whole := laid.le
  cases found : child? .name below with
  | none => exact ⟨Nat.le_refl _, whole⟩
  | some name =>
    obtain ⟨first, last, -, inside⟩ := laid.of_mem (mem_of_child? found)
    exact ⟨first, Nat.le_trans inside.le last⟩

theorem declaratorName_within {role : Role} {name : Node}
    (h : (child? role below).bind Declarator.name? = some name) :
    n.start ≤ name.start ∧ name.start ≤ n.stop := by
  obtain ⟨t, found, named⟩ := Option.bind_eq_some_iff.mp h
  obtain ⟨first, last, roles, inside⟩ := laid.of_mem (mem_of_child? found)
  have := Declarator.name?_within named inside roles
  omega

include roles

theorem nameOr_before_body : ∀ b ∈ child? .body below,
    (((child? .name below).map (·.1)).getD n).start ≤ b.1.start := by
  intro b hb
  cases found : child? .name below with
  | none => exact (laid.of_mem (mem_of_child? hb)).1
  | some name =>
    have inside := (laid.of_mem (mem_of_child? found)).2.2.2
    exact Nat.le_trans inside.le (roles.2 name found b hb)

theorem placed_declarators :
    src.Placed ((child? .type below).elim n.start (·.1.stop))
      (src.declarators scope access n below) n.stop := by
  apply placed_filterMap laid
  · intro t mem d named
    obtain ⟨name, found, rfl⟩ := Option.map_eq_some_iff.mp named
    obtain ⟨-, -, roles, inside⟩ := laid.of_mem mem
    exact ⟨name, rfl, Declarator.name?_within found inside roles⟩
  · intro t mem
    cases found : child? .type below with
    | none => exact (laid.of_mem (List.mem_of_mem_filter mem)).1
    | some type => exact roles.1 type found t mem
  · cases found : child? .type below with
    | none => exact laid.le
    | some type => exact (laid.of_mem (mem_of_child? found)).2.1

theorem item_standsIn : src.StandsIn n below (src.item scope access n below) := by
  have whole : src.Placed n.start [] n.stop := laid.le
  have own (d : Decl) (here : d.location = src.place n) : src.Placed n.start [d] n.stop :=
    .single here (Nat.le_refl _) laid.le
  have named := nameOr_within laid
  have ahead := nameOr_before_body laid roles
  unfold item
  cases n.kind with
  | namespaceDefinition => exact ⟨_, rfl, named.1, named.2, ahead⟩
  | record kind => exact ⟨_, rfl, named.1, named.2, ahead⟩
  | enumSpecifier => exact .single rfl named.1 named.2
  | fieldDeclaration => exact src.placed_declarators laid roles scope access
  | declaration => exact src.placed_declarators laid roles scope access
  | functionDefinition =>
    simp only [StandsIn, functionDefinition]
    cases found : (child? .declarator below).bind Declarator.name? with
    | none => exact whole
    | some name =>
      have within := declaratorName_within laid found
      exact .single rfl within.1 within.2
  | templateDeclaration => rfl
  | linkage => rfl
  | accessSpecifier =>
    simp only
    split
    · rfl
    · exact whole
  | conditional =>
    simp only [StandsIn, conditionalPick]
    split <;> rfl
  | alternative => rfl
  | group => rfl
  | remark => exact own _ rfl
  | _ => exact whole

theorem templateItem_standsIn :
    src.StandsIn n below (src.templateItem scope access n below) := by
  have whole : src.Placed n.start [] n.stop := laid.le
  have member : src.StandsIn n below (.declare [src.templateMember scope access n below]) := by
    simp only [StandsIn, templateMember]
    cases found : (child? .declarator below).bind Declarator.name? with
    | none => exact .single rfl (Nat.le_refl _) laid.le
    | some name =>
      have within := declaratorName_within laid found
      exact .single rfl within.1 within.2
  have named := nameOr_within laid
  unfold templateItem
  split
  · exact whole
  · exact ⟨_, rfl, named.1, named.2, nameOr_before_body laid roles⟩
  · exact member
  · exact member
  · exact member
  · exact src.item_standsIn laid roles scope access

theorem action?_standsIn {pick : Pick} {scope : Scope} {access : Access} {action : Action}
    (h : src.action? pick scope access n below = some action) :
    src.StandsIn n below action := by
  have whole : src.Placed n.start [] n.stop := laid.le
  have here := src.item_standsIn laid roles scope access
  cases pick <;> simp only [action?, Option.ite_none_right_eq_some, Option.some.injEq] at h <;>
    obtain ⟨-, rfl⟩ := h
  · exact here
  · exact src.templateItem_standsIn laid roles scope access
  · exact here
  · rfl
  · exact here
  · split
    · exact here
    · exact whole

end Actions

/-- Whatever a node contributes stands inside it and in order. -/
def Ordered (t : Node × Children) : Prop :=
  ∀ pick scope access action, src.action? pick scope access t.1 t.2 = some action →
    src.Placed t.1.start (src.contribution scope access t.2 action).1.preorder t.1.stop

variable {src}

theorem lower_placed {cs : Children} (parts : ∀ t ∈ cs.trees, src.Ordered t) {start stop : Nat}
    (laid : Laid start stop cs) (pick : Pick) (many : pick.once = false) (scope : Scope)
    (access : Access) : src.Placed start (src.lower pick scope access cs).1.preorder stop := by
  induction cs generalizing start access with
  | nil => exact laid
  | cons n below rest _ ih =>
    obtain ⟨first, -, inside, after⟩ := laid
    have later := ih (fun t mem => parts t (List.mem_cons_of_mem _ mem)) after
    cases act : src.action? pick scope access n below with
    | none =>
      rw [src.lower_cons_none rest act]
      exact (later access).of_le (Nat.le_trans first inside.le)
    | some action =>
      have here := parts (n, below) List.mem_cons_self pick scope access action act
      rw [src.lower_cons_some rest act, many, if_neg Bool.false_ne_true, Forest.preorder_append]
      exact (here.of_le first).append (later _)

theorem lower_role_placed {cs : Children} (parts : ∀ t ∈ cs.trees, src.Ordered t) (pick : Pick)
    {role : Role} (h : pick.role? = some role) (scope : Scope) (access : Access) :
    (child? role cs).elim ((src.lower pick scope access cs).1.preorder = [])
      fun t => src.Placed t.1.start (src.lower pick scope access cs).1.preorder t.1.stop := by
  rcases src.lower_of_role h scope access cs with ⟨none, lowered⟩ | ⟨t, action, found, act, lowered⟩
  · rw [none, lowered]
    rfl
  · rw [found, lowered]
    exact parts t (mem_of_child? found) pick scope access action act

/-- What is taken from the node in a role stands behind all that stands in front of the node. -/
theorem lower_role_placed_from {cs : Children} (parts : ∀ t ∈ cs.trees, src.Ordered t) (pick : Pick)
    {role : Role} (h : pick.role? = some role) (scope : Scope) (access : Access) {start stop : Nat}
    (laid : Laid start stop cs) (hl : low ≤ stop) (ahead : ∀ t ∈ child? role cs, low ≤ t.1.start) :
    src.Placed low (src.lower pick scope access cs).1.preorder stop := by
  have placed := lower_role_placed parts pick h scope access
  cases found : child? role cs with
  | none =>
    rw [found, Option.elim_none] at placed
    rw [placed]
    exact hl
  | some t =>
    rw [found] at placed
    exact (placed.of_le (ahead t found)).up_to (laid.of_mem (mem_of_child? found)).2.1

theorem contribution_placed {n : Node} {below : Children} (laid : Laid n.start n.stop below)
    (parts : ∀ t ∈ below.trees, src.Ordered t) {scope : Scope} {access : Access} {action : Action}
    (h : src.StandsIn n below action) :
    src.Placed n.start (src.contribution scope access below action).1.preorder n.stop := by
  cases action with
  | declare ds =>
    rw [contribution, Forest.preorder_leaves]
    exact h
  | define ds =>
    have type := lower_role_placed parts .definedType rfl scope access
    rw [contribution, Forest.preorder_append, Forest.preorder_leaves]
    rw [StandsIn] at h
    cases found : child? .type below with
    | none =>
      rw [found] at type h
      rw [Option.elim_none] at type
      rw [type]
      exact h
    | some t =>
      rw [found] at type h
      exact (type.append h).of_le (laid.of_mem (mem_of_child? found)).1
  | splice pick => exact lower_placed parts laid pick h scope access
  | enclose d inner start =>
    obtain ⟨m, here, first, last, ahead⟩ := h
    have body := lower_role_placed_from parts .body rfl inner start laid last ahead
    rw [contribution, Forest.preorder, Forest.preorder, List.append_nil]
    exact ⟨m, first, here, body⟩
  | link d =>
    have inside : ∀ b ∈ child? .body below, n.start ≤ b.1.start := by
      intro b found
      exact (laid.of_mem (mem_of_child? found)).1
    have body := lower_role_placed_from parts .linked rfl scope access laid laid.le inside
    rw [contribution, Forest.preorder, Forest.preorder, List.append_nil]
    exact ⟨n, Nat.le_refl _, h, body⟩
  | label d access =>
    rw [contribution, Forest.preorder_leaves]
    exact .single h (Nat.le_refl _) laid.le

theorem ordered_of_laid {cs : Children} {start stop : Nat} (laid : Laid start stop cs) :
    ∀ t ∈ cs.trees, src.Ordered t := by
  induction cs generalizing start stop with
  | nil =>
    intro t mem
    cases mem
  | cons n below rest ihb ihr =>
    obtain ⟨-, roles, inside, after⟩ := laid
    intro t mem
    rcases List.mem_cons.mp mem with rfl | mem
    · intro pick scope access action act
      exact contribution_placed inside (ihb inside) (src.action?_standsIn inside roles act)
    · exact ihr after t mem

/-- A walk through a lowered file meets its declarations in the order of their numbers, and, where
the parse tree is laid out in the order of the text, in the order of their places. -/
theorem document_order_kept (src : SourceFile) (parsed : Children) :
    (src.declTree parsed).traversal.map DeclTree.Node.id =
        List.range' 1 ((src.declTree parsed).size - 1) ∧
      ∀ start stop, Laid start stop parsed →
        (src.declTree parsed).traversal.Pairwise fun a b =>
          a.decl.location.upTo b.decl.location := by
  have numbers : (src.declTree parsed).traversal =
      (DeclTree.numbered 1 (src.lower .items {} .nonMember parsed).1).preorder := by
    rw [DeclTree.traversal_eq, declTree, DeclTree.forest_ofForest]
  have size : (src.declTree parsed).size - 1 =
      (src.lower .items {} .nonMember parsed).1.size := by
    rw [DeclTree.size, Nat.add_sub_cancel, declTree, DeclTree.ofForest, DeclTree.length_number]
  rw [numbers, size]
  refine ⟨DeclTree.map_id_preorder_numbered 1 _, fun start stop laid => ?_⟩
  have parts : ∀ t ∈ parsed.trees, src.Ordered t := ordered_of_laid laid
  have placed := lower_placed parts laid .items rfl {} .nonMember
  have decls := congrArg Forest.preorder
    (DeclTree.map_numbered 1 (src.lower .items {} .nonMember parsed).1)
  rw [Forest.preorder_map] at decls
  rw [← decls] at placed
  have sorted := placed.pairwise
  rw [List.pairwise_map] at sorted
  exact sorted

/-- A type defined in place over two declarators, the first of them a pointer, on a line of its
own. -/
def inPlace : SourceFile :=
  ⟨⟨"a/p.h"⟩, "struct A \x7b\n  struct \x7b int x; \x7d *p, q;\n\x7d;".toList⟩

/-- The parse tree of the source, less its punctuation. -/
def inPlaceTree : Children :=
  .ofTrees [
    (⟨.record .struct, true, .plain, 0, 39⟩, .ofTrees [
      (⟨.identifier, true, .name, 7, 8⟩, .nil),
      (⟨.other, true, .body, 9, 39⟩, .ofTrees [
        (⟨.fieldDeclaration, true, .plain, 13, 37⟩, .ofTrees [
          (⟨.record .struct, true, .type, 13, 30⟩, .ofTrees [
            (⟨.other, true, .body, 20, 30⟩, .ofTrees [
              (⟨.fieldDeclaration, true, .plain, 22, 28⟩, .leaves [
                ⟨.other, true, .type, 22, 25⟩,
                ⟨.identifier, true, .declarator, 26, 27⟩])])]),
          (⟨.pointerDeclarator, true, .declarator, 31, 33⟩, .leaves [
            ⟨.identifier, true, .declarator, 32, 33⟩]),
          (⟨.identifier, true, .declarator, 35, 36⟩, .nil)])])])]

theorem inPlace_in_order :
    (inPlace.declTree inPlaceTree).traversal.map
        (fun n => (n.id, n.decl.location.line, n.decl.location.column)) =
      [(1, 1, 8), (2, 2, 3), (3, 2, 16), (4, 2, 22), (5, 2, 25)] ∧
    Laid 0 40 inPlaceTree ∧
    (inPlace.declTree inPlaceTree).traversal.Pairwise fun a b =>
      a.decl.location.upTo b.decl.location := by
  have laid : Laid 0 40 inPlaceTree := by decide +kernel
  exact ⟨by decide +kernel, laid, (document_order_kept inPlace inPlaceTree).2 0 40 laid⟩

end SourceFile

end Parse

end ReflectGen
