import ReflectGen.Proofs.MarkerScope

namespace ReflectGen.DeclTree

/-- The declaration numbered `a` comes before the one numbered `b` in pre-order. -/
inductive Before (t : DeclTree) (a b : Nat) : Prop
  | above (ne : a ≠ b) (h : t.Encloses a b)
  | aside {p x y : Nat} (first : t.parent? x = some p) (second : t.parent? y = some p)
      (lt : x < y) (ha : t.Encloses x a) (hb : t.Encloses y b)

section Order

variable {t : DeclTree} {a b p x y : Nat}

/-- What encloses one declaration lies on one way up. -/
theorem Encloses.or (hx : t.Encloses x b) (hy : t.Encloses y b) :
    t.Encloses x y ∨ t.Encloses y x := by
  induction hx with
  | self => exact .inr hy
  | inside parent hx ih =>
    cases hy with
    | self => exact .inl (.inside parent hx)
    | inside parent' hy =>
      rw [parent, Option.some.injEq] at parent'
      subst parent'
      exact ih hy

/-- What encloses a declaration and is another one encloses its parent. -/
theorem Encloses.parent (h : t.Encloses a b) (ne : a ≠ b) (parent : t.parent? b = some p) :
    t.Encloses a p := by
  cases h with
  | self => exact absurd rfl ne
  | inside parent' h =>
    rw [parent, Option.some.injEq] at parent'
    exact parent' ▸ h

theorem not_encloses_parent (h : t.parent? x = some p) : ¬t.Encloses x p :=
  fun encloses => Nat.not_le_of_lt (parent?_lt h) encloses.le

/-- Two siblings have nothing below them in common. -/
theorem eq_of_siblings (first : t.parent? x = some p) (second : t.parent? y = some p)
    (hx : t.Encloses x b) (hy : t.Encloses y b) : x = y := by
  by_contra ne
  rcases hx.or hy with h | h
  · exact not_encloses_parent first (h.parent ne second)
  · exact not_encloses_parent second (h.parent (Ne.symm ne) first)

theorem Before.asymm (h : t.Before a b) : ¬t.Before b a := by
  intro k
  cases h with
  | above ne hab =>
    cases k with
    | above _ hba => exact ne (Nat.le_antisymm hab.le hba.le)
    | aside first second lt hb ha =>
      exact Nat.ne_of_lt lt (eq_of_siblings first second hb (ha.trans hab))
  | @aside p x y first second lt ha hb =>
    cases k with
    | above _ hba => exact Nat.ne_of_lt lt (eq_of_siblings first second ha (hb.trans hba))
    | @aside q u v third fourth lt' hu hv =>
      -- `x` and `v` enclose `a`. If they differ, one of them encloses all below the siblings of the
      -- other, and `b` with it.
      have same : x = v := by
        by_contra ne
        rcases ha.or hv with h | h
        · have around := h.parent ne fourth
          have both : t.Encloses x b := around.trans (Encloses.trans (.inside third .self) hu)
          exact Nat.ne_of_lt lt (eq_of_siblings first second both hb)
        · have around := h.parent (Ne.symm ne) first
          have both : t.Encloses v b := around.trans (Encloses.trans (.inside second .self) hb)
          exact Nat.ne_of_lt lt' (eq_of_siblings third fourth hu both)
      subst same
      rw [first, Option.some.injEq] at fourth
      subst fourth
      have twin := eq_of_siblings second third hb hu
      omega

theorem Before.ne (h : t.Before a b) : a ≠ b := by
  rintro rfl
  exact h.asymm h

end Order

section Edges

variable {t : DeclTree} {above c p : Node}

theorem parent?_of_mem_edges (h : (c, p) ∈ (t.forest above.id).edges above) :
    t.get? c.id = some c.decl ∧ t.parent? c.id = some p.id := by
  obtain ⟨j, e, entry, rfl, parent, -⟩ := entry_of_mem_edges 1 t.entries above c p h
  have number : 1 + j = j + 1 := Nat.add_comm 1 j
  simp [number, get?, parent?, entry, parent]

/-- An edge stands below one of the roots of its forest, or leads to it. -/
theorem exists_root_of_mem_edges {f : Forest Node}
    (parents : ∀ e ∈ f.edges above, t.parent? e.1.id = some e.2.id)
    (h : (c, p) ∈ f.edges above) :
    ∃ r ∈ f.roots, t.parent? r.id = some above.id ∧ t.Encloses r.id c.id := by
  induction f with
  | nil => cases h
  | cons n kids rest _ ih =>
    simp only [Forest.edges, List.mem_cons, List.mem_append, forall_eq_or_imp] at h parents
    rcases h with same | h | h
    · cases same
      exact ⟨_, List.mem_cons_self, parents.1, .self⟩
    · have inner := encloses_of_mem_edges (fun e he => parents.2 e (.inl he)) h
      exact ⟨n, List.mem_cons_self, parents.1, .inside (parents.2 _ (.inl h)) inner⟩
    · obtain ⟨r, hr, found⟩ := ih (fun e he => parents.2 e (.inr he)) h
      exact ⟨r, List.mem_cons_of_mem n hr, found⟩

theorem lt_of_mem_roots_below {next id : Nat} {es : List Entry} {r : Node}
    (h : r ∈ (below next es id).roots) : next ≤ r.id := by
  rw [roots_below, List.mem_filterMap] at h
  obtain ⟨⟨e, n⟩, mem, found⟩ := h
  have low := (List.mem_zipIdx_iff_le_and_getElem?_sub.mp mem).1
  dsimp only at found
  split at found
  · cases found
    exact low
  · cases found

theorem pairwise_before_below (next : Nat) (es : List Entry) (above : Node)
    (parents : ∀ e ∈ (below next es above.id).edges above, t.parent? e.1.id = some e.2.id) :
    ((below next es above.id).edges above).Pairwise fun x y => t.Before x.1.id y.1.id := by
  induction es generalizing next above with
  | nil => exact .nil
  | cons e es ih =>
    rw [below] at parents ⊢
    split at parents
    · rename_i here
      rw [if_pos here]
      simp only [Forest.edges, List.mem_cons, List.mem_append, forall_eq_or_imp] at parents
      obtain ⟨first, parents⟩ := parents
      have inside : ∀ x ∈ (below (next + 1) es next).edges ⟨next, e.decl⟩,
          t.parent? x.1.id = some x.2.id := fun x hx => parents x (.inl hx)
      have after : ∀ x ∈ (below (next + 1) es above.id).edges above,
          t.parent? x.1.id = some x.2.id := fun x hx => parents x (.inr hx)
      have within : ∀ x ∈ (below (next + 1) es next).edges ⟨next, e.decl⟩,
          t.Encloses next x.1.id := fun x hx =>
        .inside (inside x hx) (encloses_of_mem_edges inside hx)
      -- All that comes later stands below a sibling with a greater number.
      have aside : ∀ a, t.Encloses next a → ∀ x ∈ (below (next + 1) es above.id).edges above,
          t.Before a x.1.id := by
        intro a ha x hx
        obtain ⟨r, hr, sibling, around⟩ := exists_root_of_mem_edges after hx
        exact .aside first sibling (lt_of_mem_roots_below hr) ha around
      refine List.pairwise_cons.mpr ⟨?_, List.pairwise_append.mpr ⟨ih _ _ inside, ih _ _ after, ?_⟩⟩
      · intro x hx
        rcases List.mem_append.mp hx with hx | hx
        · refine .above ?_ (within x hx)
          have up := encloses_of_mem_edges inside hx
          exact Nat.ne_of_lt (Nat.lt_of_le_of_lt up.le (parent?_lt (inside x hx)))
        · exact aside next .self x hx
      · intro x hx y hy
        exact aside x.1.id (within x hx) y hy
    · rename_i elsewhere
      rw [if_neg elsewhere]
      exact ih _ _ parents

/-- The edges below a declaration are in pre-order. -/
theorem pairwise_before_edges (t : DeclTree) (above : Node) :
    ((t.forest above.id).edges above).Pairwise fun x y => t.Before x.1.id y.1.id :=
  pairwise_before_below 1 t.entries above fun _ he => (parent?_of_mem_edges he).2

/-- The entries from a place on give what stands below a number that is not used before. -/
theorem below_eq_forest {t : DeclTree} {before es : List Entry} (h : t.entries = before ++ es)
    {id : Nat} (later : before.length ≤ id) : below (before.length + 1) es id = t.forest id := by
  have unused : ∀ e ∈ before, e.parent ≠ id := by
    intro e he
    obtain ⟨i, entry⟩ := List.mem_iff_getElem?.mp he
    have lt := (List.getElem?_eq_some_iff.mp entry).1
    have le := t.parent_le i e (by rw [h, List.getElem?_append_left lt, entry])
    omega
  rw [forest, h, below_append_of_ne 1 before es unused, Nat.add_comm]

/-- A forest from its roots and what the tree has below each of them. -/
theorem trees_below {t : DeclTree} {before es : List Entry} (h : t.entries = before ++ es)
    (id : Nat) :
    (below (before.length + 1) es id).trees =
      (below (before.length + 1) es id).roots.map fun n => (n, t.forest n.id) := by
  induction es generalizing before with
  | nil => rfl
  | cons e es ih =>
    have split : t.entries = (before ++ [e]) ++ es := by simp [h]
    have later := ih split
    rw [List.length_append, List.length_singleton] at later
    rw [below]
    split
    · have inside := below_eq_forest split (Nat.le_of_eq List.length_append)
      rw [List.length_append, List.length_singleton] at inside
      rw [Forest.trees, Forest.roots, later, List.map_cons, inside]
    · exact later

theorem trees_forest (t : DeclTree) (id : Nat) :
    (t.forest id).trees = (t.forest id).roots.map fun n => (n, t.forest n.id) :=
  trees_below (show t.entries = [] ++ t.entries from rfl) id

end Edges

section Children

variable {t : DeclTree} {c p : Nat}

theorem mem_childIds_iff : c ∈ t.childIds p ↔ t.parent? c = some p := by
  rw [childIds, List.mem_filterMap]
  constructor
  · rintro ⟨⟨e, n⟩, mem, found⟩
    obtain ⟨low, entry⟩ := List.mem_zipIdx_iff_le_and_getElem?_sub.mp mem
    dsimp only at found
    split at found
    · rename_i here
      cases found
      obtain ⟨i, rfl⟩ := Nat.exists_eq_add_of_le' low
      rw [Nat.add_sub_cancel] at entry
      rw [parent?, entry, Option.map_some, here]
    · cases found
  · intro parent
    cases c with
    | zero => cases parent
    | succ i =>
      obtain ⟨e, entry, here⟩ := Option.map_eq_some_iff.mp parent
      refine ⟨(e, i + 1), ?_, if_pos here⟩
      rw [List.mem_zipIdx_iff_le_and_getElem?_sub]
      exact ⟨Nat.le_add_left 1 i, entry⟩

theorem ascending_childIds (t : DeclTree) (p : Nat) : (t.childIds p).Pairwise (· < ·) := by
  have numbers : (t.entries.zipIdx 1).Pairwise fun x y => x.2 < y.2 := by
    rw [← List.pairwise_map (f := Prod.snd), List.zipIdx_map_snd]
    exact List.pairwise_lt_range'
  rw [childIds, List.pairwise_filterMap]
  refine numbers.imp ?_
  intro x y less n hn k hk
  dsimp only at hn hk
  split at hn <;> split at hk <;> cases hn <;> cases hk
  exact less

theorem lt_size_of_parent? (h : t.parent? c = some p) : c < t.size := by
  cases c with
  | zero => cases h
  | succ i =>
    obtain ⟨e, entry, -⟩ := Option.map_eq_some_iff.mp h
    exact Nat.succ_lt_succ (List.getElem?_eq_some_iff.mp entry).1

theorem exists_get? (h : c < t.size) : ∃ d, t.get? c = some d := by
  cases c with
  | zero => exact ⟨_, rfl⟩
  | succ i =>
    rw [get?, List.getElem?_eq_getElem (Nat.lt_of_succ_lt_succ h)]
    exact ⟨_, rfl⟩

theorem map_id_roots (t : DeclTree) (p : Nat) : (t.forest p).roots.map Node.id = t.childIds p := by
  rw [forest, roots_below, childIds, List.map_filterMap]
  apply List.filterMap_congr
  intro x _
  dsimp only
  split <;> rfl

end Children

end ReflectGen.DeclTree
