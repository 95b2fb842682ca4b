import ReflectGen.DeclTree

namespace ReflectGen

namespace Forest

variable {α β σ : Type}

def map (g : α → β) : Forest α → Forest β
  | nil => nil
  | cons a kids rest => cons (g a) (kids.map g) (rest.map g)

def roots : Forest α → List α
  | nil => []
  | cons a _ rest => a :: rest.roots

/-- Every label with the one above it, in pre-order. -/
def edges (above : α) : Forest α → List (α × α)
  | nil => []
  | cons a kids rest => (a, above) :: (kids.edges a ++ rest.edges above)

/-- The calls that a walk makes of its visitor, first to last. -/
def visited (f : σ → α → α → σ × Visit) (above : α) : Forest α → σ → List (α × α)
  | nil, _ => []
  | cons a kids rest, s =>
    (a, above) ::
      match f s a above with
      | (_, .stop) => []
      | (s, .skip) => rest.visited f above s
      | (s, .descend) =>
        kids.visited f a s ++
          match kids.visit f a s with
          | (_, false) => []
          | (s, true) => rest.visited f above s

/-- What a walk computes is what its calls compute one after another. -/
theorem visit_eq_foldl (f : σ → α → α → σ × Visit) (above : α) (t : Forest α) (s : σ) :
    (t.visit f above s).1 = (t.visited f above s).foldl (fun s e => (f s e.1 e.2).1) s := by
  induction t generalizing above s with
  | nil => rfl
  | cons a kids rest ihk ihr =>
    simp only [visit, visited, List.foldl_cons]
    rcases h : f s a above with ⟨s', v⟩
    cases v with
    | stop => rfl
    | skip => exact ihr above s'
    | descend =>
      have hk := ihk a s'
      rcases hv : kids.visit f a s' with ⟨s'', b⟩
      rw [hv] at hk
      simp only [hv, List.foldl_append, ← hk]
      cases b with
      | false => rfl
      | true => exact ihr above s''

theorem visited_subset_edges (f : σ → α → α → σ × Visit) (above : α) (t : Forest α) (s : σ) :
    t.visited f above s ⊆ t.edges above := by
  induction t generalizing above s with
  | nil => exact List.nil_subset _
  | cons a kids rest ihk ihr =>
    simp only [visited, edges]
    apply List.cons_subset_cons
    rcases h : f s a above with ⟨s', v⟩
    cases v with
    | stop => exact List.nil_subset _
    | skip => exact List.subset_append_of_subset_right _ (ihr above s')
    | descend =>
      apply List.append_subset.mpr
      refine ⟨List.subset_append_of_subset_left _ (ihk a s'), ?_⟩
      rcases kids.visit f a s' with ⟨s'', b⟩
      cases b with
      | false => exact List.nil_subset _
      | true => exact List.subset_append_of_subset_right _ (ihr above s'')

end Forest

namespace DeclTree

/-- Numbers grow on the way down. -/
def Ascends (above : Nat) : Forest Node → Prop
  | .nil => True
  | .cons n kids rest => above < n.id ∧ Ascends n.id kids ∧ Ascends above rest

theorem ascends_below (next above : Nat) (es : List Entry) (h : above < next) :
    Ascends above (below next es above) := by
  induction es generalizing next above with
  | nil => trivial
  | cons e es ih =>
    simp only [below]
    split
    · exact ⟨h, ih (next + 1) next (Nat.lt_succ_self next), ih (next + 1) above (by omega)⟩
    · exact ih (next + 1) above (by omega)

theorem ascends_forest (t : DeclTree) : Ascends 0 (t.forest 0) :=
  ascends_below 1 0 t.entries Nat.zero_lt_one

/-- An edge below a node comes from an entry that names the upper end as its parent. -/
theorem entry_of_mem_edges (next : Nat) (es : List Entry) (above : Node) (c p : Node)
    (h : (c, p) ∈ (below next es above.id).edges above) :
    ∃ j e, es[j]? = some e ∧ c = ⟨next + j, e.decl⟩ ∧ e.parent = p.id ∧
      (p = above ∨ ∃ k d, es[k]? = some d ∧ p = ⟨next + k, d.decl⟩) := by
  induction es generalizing next above with
  | nil => simp [below, Forest.edges] at h
  | cons e es ih =>
    -- An edge among the later entries keeps its entry, one place further on.
    have later : ∀ a : Node, (a = above ∨ a = ⟨next, e.decl⟩) →
        (c, p) ∈ (below (next + 1) es a.id).edges a →
        ∃ j d, (e :: es)[j]? = some d ∧ c = ⟨next + j, d.decl⟩ ∧ d.parent = p.id ∧
          (p = above ∨ ∃ k d, (e :: es)[k]? = some d ∧ p = ⟨next + k, d.decl⟩) := by
      intro a ha hm
      obtain ⟨j, d, hd, hc, hp, hup⟩ := ih (next + 1) a hm
      refine ⟨j + 1, d, hd, by rw [hc]; congr 1; omega, hp, ?_⟩
      rcases hup with rfl | ⟨k, d', hk, hpk⟩
      · rcases ha with rfl | rfl
        · exact .inl rfl
        · exact .inr ⟨0, e, rfl, rfl⟩
      · exact .inr ⟨k + 1, d', hk, by rw [hpk]; congr 1; omega⟩
    simp only [below] at h
    split at h
    · rename_i he
      simp only [Forest.edges, List.mem_cons, List.mem_append, Prod.mk.injEq] at h
      rcases h with ⟨rfl, rfl⟩ | hk | hr
      · exact ⟨0, e, rfl, rfl, he, .inl rfl⟩
      · exact later ⟨next, e.decl⟩ (.inr rfl) hk
      · exact later above (.inl rfl) hr
    · exact later above (.inl rfl) h

/-- Both ends of an edge are declarations of the tree, the upper one the parent of the lower. -/
theorem edge_spec {t : DeclTree} {c p : Node} (h : (c, p) ∈ (t.forest 0).edges t.unit) :
    t.get? c.id = some c.decl ∧ t.get? p.id = some p.decl ∧ t.parent? c.id = some p.id := by
  obtain ⟨j, e, he, rfl, hp, hup⟩ := entry_of_mem_edges 1 t.entries t.unit c p h
  have number : ∀ k, 1 + k = k + 1 := fun k => Nat.add_comm 1 k
  refine ⟨by simp [number, get?, he], ?_, by simp [number, parent?, he, hp]⟩
  rcases hup with rfl | ⟨k, d, hk, rfl⟩
  · rfl
  · simp [number, get?, hk]

end DeclTree

end ReflectGen
