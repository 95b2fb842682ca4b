import Mathlib.Data.List.Basic
import ReflectGen.Proofs.Traversal

namespace ReflectGen

namespace Forest

variable {α β : Type}

/-- A label stands somewhere in a forest with exactly `below` below it. -/
def HasTree : Forest α → α → Forest α → Prop
  | nil, _, _ => False
  | cons b kids rest, a, below =>
    b = a ∧ kids = below ∨ kids.HasTree a below ∨ rest.HasTree a below

theorem map_append (g : α → β) (s t : Forest α) : (s ++ t).map g = s.map g ++ t.map g := by
  induction s with
  | nil => rfl
  | cons a kids rest _ ih => simp [map, ih]

theorem HasTree.map (g : α → β) {a : α} {below t : Forest α} (h : t.HasTree a below) :
    (t.map g).HasTree (g a) (below.map g) := by
  induction t with
  | nil => exact h
  | cons b kids rest ihk ihr =>
    rcases h with ⟨rfl, rfl⟩ | h | h
    · exact .inl ⟨rfl, rfl⟩
    · exact .inr (.inl (ihk h))
    · exact .inr (.inr (ihr h))

theorem mem_preorder_map (g : α → β) {a : α} {t : Forest α} (h : a ∈ t.preorder) :
    g a ∈ (t.map g).preorder := by
  induction t with
  | nil => simp [preorder] at h
  | cons b kids rest ihk ihr =>
    simp only [preorder, map, List.mem_cons, List.mem_append] at h ⊢
    rcases h with rfl | h | h
    · exact .inl rfl
    · exact .inr (.inl (ihk h))
    · exact .inr (.inr (ihr h))

theorem mem_preorder_of_mem_edges {above a p : α} {t : Forest α} (h : (a, p) ∈ t.edges above) :
    a ∈ t.preorder := by
  induction t generalizing above with
  | nil => simp [edges] at h
  | cons b kids rest ihk ihr =>
    simp only [edges, preorder, List.mem_cons, List.mem_append, Prod.mk.injEq] at h ⊢
    rcases h with ⟨rfl, -⟩ | h | h
    · exact .inl rfl
    · exact .inr (.inl (ihk h))
    · exact .inr (.inr (ihr h))

/-- The lower end of an edge is one of the trees directly below the upper end. -/
theorem split_of_mem_edges {above a p : α} {t : Forest α} (h : (a, p) ∈ t.edges above) :
    ∃ before kids after, (p = above ∧ t = before ++ cons a kids after) ∨
      t.HasTree p (before ++ cons a kids after) := by
  induction t generalizing above with
  | nil => simp [edges] at h
  | cons b kids rest ihk ihr =>
    simp only [edges, List.mem_cons, List.mem_append, Prod.mk.injEq] at h
    rcases h with ⟨rfl, rfl⟩ | h | h
    · exact ⟨nil, kids, rest, .inl ⟨rfl, rfl⟩⟩
    · obtain ⟨before, inner, after, ⟨rfl, rfl⟩ | hin⟩ := ihk h
      · exact ⟨before, inner, after, .inr (.inl ⟨rfl, rfl⟩)⟩
      · exact ⟨before, inner, after, .inr (.inr (.inl hin))⟩
    · obtain ⟨before, inner, after, ⟨rfl, rfl⟩ | hin⟩ := ihr h
      · exact ⟨cons b kids before, inner, after, .inl ⟨rfl, rfl⟩⟩
      · exact ⟨before, inner, after, .inr (.inr (.inr hin))⟩

theorem roots_map (g : α → β) (t : Forest α) : (t.map g).roots = t.roots.map g := by
  induction t with
  | nil => rfl
  | cons a kids rest _ ih => rw [map, roots, roots, List.map_cons, ih]

/-- A place among the roots of a forest is a place among its trees. -/
theorem exists_append_of_roots {t : Forest α} {before after : List α} {a : α}
    (h : t.roots = before ++ a :: after) :
    ∃ s kids u, t = s ++ cons a kids u ∧ s.roots = before := by
  induction before generalizing t with
  | nil =>
    cases t with
    | nil => cases h
    | cons b kids rest =>
      obtain ⟨rfl, -⟩ := List.cons.inj h
      exact ⟨nil, kids, rest, rfl, rfl⟩
  | cons b before ih =>
    cases t with
    | nil => cases h
    | cons c kids rest =>
      obtain ⟨rfl, later⟩ := List.cons.inj h
      obtain ⟨s, inner, u, rfl, hs⟩ := ih later
      exact ⟨cons c kids s, inner, u, rfl, by rw [roots, hs]⟩

theorem exists_hasTree_of_mem_preorder {a : α} {t : Forest α} (h : a ∈ t.preorder) :
    ∃ below, t.HasTree a below := by
  induction t with
  | nil => cases h
  | cons b kids rest ihk ihr =>
    simp only [preorder, List.mem_cons, List.mem_append] at h
    rcases h with rfl | h | h
    · exact ⟨kids, .inl ⟨rfl, rfl⟩⟩
    · obtain ⟨below, tree⟩ := ihk h
      exact ⟨below, .inr (.inl tree)⟩
    · obtain ⟨below, tree⟩ := ihr h
      exact ⟨below, .inr (.inr tree)⟩

end Forest

namespace DeclTree

theorem below_append_of_ne {above : Nat} (next : Nat) (es tail : List Entry)
    (h : ∀ e ∈ es, e.parent ≠ above) :
    below next (es ++ tail) above = below (next + es.length) tail above := by
  induction es generalizing next with
  | nil => rfl
  | cons e es ih =>
    have he : e.parent ≠ above := h e (by simp)
    rw [List.cons_append, below, if_neg he, ih (next + 1) (fun e he => h e (by simp [he]))]
    congr 1
    simp only [List.length_cons]
    omega

theorem entry_of_hasTree {next above : Nat} {es : List Entry} {n : Node} {kids : Forest Node}
    (h : (below next es above).HasTree n kids) :
    ∃ before e after, es = before ++ e :: after ∧ n = ⟨next + before.length, e.decl⟩ ∧
      kids = below (n.id + 1) after n.id := by
  induction es generalizing next above with
  | nil => exact h.elim
  | cons e es ih =>
    have later : ∀ {above}, (below (next + 1) es above).HasTree n kids →
        ∃ before d after, e :: es = before ++ d :: after ∧ n = ⟨next + before.length, d.decl⟩ ∧
          kids = below (n.id + 1) after n.id := by
      intro above h
      obtain ⟨before, d, after, hes, hn, hk⟩ := ih h
      refine ⟨e :: before, d, after, by rw [hes]; rfl, ?_, hk⟩
      rw [hn]
      congr 1
      simp only [List.length_cons]
      omega
    rw [below] at h
    split at h
    · rcases h with ⟨rfl, rfl⟩ | h | h
      · exact ⟨[], e, es, rfl, rfl, rfl⟩
      · exact later h
      · exact later h
    · exact later h

/-- What stands below a node in the whole forest is what the tree gives for its number. -/
theorem forest_of_hasTree {t : DeclTree} {n : Node} {kids : Forest Node}
    (h : (t.forest 0).HasTree n kids) : t.forest n.id = kids := by
  obtain ⟨before, e, after, hes, hn, hk⟩ := entry_of_hasTree h
  have hid : n.id = 1 + before.length := by rw [hn]
  have earlier : ∀ d ∈ before ++ [e], d.parent ≠ n.id := by
    intro d hd
    obtain ⟨i, hi⟩ := List.mem_iff_getElem?.mp hd
    have hlt : i < before.length + 1 := by
      have := (List.getElem?_eq_some_iff.mp hi).1
      simpa using this
    have hle : d.parent ≤ i := by
      apply t.parent_le i d
      rw [hes, ← List.singleton_append, ← List.append_assoc,
        List.getElem?_append_left (by simpa using hlt)]
      exact hi
    omega
  have split : t.entries = before ++ [e] ++ after := by simp [hes]
  rw [forest, split, below_append_of_ne 1 _ _ earlier, hk]
  congr 1
  simp only [List.length_append, List.length_singleton]
  omega

theorem parent_of_mem_number {next above : Nat} {f : Forest Decl} {e : Entry}
    (h : e ∈ number next above f) : e.parent = above ∨ next ≤ e.parent := by
  induction f generalizing next above with
  | nil => simp [number] at h
  | cons d kids rest ihk ihr =>
    simp only [number, List.mem_cons, List.mem_append] at h
    rcases h with rfl | h | h
    · exact .inl rfl
    · rcases ihk h with h | h <;> omega
    · rcases ihr h with h | h <;> omega

/-- A forest with the numbers that its declarations get, the first of them `next`. -/
def numbered (next : Nat) : Forest Decl → Forest Node
  | .nil => .nil
  | .cons d kids rest =>
    .cons ⟨next, d⟩ (numbered (next + 1) kids) (numbered (next + 1 + kids.size) rest)

theorem map_numbered (next : Nat) (f : Forest Decl) : (numbered next f).map Node.decl = f := by
  induction f generalizing next with
  | nil => rfl
  | cons d kids rest ihk ihr => rw [numbered, Forest.map, ihk, ihr]

/-- The numbers run on in pre-order. -/
theorem map_id_preorder_numbered (next : Nat) (f : Forest Decl) :
    (numbered next f).preorder.map Node.id = List.range' next f.size := by
  induction f generalizing next with
  | nil => rfl
  | cons d kids rest ihk ihr =>
    rw [numbered, Forest.preorder, List.map_cons, List.map_append, ihk, ihr, Forest.size,
      List.range'_succ, List.range'_append_1]

/-- The numbered entries of a forest give the forest back, in front of what later entries add. -/
theorem below_number (next above : Nat) (f : Forest Decl) (tail : List Entry)
    (ha : above < next)
    (ht : ∀ e ∈ tail, e.parent < next ∨ next + f.size ≤ e.parent) :
    below next (number next above f ++ tail) above =
      numbered next f ++ below (next + f.size) tail above := by
  induction f generalizing next above tail with
  | nil => rfl
  | cons d kids rest ihk ihr =>
    simp only [Forest.size] at ht
    -- Below the new number stand the children and nothing that comes later.
    have inner : below (next + 1) (number (next + 1) next kids ++
        (number (next + 1 + kids.size) above rest ++ tail)) next = numbered (next + 1) kids := by
      have outside : ∀ e ∈ number (next + 1 + kids.size) above rest ++ tail, e.parent ≠ next := by
        intro e he
        rcases List.mem_append.mp he with he | he
        · rcases parent_of_mem_number he with h | h <;> omega
        · rcases ht e he with h | h <;> omega
      rw [ihk (next + 1) next _ (by omega)]
      · have none := below_append_of_ne (next + 1 + kids.size) _ [] outside
        rw [List.append_nil] at none
        rw [none, below, Forest.append_nil]
      · intro e he
        rcases List.mem_append.mp he with he | he
        · rcases parent_of_mem_number he with h | h <;> omega
        · rcases ht e he with h | h <;> omega
    have siblings : below (next + 1) (number (next + 1) next kids ++
        (number (next + 1 + kids.size) above rest ++ tail)) above =
        numbered (next + 1 + kids.size) rest ++
          below (next + (kids.size + rest.size + 1)) tail above := by
      have skip : ∀ e ∈ number (next + 1) next kids, e.parent ≠ above := by
        intro e he
        rcases parent_of_mem_number he with h | h <;> omega
      rw [below_append_of_ne _ _ _ skip, length_number, ihr _ _ _ (by omega)]
      · congr 2
        omega
      · intro e he
        rcases ht e he with h | h <;> omega
    simp only [number, List.cons_append, List.append_assoc, below, if_true, inner, siblings,
      numbered, Forest.size, Forest.cons_append]

theorem forest_ofForest (file : Path) (f : Forest Decl) :
    (ofForest file f).forest 0 = numbered 1 f := by
  have h := below_number 1 0 f [] Nat.zero_lt_one (by simp)
  rw [List.append_nil, below, Forest.append_nil] at h
  exact h

theorem map_forest_ofForest (file : Path) (f : Forest Decl) :
    ((ofForest file f).forest 0).map Node.decl = f := by
  rw [forest_ofForest, map_numbered]

/-- The declarations directly below the one numbered `id`, first to last. -/
def children (t : DeclTree) (id : Nat) : List Decl := (t.childIds id).filterMap t.get?

theorem roots_below (next above : Nat) (es : List Entry) :
    (below next es above).roots =
      (es.zipIdx next).filterMap fun (e, n) =>
        if e.parent = above then some ⟨n, e.decl⟩ else none := by
  induction es generalizing next with
  | nil => rfl
  | cons e es ih =>
    rw [below, List.zipIdx_cons, List.filterMap_cons]
    by_cases here : e.parent = above
    · simp only [here, if_true, Forest.roots, ih]
    · simp only [here, if_false, ih]

theorem children_eq_roots (t : DeclTree) (id : Nat) :
    t.children id = ((t.forest id).map Node.decl).roots := by
  rw [Forest.roots_map, forest, roots_below, children, childIds, List.filterMap_filterMap,
    List.map_filterMap]
  apply List.filterMap_congr
  intro (e, n) mem
  obtain ⟨low, entry⟩ := List.mem_zipIdx_iff_le_and_getElem?_sub.mp mem
  have found : t.get? n = some e.decl := by
    obtain ⟨i, rfl⟩ := Nat.exists_eq_add_of_le' low
    rw [Nat.add_sub_cancel] at entry
    rw [get?, entry, Option.map_some]
  by_cases here : e.parent = id <;> simp [here, found]

end DeclTree

end ReflectGen
