import ReflectGen.Proofs.TreeOrder

namespace ReflectGen

section UpToStop

variable {α β : Type} {stops : α → Bool} {x : α}

/-- The elements up to the first one that stops, this one included. -/
def upToStop (stops : α → Bool) : List α → List α
  | [] => []
  | x :: rest => if stops x then [x] else x :: upToStop stops rest

theorem upToStop_append (stops : α → Bool) (front rest : List α) :
    upToStop stops (front ++ rest) =
      upToStop stops front ++ if front.any stops then [] else upToStop stops rest := by
  induction front with
  | nil => rfl
  | cons x front ih =>
    by_cases h : stops x
    · simp [upToStop, h]
    · simp [upToStop, h, ih]

theorem map_upToStop (g : β → α) (l : List β) :
    (upToStop (stops ∘ g) l).map g = upToStop stops (l.map g) := by
  induction l with
  | nil => rfl
  | cons x l ih =>
    simp only [upToStop, List.map_cons, Function.comp_apply]
    split
    · rfl
    · rw [List.map_cons, ih]

theorem upToStop_sublist (stops : α → Bool) (l : List α) : (upToStop stops l).Sublist l := by
  induction l with
  | nil => exact .slnil
  | cons x l ih =>
    rw [upToStop]
    split
    · exact (List.nil_sublist l).cons_cons x
    · exact ih.cons_cons x

theorem any_upToStop (l : List α) : (upToStop stops l).any stops = l.any stops := by
  induction l with
  | nil => rfl
  | cons x l ih =>
    by_cases h : stops x
    · simp [upToStop, h]
    · simp [upToStop, h, ih]

/-- In a list with an order, an element is left out exactly if one that stops is before it. -/
theorem mem_upToStop_iff {R : α → α → Prop} (asymm : ∀ {a b}, R a b → ¬R b a) {l : List α}
    (ordered : l.Pairwise R) :
    x ∈ upToStop stops l ↔ x ∈ l ∧ ∀ y ∈ upToStop stops l, R y x → ¬stops y := by
  induction l with
  | nil => simp [upToStop]
  | cons z l ih =>
    obtain ⟨first, ordered⟩ := List.pairwise_cons.mp ordered
    have later := ih ordered
    by_cases h : stops z
    · have only : upToStop stops (z :: l) = [z] := by simp [upToStop, h]
      simp only [only, List.mem_cons (a := x), List.forall_mem_singleton, List.not_mem_nil,
        or_false]
      constructor
      · rintro rfl
        exact ⟨.inl rfl, fun before => absurd before (asymm before)⟩
      · rintro ⟨rfl | mem, free⟩
        · rfl
        · exact absurd h (free (first x mem))
    · have next : upToStop stops (z :: l) = z :: upToStop stops l := by simp [upToStop, h]
      rw [next]
      simp only [List.mem_cons, forall_eq_or_imp]
      constructor
      · rintro (rfl | mem)
        · refine ⟨.inl rfl, fun _ => h, fun y hy before => ?_⟩
          exact absurd before (asymm (first y ((upToStop_sublist stops l).mem hy)))
        · exact ⟨.inr (later.mp mem).1, fun _ => h, (later.mp mem).2⟩
      · rintro ⟨rfl | mem, -, free⟩
        · exact .inl rfl
        · exact .inr (later.mpr ⟨mem, free⟩)

end UpToStop

namespace Forest

variable {α σ : Type}

/-- The edges of a forest without those below a label that the walk does not go down from. -/
def opened (answer : α → Visit) (above : α) : Forest α → List (α × α)
  | nil => []
  | cons a kids rest =>
    (a, above) :: ((if answer a = .descend then kids.opened answer a else []) ++
      rest.opened answer above)

theorem opened_sublist_edges (answer : α → Visit) (above : α) (t : Forest α) :
    (t.opened answer above).Sublist (t.edges above) := by
  induction t generalizing above with
  | nil => exact .slnil
  | cons a kids rest ihk ihr =>
    refine List.Sublist.cons_cons _ (List.Sublist.append ?_ (ihr above))
    split
    · exact ihk a
    · exact List.nil_sublist _

/-- A walk stops at an edge whose lower end says so. -/
def stopsAt (answer : α → Visit) (e : α × α) : Bool := answer e.1 = .stop

section Answers

variable {f : σ → α → α → σ × Visit} {answer : α → Visit}
variable (answers : ∀ s a b, (f s a b).2 = answer a)

include answers

theorem visit_snd_eq (above : α) (t : Forest α) (s : σ) :
    (t.visit f above s).2 = !(t.opened answer above).any (stopsAt answer) := by
  induction t generalizing above s with
  | nil => rfl
  | cons a kids rest ihk ihr =>
    rcases step : f s a above with ⟨next, given⟩
    have here : answer a = given := by rw [← answers s a above, step]
    cases given with
    | stop => simp [visit, step, opened, stopsAt, here]
    | skip => simp [visit, step, opened, stopsAt, here, ihr above next]
    | descend =>
      have inner := ihk a next
      rcases walk : kids.visit f a next with ⟨result, finished⟩
      rw [walk] at inner
      have first : stopsAt answer (a, above) = false := by simp [stopsAt, here]
      simp only [visit, step, walk, opened, if_pos here, List.any_cons, List.any_append, first]
      cases finished with
      | false => simp [← inner]
      | true => simp [← inner, ihr above result]

theorem visited_eq (above : α) (t : Forest α) (s : σ) :
    t.visited f above s = upToStop (stopsAt answer) (t.opened answer above) := by
  induction t generalizing above s with
  | nil => rfl
  | cons a kids rest ihk ihr =>
    rcases step : f s a above with ⟨next, given⟩
    have here : answer a = given := by rw [← answers s a above, step]
    cases given with
    | stop => simp [visited, step, opened, upToStop, stopsAt, here]
    | skip => simp [visited, step, opened, upToStop, stopsAt, here, ihr above next]
    | descend =>
      have inner := visit_snd_eq answers a kids next
      rcases walk : kids.visit f a next with ⟨result, finished⟩
      have stopped : (kids.opened answer a).any (stopsAt answer) = !finished := by
        rw [walk] at inner
        rw [show finished = _ from inner, Bool.not_not]
      have first : stopsAt answer (a, above) = false := by simp [stopsAt, here]
      simp only [visited, step, walk, opened, if_pos here, upToStop, first, upToStop_append,
        stopped, ihk a next]
      cases finished with
      | false => simp
      | true => simp [ihr above result]

end Answers

theorem mem_edges_of_mem_roots {a : α} {t : Forest α} (above : α) (h : a ∈ t.roots) :
    (a, above) ∈ t.edges above := by
  induction t with
  | nil => cases h
  | cons b kids rest _ ih =>
    rcases List.mem_cons.mp h with rfl | h
    · exact List.mem_cons_self
    · exact List.mem_cons_of_mem _ (List.mem_append_right _ (ih h))

theorem mem_edges_of_mem_trees {a : α} {kids t : Forest α} (above : α) (h : (a, kids) ∈ t.trees)
    {e : α × α} (he : e ∈ kids.edges a) : e ∈ t.edges above := by
  induction t with
  | nil => cases h
  | cons b below rest _ ih =>
    rcases List.mem_cons.mp h with same | h
    · cases same
      exact List.mem_cons_of_mem _ (List.mem_append_left _ he)
    · exact List.mem_cons_of_mem _ (List.mem_append_right _ (ih h))

end Forest

namespace DeclTree

variable {t : DeclTree}

/-- What stands below a declaration stands below one of its children, or is one. -/
theorem Encloses.exists_child {a b : Nat} (h : t.Encloses a b) (ne : a ≠ b) :
    ∃ r, t.parent? r = some a ∧ t.Encloses r b := by
  induction h with
  | self => exact absurd rfl ne
  | @inside inner up parent h ih =>
    by_cases top : a = up
    · subst top
      exact ⟨inner, parent, .self⟩
    · obtain ⟨r, child, around⟩ := ih top
      exact ⟨r, child, .inside parent around⟩

/-- The edges below a declaration are those between a parent that it encloses and a child. -/
theorem mem_edges_iff {start c p : Nat} (d : Decl) :
    (∃ e ∈ (t.forest start).edges ⟨start, d⟩, e.1.id = c ∧ e.2.id = p) ↔
      t.parent? c = some p ∧ t.Encloses start p := by
  constructor
  · rintro ⟨e, he, rfl, rfl⟩
    have parents : ∀ e ∈ (t.forest start).edges ⟨start, d⟩, t.parent? e.1.id = some e.2.id :=
      fun e he => (parent?_of_mem_edges he).2
    exact ⟨parents e he, encloses_of_mem_edges parents he⟩
  · rintro ⟨parent, around⟩
    -- The way from `start` down to the parent gets shorter by one root.
    induction left : p - start using Nat.strongRecOn generalizing start d with
    | ind left ih =>
      by_cases top : start = p
      · subst top
        have root : c ∈ (t.forest start).roots.map Node.id := by
          rw [map_id_roots, mem_childIds_iff]
          exact parent
        obtain ⟨n, hn, rfl⟩ := List.mem_map.mp root
        exact ⟨(n, ⟨start, d⟩), Forest.mem_edges_of_mem_roots _ hn, rfl, rfl⟩
      · obtain ⟨r, child, inner⟩ := around.exists_child top
        have root : r ∈ (t.forest start).roots.map Node.id := by
          rw [map_id_roots, mem_childIds_iff]
          exact child
        obtain ⟨n, hn, rfl⟩ := List.mem_map.mp root
        have less := parent?_lt child
        have le := inner.le
        obtain ⟨e, he, ends⟩ := ih (p - n.id) (by omega) n.decl inner rfl
        have tree : (n, t.forest n.id) ∈ (t.forest start).trees := by
          rw [trees_forest]
          exact List.mem_map_of_mem hn
        exact ⟨e, Forest.mem_edges_of_mem_trees _ tree he, ends⟩

/-- An edge is open if the walk goes down from every label on the way to it. -/
theorem mem_opened_iff {answer : Nat → Forest.Visit} {f : Forest Node} {above c p : Node}
    (parents : ∀ e ∈ f.edges above, t.parent? e.1.id = some e.2.id) :
    (c, p) ∈ f.opened (fun n => answer n.id) above ↔
      (c, p) ∈ f.edges above ∧
        ∀ b, b ≠ above.id → t.Encloses above.id b → t.Encloses b p.id → answer b = .descend := by
  induction f generalizing above with
  | nil => simp [Forest.opened, Forest.edges]
  | cons n kids rest ihk ihr =>
    simp only [Forest.edges, List.mem_cons, List.mem_append, forall_eq_or_imp] at parents
    obtain ⟨first, parents⟩ := parents
    have inner := ihk fun e he => parents e (.inl he)
    have later := ihr fun e he => parents e (.inr he)
    have less := parent?_lt first
    simp only [Forest.opened, Forest.edges, List.mem_cons, List.mem_append]
    constructor
    · rintro (same | mem | mem)
      · cases same
        exact ⟨.inl rfl, fun b ne down up => absurd (Nat.le_antisymm up.le down.le) ne⟩
      · split at mem
        · rename_i descends
          obtain ⟨edge, answers⟩ := inner.mp mem
          refine ⟨.inr (.inl edge), fun b ne down up => ?_⟩
          have around := encloses_of_mem_edges (fun e he => parents e (.inl he)) edge
          by_cases here : b = n.id
          · subst here
            exact descends
          · rcases up.or around with outer | outer
            · exact absurd (Nat.le_antisymm (outer.parent here first).le down.le) ne
            · exact answers b here outer up
        · cases mem
      · obtain ⟨edge, answers⟩ := later.mp mem
        exact ⟨.inr (.inr edge), answers⟩
    · rintro ⟨same | edge | edge, answers⟩
      · exact .inl same
      · have around := encloses_of_mem_edges (fun e he => parents e (.inl he)) edge
        have below : t.Encloses above.id n.id := .inside first .self
        have descends := answers n.id (Nat.ne_of_gt less) below around
        refine .inr (.inl ?_)
        rw [if_pos descends]
        refine inner.mpr ⟨edge, fun b ne down up => ?_⟩
        have le := down.le
        exact answers b (by omega) (below.trans down) up
      · exact .inr (.inr (later.mpr ⟨edge, answers⟩))

end DeclTree

end ReflectGen
