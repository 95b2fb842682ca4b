import Mathlib.Data.List.Induction
import ReflectGen.Proofs.VisitedEdges

namespace ReflectGen

/-- A declaration with the numbers of the one that holds it and of those that it holds. -/
structure Slot where
  decl : Decl
  parent : Option Nat
  children : List Nat := []

/-- The slot of a declaration that is new. -/
def Entry.slot (e : Entry) : Slot := ⟨e.decl, some e.parent, []⟩

/-- Declarations by number. -/
structure Arena where
  slots : List Slot

namespace Arena

def ofFile (file : Path) : Arena := ⟨[⟨Decl.ofFile file, none, []⟩]⟩

/-- Adds a declaration under the next number and lists it as the last child of its parent. There is
no result if the parent has no slot. -/
def push (a : Arena) (e : Entry) : Option Arena :=
  let grown := a.slots ++ [e.slot]
  grown[e.parent]?.map fun up =>
    ⟨grown.set e.parent { up with children := up.children ++ [a.slots.length] }⟩

def build (file : Path) (entries : List Entry) : Option Arena := entries.foldlM push (ofFile file)

section Visit

variable {σ : Type} (f : σ → Nat → Nat → σ × Forest.Visit)

/-- Calls the visitor for children of `parent` one after the other; `down` walks through what stands
below one of them. -/
def visitEach (parent : Nat) (down : Nat → σ → Option (σ × Bool)) :
    List Nat → σ → Option (σ × Bool)
  | [], s => some (s, true)
  | c :: rest, s =>
    match f s c parent with
    | (s, .stop) => some (s, false)
    | (s, .skip) => visitEach parent down rest s
    | (s, .descend) =>
      (down c s).bind fun result =>
        if result.2 then visitEach parent down rest result.1 else some result

/-- Walks through what stands below a number. There is no result if a number has no slot, or if so
many levels are not enough. -/
def visit (a : Arena) : Nat → Nat → σ → Option (σ × Bool)
  | 0, _, _ => none
  | levels + 1, parent, s =>
    a.slots[parent]?.bind fun slot => visitEach f parent (a.visit levels) slot.children s

end Visit

/-- An arena whose slots hold what the tree has under their numbers. -/
structure Represents (a : Arena) (t : DeclTree) : Prop where
  length : a.slots.length = t.size
  slot : ∀ id, a.slots[id]? = (t.get? id).map fun d => ⟨d, t.parent? id, t.childIds id⟩

end Arena

namespace DeclTree

section Push

variable (t : DeclTree) (parent : Fin t.size) (d : Decl) (id : Nat)

theorem getElem?_entries_push (i : Nat) :
    (t.push parent d).entries[i]? =
      if i + 1 = t.size then some ⟨parent, d⟩ else t.entries[i]? := by
  have size : t.size = t.entries.length + 1 := rfl
  rw [push, List.getElem?_append]
  split
  · rw [if_neg (by omega)]
  · rw [List.getElem?_singleton]
    by_cases last : i = t.entries.length
    · rw [if_pos (by omega), if_pos (by omega)]
    · rw [if_neg (by omega), if_neg (by omega), List.getElem?_eq_none (by omega)]

theorem get?_push : (t.push parent d).get? id = if id = t.size then some d else t.get? id := by
  cases id with
  | zero => rfl
  | succ i =>
    rw [get?, getElem?_entries_push]
    split <;> rfl

theorem parent?_push :
    (t.push parent d).parent? id = if id = t.size then some parent.1 else t.parent? id := by
  cases id with
  | zero => rfl
  | succ i =>
    rw [parent?, getElem?_entries_push]
    split <;> rfl

theorem childIds_push :
    (t.push parent d).childIds id =
      if id = parent then t.childIds id ++ [t.size] else t.childIds id := by
  rw [childIds, push, List.zipIdx_append, List.filterMap_append]
  split
  · rename_i here
    simp [childIds, here, size, Nat.add_comm]
  · rename_i other
    simp [childIds, Ne.symm other]

theorem childIds_size : t.childIds t.size = [] := by
  rw [List.eq_nil_iff_forall_not_mem]
  intro c mem
  have parent := mem_childIds_iff.mp mem
  exact Nat.lt_asymm (parent?_lt parent) (lt_size_of_parent? parent)

end Push

end DeclTree

namespace Arena

open DeclTree (Node)

section Represents

variable {a : Arena} {t : DeclTree}

theorem represents_ofFile (empty : t.entries = []) : (ofFile t.file).Represents t := by
  obtain ⟨file, entries, parent_le⟩ := t
  subst empty
  refine ⟨rfl, fun id => ?_⟩
  cases id <;> rfl

theorem Represents.push (h : a.Represents t) (parent : Fin t.size) (d : Decl) :
    ∃ b, a.push ⟨parent, d⟩ = some b ∧ b.Represents (t.push parent d) := by
  have old := Nat.ne_of_lt parent.isLt
  have inside : (parent : Nat) < a.slots.length := by rw [h.length]; exact parent.isLt
  obtain ⟨decl, known⟩ := DeclTree.exists_get? parent.isLt
  have grown : (a.slots ++ [Entry.slot ⟨parent, d⟩])[(parent : Nat)]? =
      some ⟨decl, t.parent? parent, t.childIds parent⟩ := by
    rw [List.getElem?_append_left inside, h.slot, known, Option.map_some]
  refine ⟨⟨(a.slots ++ [Entry.slot ⟨parent, d⟩]).set parent
    ⟨decl, t.parent? parent, t.childIds parent ++ [t.size]⟩⟩, ?_, ?_, fun id => ?_⟩
  · simp only [Arena.push, grown, Option.map_some, h.length]
  · simp [h.length, DeclTree.size, DeclTree.push]
  · rw [DeclTree.get?_push, DeclTree.parent?_push, DeclTree.childIds_push, List.getElem?_set]
    by_cases here : (parent : Nat) = id
    · subst here
      simp only [if_pos, if_neg old, known, Option.map_some, List.length_append]
      exact if_pos (Nat.lt_add_right 1 inside)
    · rw [if_neg here, if_neg (Ne.symm here), List.getElem?_append]
      by_cases new : id = t.size
      · subst new
        simp [h.length, DeclTree.childIds_size, Entry.slot]
      · rw [if_neg new, if_neg new, ← h.slot]
        split
        · rfl
        · have beyond : a.slots.length < id := by
            have := h.length
            omega
          rw [List.getElem?_eq_none (Nat.le_of_lt beyond), List.getElem?_eq_none]
          rw [List.length_singleton]
          omega

/-- Every declaration tree is the tree of an arena that grew by its entries. -/
theorem exists_build_represents (t : DeclTree) :
    ∃ a, build t.file t.entries = some a ∧ a.Represents t := by
  obtain ⟨file, entries, parent_le⟩ := t
  induction entries using List.reverseRecOn with
  | nil => exact ⟨ofFile file, rfl, represents_ofFile (t := ⟨file, [], parent_le⟩) rfl⟩
  | append_singleton front e ih =>
    have earlier (i : Nat) (d : Entry) (h : front[i]? = some d) : d.parent ≤ i := by
      apply parent_le i d
      rw [List.getElem?_append_left (List.getElem?_eq_some_iff.mp h).1, h]
    have last := parent_le front.length e (by simp)
    obtain ⟨a, built, represents⟩ := ih earlier
    obtain ⟨b, pushed, grown⟩ := represents.push ⟨e.parent, Nat.lt_succ_of_le last⟩ e.decl
    refine ⟨b, ?_, grown⟩
    simp only [build] at built ⊢
    rw [List.foldlM_append, built]
    simpa using pushed

end Represents

section Walk

variable {σ : Type} {f : σ → Nat → Nat → σ × Forest.Visit} {a : Arena} {t : DeclTree}

/-- A visitor of numbers as one of numbered declarations. -/
def onNodes (f : σ → Nat → Nat → σ × Forest.Visit) : σ → Node → Node → σ × Forest.Visit :=
  fun s n up => f s n.id up.id

theorem visitEach_eq {n : Node} {down : Nat → σ → Option (σ × Bool)} {nodes : List Node}
    (deeper : ∀ m ∈ nodes, ∀ s, down m.id s = some ((t.forest m.id).visit (onNodes f) m s))
    (s : σ) :
    visitEach f n.id down (nodes.map Node.id) s =
      some ((Forest.ofTrees (nodes.map fun m => (m, t.forest m.id))).visit (onNodes f) n s) := by
  induction nodes generalizing s with
  | nil => rfl
  | cons m nodes ih =>
    have later := ih fun k hk => deeper k (List.mem_cons_of_mem m hk)
    rw [List.map_cons, List.map_cons, visitEach, Forest.ofTrees, Forest.visit, onNodes]
    rcases f s m.id n.id with ⟨next, answer⟩
    cases answer with
    | stop => rfl
    | skip => exact later next
    | descend =>
      dsimp only
      rw [deeper m List.mem_cons_self, Option.bind_some]
      rcases (t.forest m.id).visit (onNodes f) m next with ⟨result, finished⟩
      cases finished with
      | false => rfl
      | true => exact later result

/-- A walk ends, since numbers grow on the way down, and does what a walk through the tree does. -/
theorem Represents.visit_eq (h : a.Represents t) {levels start : Nat} (here : start < t.size)
    (enough : t.size ≤ start + levels) (d : Decl) (s : σ) :
    a.visit f levels start s = some ((t.forest start).visit (onNodes f) ⟨start, d⟩ s) := by
  induction levels generalizing start d s with
  | zero => omega
  | succ levels ih =>
    have deeper : ∀ n ∈ (t.forest start).roots, ∀ s,
        a.visit f levels n.id s = some ((t.forest n.id).visit (onNodes f) n s) := by
      intro n hn s
      have child : n.id ∈ t.childIds start := by
        rw [← DeclTree.map_id_roots]
        exact List.mem_map_of_mem hn
      have parent := DeclTree.mem_childIds_iff.mp child
      have less := DeclTree.parent?_lt parent
      exact ih (DeclTree.lt_size_of_parent? parent) (by omega) n.decl s
    have each := visitEach_eq (f := f) (n := ⟨start, d⟩) deeper s
    rw [DeclTree.map_id_roots, ← DeclTree.trees_forest, Forest.ofTrees_trees] at each
    obtain ⟨decl, known⟩ := DeclTree.exists_get? here
    rw [visit, h.slot, known]
    exact each

end Walk

section Calls

variable (t : DeclTree) (answer : Nat → Forest.Visit)

/-- A visitor that notes its calls and answers by the number alone. -/
def noting (calls : List (Nat × Nat)) (c p : Nat) : List (Nat × Nat) × Forest.Visit :=
  (calls ++ [(c, p)], answer c)

/-- The edges that a walk can reach, by number. -/
def openIds (start : Node) : List (Nat × Nat) :=
  ((t.forest start.id).opened (fun n => answer n.id) start).map fun e => (e.1.id, e.2.id)

theorem mem_openIds_iff {t : DeclTree} {answer : Nat → Forest.Visit} {start c p : Nat} (d : Decl) :
    (c, p) ∈ openIds t answer ⟨start, d⟩ ↔
      t.parent? c = some p ∧ t.Encloses start p ∧
        ∀ b, b ≠ start → t.Encloses start b → t.Encloses b p → answer b = .descend := by
  have parents : ∀ e ∈ (t.forest start).edges ⟨start, d⟩, t.parent? e.1.id = some e.2.id :=
    fun e he => (DeclTree.parent?_of_mem_edges he).2
  rw [openIds, List.mem_map, ← and_assoc, ← DeclTree.mem_edges_iff d]
  constructor
  · rintro ⟨e, he, same⟩
    cases same
    obtain ⟨edge, answers⟩ := (DeclTree.mem_opened_iff parents).mp he
    exact ⟨⟨e, edge, rfl, rfl⟩, answers⟩
  · rintro ⟨⟨e, edge, rfl, rfl⟩, answers⟩
    exact ⟨e, (DeclTree.mem_opened_iff parents).mpr ⟨edge, answers⟩, rfl⟩

theorem pairwise_openIds (start : Node) :
    (openIds t answer start).Pairwise fun x y => t.Before x.1 y.1 := by
  rw [openIds, List.pairwise_map]
  exact (t.pairwise_before_edges start).sublist (Forest.opened_sublist_edges _ _ _)

/-- A walk notes the edges that it can reach, up to the first stop. -/
theorem visit_noting (start : Node) :
    (t.forest start.id).visit (onNodes (noting answer)) start [] =
      (upToStop (Forest.stopsAt answer) (openIds t answer start),
        !(openIds t answer start).any (Forest.stopsAt answer)) := by
  have answers (s) (n m : Node) : (onNodes (noting answer) s n m).2 = answer n.id := rfl
  apply Prod.ext
  · rw [Forest.visit_eq_foldl, Forest.visited_eq answers, openIds, ← map_upToStop]
    exact List.foldl_append_eq_append.trans (List.flatMap_pure_eq_map _ _)
  · rw [Forest.visit_snd_eq answers, openIds, List.any_map]
    rfl

end Calls

/-- Declarations that were added one by one, each below an earlier one, have parents with lower
numbers and children in ascending order, and a child is listed with its parent and nowhere else. A
walk from any of them ends. Its calls are in pre-order, none is made twice, and they are made for
the declarations below the start which it went down to without a stop before. It is cut short
exactly if one of the calls stopped it. -/
theorem walk_exact (t : DeclTree) :
    ∃ a, build t.file t.entries = some a ∧ a.Represents t ∧
      (∀ c p, t.parent? c = some p → p < c) ∧
      (∀ p, (t.childIds p).Pairwise (· < ·)) ∧
      (∀ c p, c ∈ t.childIds p ↔ t.parent? c = some p) ∧
      ∀ (start : Fin t.size) (answer : Nat → Forest.Visit), ∃ calls finished,
        (∀ levels, t.size ≤ levels →
          a.visit (noting answer) levels start [] = some (calls, finished)) ∧
        (∀ d, (t.forest start).visit (onNodes (noting answer)) ⟨start, d⟩ [] = (calls, finished)) ∧
        calls.Pairwise (fun x y => t.Before x.1 y.1) ∧
        (calls.map Prod.fst).Nodup ∧
        (∀ c p, (c, p) ∈ calls ↔
          t.parent? c = some p ∧ t.Encloses start p ∧
            (∀ b : Nat, b ≠ start → t.Encloses start b → t.Encloses b p → answer b = .descend) ∧
            ∀ x ∈ calls, t.Before x.1 c → answer x.1 ≠ .stop) ∧
        (finished = false ↔ ∃ x ∈ calls, answer x.1 = .stop) := by
  obtain ⟨a, built, represents⟩ := exists_build_represents t
  refine ⟨a, built, represents, fun c p => DeclTree.parent?_lt, t.ascending_childIds,
    fun c p => DeclTree.mem_childIds_iff, fun start answer => ?_⟩
  -- The start is named by its number, so any declaration will do for it.
  let unit : Node := ⟨start, Decl.ofFile t.file⟩
  have walk (d : Decl) {levels : Nat} (enough : t.size ≤ levels) :=
    represents.visit_eq (f := noting answer) start.isLt (Nat.le_add_left_of_le enough) d []
  have noted := visit_noting t answer unit
  have ordered := (pairwise_openIds t answer unit).sublist
    (upToStop_sublist (Forest.stopsAt answer) _)
  refine ⟨_, _, fun levels enough => (walk unit.decl enough).trans (congrArg some noted),
    fun d => ?_, ordered, ?_, fun c p => ?_, ?_⟩
  · have same := (walk d (Nat.le_refl t.size)).symm.trans (walk unit.decl (Nat.le_refl t.size))
    exact (Option.some.inj same).trans noted
  · exact List.pairwise_map.mpr (ordered.imp DeclTree.Before.ne)
  · rw [mem_upToStop_iff DeclTree.Before.asymm (pairwise_openIds t answer unit), mem_openIds_iff]
    simp [Forest.stopsAt, and_assoc]
  · rw [← any_upToStop]
    simp [Forest.stopsAt]

end Arena

end ReflectGen
