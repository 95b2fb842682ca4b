namespace ReflectGen

/-- A strict total order. -/
class StrictOrder (α : Type) [LT α] : Prop where
  irrefl (a : α) : ¬a < a
  trans {a b c : α} : a < b → b < c → a < c
  eq_of_not_lt {a b : α} : ¬a < b → ¬b < a → a = b

instance : StrictOrder Nat where
  irrefl := Nat.lt_irrefl
  trans := Nat.lt_trans
  eq_of_not_lt hab hba := Nat.le_antisymm (Nat.not_lt.1 hba) (Nat.not_lt.1 hab)

instance : StrictOrder String where
  irrefl := String.lt_irrefl
  trans := String.lt_trans
  eq_of_not_lt hab hba := String.le_antisymm (String.not_lt.1 hba) (String.not_lt.1 hab)

/-- A finite set as its strictly ascending list of elements. -/
structure SortedSet (α : Type) [LT α] where
  elems : List α
  ascending : elems.Pairwise (· < ·)
  deriving DecidableEq

namespace SortedSet

variable {α : Type} [LT α]

theorem ext {s t : SortedSet α} (h : s.elems = t.elems) : s = t := by
  cases s
  cases t
  cases h
  rfl

instance : EmptyCollection (SortedSet α) := ⟨⟨[], .nil⟩⟩

def contains [DecidableEq α] (s : SortedSet α) (a : α) : Bool := s.elems.contains a

def isEmpty (s : SortedSet α) : Bool := s.elems.isEmpty

variable [DecidableLT α]

def insertElem (a : α) : List α → List α
  | [] => [a]
  | b :: bs => if a < b then a :: b :: bs else if b < a then b :: insertElem a bs else b :: bs

variable [StrictOrder α]

theorem mem_insertElem {a x : α} {bs : List α} : x ∈ insertElem a bs ↔ x = a ∨ x ∈ bs := by
  induction bs with
  | nil => simp [insertElem]
  | cons b bs ih =>
    unfold insertElem
    split
    · simp
    · rename_i hab
      split
      · simp [ih, or_left_comm]
      · rename_i hba
        rw [StrictOrder.eq_of_not_lt hab hba]
        simp

theorem ascending_insertElem (a : α) {bs : List α} (h : bs.Pairwise (· < ·)) :
    (insertElem a bs).Pairwise (· < ·) := by
  induction bs with
  | nil => simp [insertElem]
  | cons b bs ih =>
    rw [List.pairwise_cons] at h
    unfold insertElem
    split
    · rename_i hab
      refine List.pairwise_cons.2 ⟨fun x hx => ?_, List.pairwise_cons.2 h⟩
      rcases List.mem_cons.1 hx with rfl | hx
      · exact hab
      · exact StrictOrder.trans hab (h.1 x hx)
    · split
      · rename_i hba
        refine List.pairwise_cons.2 ⟨fun x hx => ?_, ih h.2⟩
        rcases mem_insertElem.1 hx with rfl | hx
        · exact hba
        · exact h.1 x hx
      · exact List.pairwise_cons.2 h

def insert (s : SortedSet α) (a : α) : SortedSet α :=
  ⟨insertElem a s.elems, ascending_insertElem a s.ascending⟩

theorem mem_insert (s : SortedSet α) (a x : α) : x ∈ (s.insert a).elems ↔ x = a ∨ x ∈ s.elems :=
  mem_insertElem

def union (s t : SortedSet α) : SortedSet α := t.elems.foldl insert s

theorem mem_union (s t : SortedSet α) (x : α) :
    x ∈ (s.union t).elems ↔ x ∈ s.elems ∨ x ∈ t.elems := by
  unfold union
  induction t.elems generalizing s with
  | nil => simp
  | cons a as ih =>
    rw [List.foldl_cons, ih, mem_insert, List.mem_cons, or_assoc, or_left_comm]

end SortedSet

end ReflectGen
