import Mathlib.Data.List.Pairwise
import Mathlib.Data.List.Perm.Basic
import ReflectGen.Path
import ReflectGen.SortedSet

namespace ReflectGen

namespace Path

theorem Component.before_name {a b : String} : (name a).before (name b) ↔ a < b :=
  decide_eq_true_iff

theorem Component.before_irrefl (a : Component) : a.before a = false := by
  cases a with
  | name text => exact decide_eq_false (StrictOrder.irrefl text)
  | _ => rfl

theorem Component.before_trans {a b c : Component} (hab : a.before b) (hbc : b.before c) :
    a.before c := by
  cases a <;> cases b <;> cases c <;>
    first | rfl | exact Bool.noConfusion hab | exact Bool.noConfusion hbc | skip
  rw [before_name] at hab hbc ⊢
  exact StrictOrder.trans hab hbc

theorem Component.before_or_eq (a b : Component) : a.before b ∨ a = b ∨ b.before a := by
  cases a <;> cases b <;>
    first | exact .inl rfl | exact .inr (.inl rfl) | exact .inr (.inr rfl) | skip
  rename_i a b
  rw [before_name, before_name]
  by_cases hab : a < b
  · exact .inl hab
  · by_cases hba : b < a
    · exact .inr (.inr hba)
    · exact .inr (.inl (congrArg name (StrictOrder.eq_of_not_lt hab hba)))

theorem Component.not_before_of_before {a b : Component} (h : a.before b) : b.before a = false := by
  cases back : b.before a with
  | false => rfl
  | true =>
    have loop := before_trans h back
    rw [before_irrefl] at loop
    cases loop

theorem componentsLe_cons {a b : Component} {as bs : List Component} :
    componentsLe (a :: as) (b :: bs) ↔ a.before b ∨ a = b ∧ componentsLe as bs := by
  simp [componentsLe]

theorem componentsLe_total (as bs : List Component) :
    componentsLe as bs ∨ componentsLe bs as := by
  induction as generalizing bs with
  | nil => exact .inl rfl
  | cons a as ih =>
    cases bs with
    | nil => exact .inr rfl
    | cons b bs =>
      rw [componentsLe_cons, componentsLe_cons]
      rcases Component.before_or_eq a b with hab | rfl | hba
      · exact .inl (.inl hab)
      · rcases ih bs with h | h
        · exact .inl (.inr ⟨rfl, h⟩)
        · exact .inr (.inr ⟨rfl, h⟩)
      · exact .inr (.inl hba)

theorem componentsLe_trans {as bs cs : List Component} (hab : componentsLe as bs)
    (hbc : componentsLe bs cs) : componentsLe as cs := by
  induction as generalizing bs cs with
  | nil => rfl
  | cons a as ih =>
    cases bs with
    | nil => cases hab
    | cons b bs =>
      cases cs with
      | nil => cases hbc
      | cons c cs =>
        rw [componentsLe_cons] at hab hbc ⊢
        rcases hab with hab | ⟨rfl, hab⟩
        · rcases hbc with hbc | ⟨rfl, -⟩
          · exact .inl (Component.before_trans hab hbc)
          · exact .inl hab
        · rcases hbc with hbc | ⟨rfl, hbc⟩
          · exact .inl hbc
          · exact .inr ⟨rfl, ih hab hbc⟩

theorem componentsLe_antisymm {as bs : List Component} (hab : componentsLe as bs)
    (hba : componentsLe bs as) : as = bs := by
  induction as generalizing bs with
  | nil =>
    cases bs with
    | nil => rfl
    | cons b bs => cases hba
  | cons a as ih =>
    cases bs with
    | nil => cases hab
    | cons b bs =>
      rw [componentsLe_cons] at hab hba
      rcases hab with hab | ⟨rfl, hab⟩
      · have back := Component.not_before_of_before hab
        rcases hba with hba | ⟨rfl, -⟩
        · rw [hba] at back
          cases back
        · rw [hab] at back
          cases back
      · rcases hba with hba | ⟨-, hba⟩
        · rw [Component.before_irrefl] at hba
          cases hba
        · rw [ih hab hba]

theorem le_total (p q : Path) : p.le q ∨ q.le p := componentsLe_total ..

theorem le_trans {p q r : Path} (hpq : p.le q) (hqr : q.le r) : p.le r := componentsLe_trans hpq hqr

theorem same_symm {p q : Path} (h : p.same q) : q.same p := by
  rw [same, beq_iff_eq] at h ⊢
  exact h.symm

theorem same_of_le {p q : Path} (hpq : p.le q) (hqp : q.le p) : p.same q := by
  simpa [same] using componentsLe_antisymm hpq hqp

end Path

section Sorted

variable {α : Type} {key : α → Path} {xs ys : List α}

theorem sorted_mergeSort (key : α → Path) (xs : List α) :
    (xs.mergeSort fun a b => (key a).le (key b)).Pairwise fun a b => (key a).le (key b) := by
  apply List.pairwise_mergeSort
  · intro a b c hab hbc
    exact Path.le_trans hab hbc
  · intro a b
    rw [Bool.or_eq_true]
    exact Path.le_total (key a) (key b)

/-- Entries of distinct paths have one order by path. -/
theorem eq_of_sorted (distinct : xs.Pairwise fun a b => ¬(key a).same (key b))
    (hx : xs.Pairwise fun a b => (key a).le (key b))
    (hy : ys.Pairwise fun a b => (key a).le (key b))
    (perm : xs.Perm ys) : xs = ys := by
  refine perm.eq_of_pairwise (fun a b ha hb hab hba => ?_) hx hy
  by_contra ne
  have symm : Std.Symm fun a b => ¬(key a).same (key b) :=
    ⟨fun x y apart back => apart (Path.same_symm back)⟩
  exact distinct.forall ha (perm.mem_iff.mpr hb) ne (Path.same_of_le hab hba)

theorem distinct_perm (perm : xs.Perm ys) (h : xs.Pairwise fun a b => ¬(key a).same (key b)) :
    ys.Pairwise fun a b => ¬(key a).same (key b) :=
  h.perm perm fun apart back => apart (Path.same_symm back)

theorem mergeSort_eq_of_perm (key : α → Path)
    (distinct : xs.Pairwise fun a b => ¬(key a).same (key b)) (perm : xs.Perm ys) :
    (xs.mergeSort fun a b => (key a).le (key b)) = ys.mergeSort fun a b => (key a).le (key b) := by
  have sorting := List.mergeSort_perm xs fun a b => (key a).le (key b)
  exact eq_of_sorted (distinct_perm sorting.symm distinct) (sorted_mergeSort key xs)
    (sorted_mergeSort key ys) (sorting.trans (perm.trans (List.mergeSort_perm ys _).symm))

theorem mergeSort_filter (key : α → Path) (keep : α → Bool)
    (distinct : xs.Pairwise fun a b => ¬(key a).same (key b)) :
    ((xs.filter keep).mergeSort fun a b => (key a).le (key b)) =
      (xs.mergeSort fun a b => (key a).le (key b)).filter keep := by
  have sorting := List.mergeSort_perm (xs.filter keep) fun a b => (key a).le (key b)
  have whole := List.mergeSort_perm xs fun a b => (key a).le (key b)
  exact eq_of_sorted (distinct_perm sorting.symm (distinct.filter keep))
    (sorted_mergeSort key (xs.filter keep)) ((sorted_mergeSort key xs).filter keep)
    (sorting.trans (whole.filter keep).symm)

end Sorted

end ReflectGen
