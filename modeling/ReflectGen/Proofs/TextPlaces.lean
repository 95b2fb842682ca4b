import Mathlib.Data.List.Basic
import ReflectGen.Report.Label
import ReflectGen.Text.ByteOffset

namespace ReflectGen.Text

/-- Row and byte column behind a text, both from zero. -/
def spot : List Char → Nat × Nat
  | [] => (0, 0)
  | c :: cs =>
    if c = '\n' then ((spot cs).1 + 1, (spot cs).2)
    else if (spot cs).1 = 0 then (0, c.utf8Size + (spot cs).2)
    else spot cs

section Spot

theorem position_append (xs ys : List Char) : position (byteLength xs) (xs ++ ys) = spot xs := by
  induction xs with
  | nil =>
    cases ys with
    | nil => rfl
    | cons c ys =>
      rw [byteLength_nil, List.nil_append, position, if_pos c.utf8Size_pos]
      rfl
  | cons c xs ih =>
    have past : ¬c.utf8Size + byteLength xs < c.utf8Size := by omega
    rw [byteLength_cons, List.cons_append, position, if_neg past, Nat.add_sub_cancel_left, ih, spot]
    simp only [Nat.add_comm c.utf8Size]

theorem spot_of_notMem {xs : List Char} (h : '\n' ∉ xs) : spot xs = (0, byteLength xs) := by
  induction xs with
  | nil => rfl
  | cons c xs ih =>
    rw [List.mem_cons, not_or] at h
    rw [spot, if_neg (Ne.symm h.1), ih h.2, if_pos rfl, byteLength_cons]

theorem spot_append (xs ys : List Char) :
    spot (xs ++ ys) =
      ((spot xs).1 + (spot ys).1,
        if (spot ys).1 = 0 then (spot xs).2 + (spot ys).2 else (spot ys).2) := by
  induction xs with
  | nil =>
    have start : spot [] = (0, 0) := rfl
    rw [List.nil_append, start, Nat.zero_add, Nat.zero_add, ite_self]
  | cons c xs ih =>
    rw [List.cons_append, spot, spot, ih]
    by_cases feed : c = '\n'
    · simp only [feed, if_true]
      congr 1
      omega
    · by_cases first : (spot xs).1 = 0 <;> by_cases second : (spot ys).1 = 0 <;>
        simp [feed, first, second, Nat.add_assoc]

/-- The line and column of a spot lead back to the character behind the text, and so does a column
inside that character. -/
theorem charOffset_spot_add (xs ys : List Char) {k : Nat}
    (inside : ∀ c ∈ ys.head?, k < c.utf8Size) :
    Report.charOffset (xs ++ ys) ((spot xs).1 + 1) ((spot xs).2 + k + 1) = xs.length := by
  rw [Report.charOffset, Nat.add_sub_cancel]
  induction xs with
  | nil =>
    cases ys with
    | nil => rfl
    | cons c ys =>
      have short : ¬c.utf8Size ≤ k := Nat.not_le.mpr (inside c rfl)
      have start : spot [] = (0, 0) := rfl
      rw [List.nil_append, start, lines]
      split
      · simp [Report.offsetInLines, Report.charsWithin, short]
      · cases lines ys <;> simp [Report.offsetInLines, Report.charsWithin, short]
  | cons c xs ih =>
    rw [List.cons_append, spot, lines]
    by_cases feed : c = '\n'
    · simp only [feed, if_true]
      rw [Report.offsetInLines, ih]
      simp [Nat.add_comm]
    · simp only [feed, if_false]
      cases rows : (spot xs).1 with
      | zero =>
        rw [rows] at ih
        rw [if_pos rfl, Nat.add_assoc]
        cases first : lines (xs ++ ys) with
        | nil =>
          have whole := flatten_lines (xs ++ ys)
          rw [first] at whole
          have none : xs = [] := (List.append_eq_nil_iff.mp whole.symm).1
          subst none
          simp [Report.offsetInLines, Report.charsWithin]
        | cons line rest =>
          rw [first, Report.offsetInLines] at ih
          rw [Report.offsetInLines, Report.charsWithin, if_pos (Nat.le_add_right _ _),
            Nat.add_sub_cancel_left, ih, List.length_cons]
      | succ row =>
        rw [rows] at ih
        rw [if_neg (Nat.succ_ne_zero row), rows]
        cases first : lines (xs ++ ys) with
        | nil =>
          have whole := flatten_lines (xs ++ ys)
          rw [first] at whole
          have none : xs = [] := (List.append_eq_nil_iff.mp whole.symm).1
          subst none
          cases rows
        | cons line rest =>
          rw [first, Report.offsetInLines] at ih
          rw [Report.offsetInLines, List.length_cons, List.length_cons, ← ih]
          omega

theorem charOffset_spot (xs ys : List Char) :
    Report.charOffset (xs ++ ys) ((spot xs).1 + 1) ((spot xs).2 + 1) = xs.length :=
  charOffset_spot_add xs ys fun c _ => c.utf8Size_pos

end Spot

section Slice

theorem dropBytes_eq_some {n : Nat} {cs rest : List Char} (h : dropBytes n cs = some rest) :
    ∃ before, cs = before ++ rest ∧ byteLength before = n := by
  induction cs generalizing n with
  | nil =>
    cases n with
    | zero =>
      cases h
      exact ⟨[], rfl, rfl⟩
    | succ n => cases h
  | cons c cs ih =>
    cases n with
    | zero =>
      cases h
      exact ⟨[], rfl, rfl⟩
    | succ n =>
      rw [dropBytes] at h
      split at h
      · rename_i fits
        obtain ⟨before, rfl, length⟩ := ih h
        refine ⟨c :: before, rfl, ?_⟩
        rw [byteLength_cons, length]
        omega
      · cases h

theorem takeBytes_eq_some {n : Nat} {cs taken : List Char} (h : takeBytes n cs = some taken) :
    ∃ rest, cs = taken ++ rest ∧ byteLength taken = n := by
  induction cs generalizing n taken with
  | nil =>
    cases n with
    | zero =>
      cases h
      exact ⟨[], rfl, rfl⟩
    | succ n => cases h
  | cons c cs ih =>
    cases n with
    | zero =>
      cases h
      exact ⟨c :: cs, rfl, rfl⟩
    | succ n =>
      rw [takeBytes] at h
      split at h
      · rename_i fits
        obtain ⟨taken', more, rfl⟩ := Option.map_eq_some_iff.mp h
        obtain ⟨rest, rfl, length⟩ := ih more
        refine ⟨rest, rfl, ?_⟩
        rw [byteLength_cons, length]
        omega
      · cases h

theorem byteLength_pos {cs : List Char} (h : cs ≠ []) : 0 < byteLength cs := by
  obtain ⟨c, rest, rfl⟩ := List.exists_cons_of_ne_nil h
  have := c.utf8Size_pos
  rw [byteLength_cons]
  omega

/-- A slice that is not empty lies between its two offsets. -/
theorem slice_spec {start stop : Nat} {cs : List Char} (h : slice start stop cs ≠ []) :
    ∃ before after, cs = before ++ (slice start stop cs ++ after) ∧
      byteLength before = start ∧ start + byteLength (slice start stop cs) = stop := by
  cases found : (dropBytes start cs).bind (takeBytes (stop - start)) with
  | none => simp [slice, found] at h
  | some taken =>
    have same : slice start stop cs = taken := by simp [slice, found]
    rw [same] at h ⊢
    obtain ⟨rest, dropped, took⟩ := Option.bind_eq_some_iff.mp found
    obtain ⟨before, rfl, length⟩ := dropBytes_eq_some dropped
    obtain ⟨after, rfl, width⟩ := takeBytes_eq_some took
    have positive := byteLength_pos h
    exact ⟨before, after, rfl, length, by omega⟩

end Slice

end ReflectGen.Text
