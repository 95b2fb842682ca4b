import Mathlib.Data.List.Basic
import ReflectGen.Metadata

namespace ReflectGen

namespace Text

/-- Tables whose ranges lie apart have no character in common. -/
theorem CharTable.covers_eq_false {a b : CharTable} {c : Char}
    (apart : ∀ r ∈ a, ∀ s ∈ b, r.2 < s.1 ∨ s.2 < r.1) (h : a.covers c = true) :
    b.covers c = false := by
  obtain ⟨r, hr, inR⟩ := List.any_eq_true.mp h
  rw [Bool.and_eq_true, decide_eq_true_eq, decide_eq_true_eq] at inR
  rw [covers, List.any_eq_false]
  intro s hs inS
  rw [Bool.and_eq_true, decide_eq_true_eq, decide_eq_true_eq] at inS
  have := apart r hr s hs
  omega

theorem isSpace_of_isDecimalDigit {c : Char} (h : isDecimalDigit c = true) : isSpace c = false :=
  CharTable.covers_eq_false (by decide) h

theorem isDecimalDigit_of_isSpace {c : Char} (h : isSpace c = true) : isDecimalDigit c = false :=
  CharTable.covers_eq_false (by decide) h

end Text

namespace TypePattern

open Text

section Search

variable {α : Type} {f : List Char → Option α}

/-- The search answers at the first place where there is an answer. -/
theorem firstAmong_eq_some_iff {cs : List Char} {a : α} :
    firstAmong f cs = some a ↔
      ∃ before after, cs = before ++ after ∧ f after = some a ∧
        ∀ earlier later, cs = earlier ++ later → earlier.length < before.length →
          f later = none := by
  induction cs with
  | nil =>
    constructor
    · intro h
      exact ⟨[], [], rfl, h, fun _ _ _ short => absurd short (Nat.not_lt_zero _)⟩
    · rintro ⟨before, after, split, answer, -⟩
      obtain ⟨-, rfl⟩ := List.append_eq_nil_iff.mp split.symm
      exact answer
  | cons c cs ih =>
    rw [firstAmong]
    cases here : f (c :: cs) with
    | some b =>
      rw [Option.some_or, Option.some.injEq]
      constructor
      · rintro rfl
        exact ⟨[], c :: cs, rfl, here, fun _ _ _ short => absurd short (Nat.not_lt_zero _)⟩
      · rintro ⟨before, after, split, answer, first⟩
        cases before with
        | nil =>
          rw [List.nil_append] at split
          rw [← split, here] at answer
          exact Option.some.inj answer
        | cons d before =>
          have none := first [] (c :: cs) rfl (Nat.succ_pos _)
          rw [here] at none
          cases none
    | none =>
      rw [Option.none_or, ih]
      constructor
      · rintro ⟨before, after, rfl, answer, first⟩
        refine ⟨c :: before, after, rfl, answer, ?_⟩
        intro earlier later split short
        cases earlier with
        | nil =>
          rw [List.nil_append] at split
          rw [← split]
          exact here
        | cons d earlier =>
          exact first earlier later (List.cons.inj split).2 (Nat.lt_of_succ_lt_succ short)
      · rintro ⟨before, after, split, answer, first⟩
        cases before with
        | nil =>
          rw [List.nil_append] at split
          rw [← split, here] at answer
          cases answer
        | cons d before =>
          obtain ⟨rfl, rest⟩ := List.cons.inj split
          refine ⟨before, after, rest, answer, ?_⟩
          intro earlier later split' short
          exact first (c :: earlier) later (congrArg (c :: ·) split') (Nat.succ_lt_succ short)

end Search

/-- A string template instance at the start of a text. Its digits may be those of any script, with
white space around them. -/
def StartsInstance (digits text : List Char) : Prop :=
  ∃ gap gap' after, (∀ c ∈ gap, isSpace c) ∧ (∀ c ∈ gap', isSpace c) ∧ digits ≠ [] ∧
    (∀ c ∈ digits, isDecimalDigit c) ∧
    text = (fixedStringTemplate ++ "<").toList ++ (gap ++ (digits ++ (gap' ++ '>' :: after)))

/-- A run of characters ends before one that is not of its kind. -/
theorem run_eq {p : Char → Bool} {body rest : List Char} (inside : ∀ c ∈ body, p c = true)
    (boundary : ∀ c ∈ rest.head?, p c = false) :
    (body ++ rest).takeWhile p = body ∧ (body ++ rest).dropWhile p = rest := by
  rw [List.takeWhile_append_of_pos inside, List.dropWhile_append_of_pos inside]
  cases rest with
  | nil => simp
  | cons c rest => simp [boundary c rfl]

theorem capacityDigits?_eq_some_iff {text digits : List Char} :
    capacityDigits? text = some digits ↔ StartsInstance digits text := by
  constructor
  · intro h
    unfold capacityDigits? at h
    split at h
    · cases h
    · rename_i rest literal
      rw [afterLiteral_eq_some_iff] at literal
      dsimp only at h
      split at h
      · rename_i after nonempty closing
        cases h
        refine ⟨rest.takeWhile isSpace,
          ((rest.dropWhile isSpace).dropWhile isDecimalDigit).takeWhile isSpace, after,
          List.all_eq_true.mp List.all_takeWhile, List.all_eq_true.mp List.all_takeWhile, ?_,
          List.all_eq_true.mp List.all_takeWhile, ?_⟩
        · rw [nonempty]
          exact List.cons_ne_nil _ _
        · rw [← closing, List.takeWhile_append_dropWhile, List.takeWhile_append_dropWhile,
            List.takeWhile_append_dropWhile]
          exact literal
      · cases h
  · rintro ⟨gap, gap', after, hgap, hgap', nonempty, hdigits, rfl⟩
    obtain ⟨d, ds, rfl⟩ := List.exists_cons_of_ne_nil nonempty
    have literal : afterLiteral (fixedStringTemplate ++ "<").toList
        ((fixedStringTemplate ++ "<").toList ++ (gap ++ (d :: ds ++ (gap' ++ '>' :: after)))) =
        some (gap ++ (d :: ds ++ (gap' ++ '>' :: after))) := by
      rw [afterLiteral_eq_some_iff]
    -- Digits are no white space and white space holds no digits, so each run ends where it should.
    have startsDigits : ∀ c ∈ (d :: ds ++ (gap' ++ '>' :: after)).head?, isSpace c = false := by
      intro c hc
      cases hc
      exact isSpace_of_isDecimalDigit (hdigits d List.mem_cons_self)
    have endsDigits : ∀ c ∈ (gap' ++ '>' :: after).head?, isDecimalDigit c = false := by
      intro c hc
      cases gap' with
      | nil =>
        cases hc
        decide
      | cons b gap' =>
        cases hc
        exact isDecimalDigit_of_isSpace (hgap' c List.mem_cons_self)
    have endsGap : ∀ c ∈ ('>' :: after).head?, isSpace c = false := by
      intro c hc
      cases hc
      decide
    rw [capacityDigits?, literal]
    dsimp only
    rw [(run_eq hgap startsDigits).2, (run_eq hdigits endsDigits).1, (run_eq hdigits endsDigits).2,
      (run_eq hgap' endsGap).2]
    rfl

/-- What a digit string stands for: ASCII digits only, and within the bound. -/
structure Denotes (digits : List Char) (n : Nat) : Prop where
  ascii : ∀ c ∈ digits, c.isDigit
  value : decimalValue digits = n
  bounded : n < capacityBound

theorem capacity?_eq_some_iff {digits : List Char} {n : Nat} :
    capacity? digits = some n ↔ Denotes digits n := by
  unfold capacity?
  constructor
  · intro h
    split at h
    · rename_i fits
      rw [Bool.and_eq_true, List.all_eq_true, decide_eq_true_eq] at fits
      cases h
      exact ⟨fits.1, rfl, fits.2⟩
    · cases h
  · rintro ⟨ascii, rfl, bounded⟩
    rw [if_pos]
    rw [Bool.and_eq_true, List.all_eq_true, decide_eq_true_eq]
    exact ⟨ascii, bounded⟩

/-- Somewhere in a type stands an instance with that number. -/
def Mentions (type : String) (n : Nat) : Prop :=
  ∃ before after digits, type.toList = before ++ after ∧ StartsInstance digits after ∧
    Denotes digits n

/-- The number stands in the first instance of a type. -/
def MentionsFirst (type : String) (n : Nat) : Prop :=
  ∃ before after digits, type.toList = before ++ after ∧ StartsInstance digits after ∧
    Denotes digits n ∧
    ∀ earlier later digits', type.toList = earlier ++ later → earlier.length < before.length →
      ¬StartsInstance digits' later

theorem fixedString_mem_classify {type : String} {n : Nat} :
    fixedString n ∈ classify type ↔ MentionsFirst type n := by
  have found : fixedString n ∈ classify type ↔
      (firstAmong capacityDigits? type.toList).bind capacity? = some n := by
    simp [classify]
  rw [found, Option.bind_eq_some_iff]
  constructor
  · rintro ⟨digits, first, number⟩
    obtain ⟨before, after, split, starts, none⟩ := firstAmong_eq_some_iff.mp first
    refine ⟨before, after, digits, split, capacityDigits?_eq_some_iff.mp starts,
      capacity?_eq_some_iff.mp number, ?_⟩
    intro earlier later digits' split' short instead
    rw [← capacityDigits?_eq_some_iff, none earlier later split' short] at instead
    cases instead
  · rintro ⟨before, after, digits, split, starts, number, none⟩
    refine ⟨digits, firstAmong_eq_some_iff.mpr ⟨before, after, split, ?_, ?_⟩,
      capacity?_eq_some_iff.mpr number⟩
    · exact capacityDigits?_eq_some_iff.mpr starts
    · intro earlier later split' short
      rw [Option.eq_none_iff_forall_ne_some]
      intro digits' instead
      exact none earlier later digits' split' short (capacityDigits?_eq_some_iff.mp instead)

end TypePattern

namespace Metadata

theorem mem_capacities_record (m : Metadata) (p : TypePattern) (n : Nat) :
    n ∈ (m.record p).1.capacities.elems ↔ n ∈ m.capacities.elems ∨ p = .fixedString n := by
  cases p with
  | fixedString capacity =>
    rw [TypePattern.fixedString.injEq, eq_comm, or_comm]
    exact SortedSet.mem_insert _ _ _
  | sequence element => simp [record]

theorem mem_capacities_recordType (m : Metadata) (type : String) (n : Nat) :
    n ∈ (m.recordType type).capacities.elems ↔
      n ∈ m.capacities.elems ∨ TypePattern.MentionsFirst type n := by
  rw [← TypePattern.fixedString_mem_classify, recordType]
  induction TypePattern.classify type generalizing m with
  | nil => simp
  | cons p ps ih =>
    rw [List.foldl_cons, ih, mem_capacities_record, List.mem_cons, or_assoc, eq_comm]

end Metadata

end ReflectGen
