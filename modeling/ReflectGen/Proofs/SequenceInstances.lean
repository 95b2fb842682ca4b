import ReflectGen.Emit.Registration
import ReflectGen.Proofs.StringInstances

namespace ReflectGen

namespace Text

theorem isDecimalDigit_of_isDigit {c : Char} (h : c.isDigit = true) : isDecimalDigit c = true := by
  obtain ⟨low, high⟩ := Char.isDigit_iff_toNat.mp h
  refine List.any_eq_true.mpr ⟨(0x30, 0x39), List.mem_cons_self, ?_⟩
  rw [Bool.and_eq_true, decide_eq_true_eq, decide_eq_true_eq]
  exact ⟨low, high⟩

end Text

namespace TypePattern

open Text

section LastOccurrence

variable {c : Char} {cs before after : List Char}

theorem beforeLast?_eq_none_iff : beforeLast? c cs = none ↔ c ∉ cs := by
  induction cs with
  | nil => simp [beforeLast?]
  | cons d ds ih =>
    rw [beforeLast?, List.mem_cons, not_or, ← ih]
    cases beforeLast? c ds with
    | some before => simp
    | none => simp [eq_comm]

theorem beforeLast?_append (h : c ∉ after) :
    beforeLast? c (before ++ c :: after) = some before := by
  induction before with
  | nil => rw [List.nil_append, beforeLast?, beforeLast?_eq_none_iff.mpr h, if_pos rfl]
  | cons d before ih => rw [List.cons_append, beforeLast?, ih]

theorem exists_of_beforeLast? (h : beforeLast? c cs = some before) :
    ∃ after, cs = before ++ c :: after ∧ c ∉ after := by
  induction cs generalizing before with
  | nil => cases h
  | cons d ds ih =>
    rw [beforeLast?] at h
    cases later : beforeLast? c ds with
    | some inner =>
      rw [later] at h
      cases h
      obtain ⟨after, split, last⟩ := ih later
      exact ⟨after, congrArg (d :: ·) split, last⟩
    | none =>
      rw [later] at h
      by_cases here : d = c
      · rw [if_pos here] at h
        cases h
        exact ⟨ds, by rw [here]; rfl, beforeLast?_eq_none_iff.mp later⟩
      · rw [if_neg here] at h
        cases h

end LastOccurrence

/-- What stands in a text before its first line feed. -/
def restOfLine (text : List Char) : List Char := text.takeWhile (· ≠ '\n')

theorem restOfLine_append {body : List Char} (h : '\n' ∉ body) (text : List Char) :
    restOfLine (body ++ text) = body ++ restOfLine text := by
  apply List.takeWhile_append_of_pos
  intro c hc
  exact decide_eq_true fun feed => h (feed ▸ hc)

theorem notMem_restOfLine (text : List Char) : '\n' ∉ restOfLine text := by
  intro h
  have all := List.all_eq_true.mp (List.all_takeWhile (p := (· ≠ '\n')) (l := text))
  exact absurd rfl (of_decide_eq_true (all _ h))

/-- A text is the rest of its line and what comes after it, which starts with a line feed. -/
theorem exists_restOfLine (text : List Char) :
    ∃ below, text = restOfLine text ++ below ∧ restOfLine below = [] := by
  refine ⟨text.dropWhile (· ≠ '\n'), List.takeWhile_append_dropWhile.symm, ?_⟩
  have stop := List.head?_dropWhile_not (· ≠ '\n') text
  cases hb : text.dropWhile (· ≠ '\n') with
  | nil => rfl
  | cons c below =>
    rw [hb] at stop
    exact List.takeWhile_cons_of_neg (Bool.not_eq_true _ ▸ stop)

/-- At the start of a text stands the template with some element on the same line. -/
def OpensSequence (text : List Char) : Prop :=
  ∃ body after, body ≠ "" ∧ '\n' ∉ body.toList ∧ text = (Emit.sequence body).toList ++ after

/-- At the start of a text stands an instance with that element, which runs to the last `>` of the
line. -/
def StartsSequence (element : String) (text : List Char) : Prop :=
  ∃ after, element ≠ "" ∧ '\n' ∉ element.toList ∧ '>' ∉ restOfLine after ∧
    text = (Emit.sequence element).toList ++ after

theorem toList_sequence_append (element : String) (after : List Char) :
    (Emit.sequence element).toList ++ after =
      (sequenceTemplate ++ "<").toList ++ (element.toList ++ '>' :: after) := by
  simp [Emit.sequence]

/-- After the opening of the template it is the last `>` of the line that counts. -/
theorem element?_append {body : String} (h : '\n' ∉ body.toList) (after : List Char) :
    element? ((Emit.sequence body).toList ++ after) =
      (beforeLast? '>' (body.toList ++ '>' :: restOfLine after)).filter (· ≠ []) := by
  have literal : afterLiteral (sequenceTemplate ++ "<").toList
      ((Emit.sequence body).toList ++ after) = some (body.toList ++ '>' :: after) := by
    rw [afterLiteral_eq_some_iff, toList_sequence_append]
  have closing : '\n' ∉ body.toList ++ ['>'] := by simp [h]
  have line : restOfLine (body.toList ++ '>' :: after) =
      body.toList ++ '>' :: restOfLine after := by
    have split := restOfLine_append closing after
    rw [List.append_assoc, List.append_assoc] at split
    exact split
  rw [element?, literal]
  exact congrArg (fun line => (beforeLast? '>' line).filter (· ≠ [])) line

theorem element?_eq_some_iff {text : List Char} {element : String} :
    element? text = some element.toList ↔ StartsSequence element text := by
  constructor
  · intro h
    unfold element? at h
    split at h
    · cases h
    · rename_i rest literal
      rw [afterLiteral_eq_some_iff] at literal
      obtain ⟨last, nonempty⟩ := Option.filter_eq_some_iff.mp h
      obtain ⟨tail, line, none⟩ := exists_of_beforeLast? last
      obtain ⟨below, split, ends⟩ := exists_restOfLine rest
      have noFeed := notMem_restOfLine rest
      change restOfLine rest = _ at line
      rw [line] at split noFeed
      simp only [List.mem_append, List.mem_cons, not_or] at noFeed
      refine ⟨tail ++ below, ?_, noFeed.1, ?_, ?_⟩
      · rintro rfl
        exact absurd rfl (of_decide_eq_true nonempty)
      · rw [restOfLine_append noFeed.2.2, ends, List.append_nil]
        exact none
      · rw [literal, split, toList_sequence_append, List.append_assoc, List.cons_append]
  · rintro ⟨after, nonempty, oneLine, last, rfl⟩
    rw [element?_append oneLine, beforeLast?_append last, Option.filter_some_pos]
    exact decide_eq_true (mt String.toList_eq_nil_iff.mp nonempty)

theorem element?_eq_none_iff {text : List Char} : element? text = none ↔ ¬OpensSequence text := by
  constructor
  · rintro none ⟨body, after, nonempty, oneLine, rfl⟩
    rw [element?_append oneLine] at none
    cases found : beforeLast? '>' (body.toList ++ '>' :: restOfLine after) with
    | none =>
      have closed : '>' ∈ body.toList ++ '>' :: restOfLine after := by simp
      exact beforeLast?_eq_none_iff.mp found closed
    | some element =>
      -- The last `>` of the line is not the one right after the opening, as more comes before it.
      obtain ⟨tail, split, last⟩ := exists_of_beforeLast? found
      have empty : element = [] := by simpa [found] using none
      obtain ⟨c, cs, hc⟩ := List.exists_cons_of_ne_nil (mt String.toList_eq_nil_iff.mp nonempty)
      rw [hc, empty, List.nil_append, List.cons_append] at split
      have later : '>' ∈ tail := by simp [← (List.cons.inj split).2]
      exact last later
  · intro closed
    rw [Option.eq_none_iff_forall_ne_some]
    intro element found
    rw [← String.toList_ofList (l := element), element?_eq_some_iff] at found
    obtain ⟨after, nonempty, oneLine, -, split⟩ := found
    exact closed ⟨_, after, nonempty, oneLine, split⟩

/-- The element is that of the first place in a type where the template opens. -/
def MentionsSequence (type element : String) : Prop :=
  ∃ before after, type.toList = before ++ after ∧ StartsSequence element after ∧
    ∀ earlier later, type.toList = earlier ++ later → earlier.length < before.length →
      ¬OpensSequence later

theorem sequence_mem_classify {type element : String} :
    sequence element ∈ classify type ↔ MentionsSequence type element := by
  have found : sequence element ∈ classify type ↔
      ∃ cs, firstAmong element? type.toList = some cs ∧ String.ofList cs = element := by
    simp [classify]
  have same : (∃ cs, firstAmong element? type.toList = some cs ∧ String.ofList cs = element) ↔
      firstAmong element? type.toList = some element.toList := by
    constructor
    · rintro ⟨cs, first, rfl⟩
      rw [first, String.toList_ofList]
    · intro first
      exact ⟨_, first, String.ofList_toList⟩
  rw [found, same, firstAmong_eq_some_iff]
  simp only [element?_eq_some_iff, element?_eq_none_iff, MentionsSequence]

section Rendering

theorem firstAmong_of_eq_some {α : Type} {f : List Char → Option α} {cs : List Char} {a : α}
    (h : f cs = some a) : firstAmong f cs = some a := by
  rw [firstAmong_eq_some_iff]
  exact ⟨[], cs, rfl, h, fun _ _ _ short => absurd short (Nat.not_lt_zero _)⟩

theorem decimalValue_toDigits (n : Nat) : decimalValue (Nat.toDigits 10 n) = n :=
  Nat.ofDigitChars_ten_toDigits

theorem isDigit_of_mem_toDigits {n : Nat} {c : Char} (h : c ∈ Nat.toDigits 10 n) :
    c.isDigit = true :=
  Nat.isDigit_of_mem_toDigits (by decide) (by decide) h

theorem toList_fixedString (n : Nat) :
    (Emit.fixedString n).toList =
      (fixedStringTemplate ++ "<").toList ++ (Nat.toDigits 10 n ++ ['>']) := by
  simp [Emit.fixedString]

theorem startsInstance_fixedString (n : Nat) :
    StartsInstance (Nat.toDigits 10 n) (Emit.fixedString n).toList := by
  refine ⟨[], [], [], nofun, nofun, Nat.toDigits_ne_nil, ?_, toList_fixedString n⟩
  intro c hc
  exact isDecimalDigit_of_isDigit (isDigit_of_mem_toDigits hc)

theorem denotes_toDigits {n : Nat} (h : n < capacityBound) : Denotes (Nat.toDigits 10 n) n :=
  ⟨fun _ hc => isDigit_of_mem_toDigits hc, decimalValue_toDigits n, h⟩

/-- No sequence opens inside the name of a string instance, as it has no colon. -/
theorem not_opensSequence_fixedString {n : Nat} {before after : List Char}
    (split : (Emit.fixedString n).toList = before ++ after) : ¬OpensSequence after := by
  rintro ⟨body, rest, -, -, rfl⟩
  have opening : ':' ∈ (sequenceTemplate ++ "<").toList := by decide +kernel
  have colon : ':' ∈ (Emit.fixedString n).toList := by
    rw [split, toList_sequence_append]
    exact List.mem_append_right _ (List.mem_append_left _ opening)
  rw [toList_fixedString] at colon
  rcases List.mem_append.mp colon with inTemplate | colon
  · exact absurd inTemplate (by decide +kernel)
  · rcases List.mem_append.mp colon with digit | closing
    · exact absurd (isDigit_of_mem_toDigits digit) (by decide)
    · exact absurd closing (by decide)

theorem classify_fixedString {n : Nat} (h : n < capacityBound) :
    classify (Emit.fixedString n) = [fixedString n] := by
  have digits : firstAmong capacityDigits? (Emit.fixedString n).toList =
      some (Nat.toDigits 10 n) :=
    firstAmong_of_eq_some (capacityDigits?_eq_some_iff.mpr (startsInstance_fixedString n))
  have none : firstAmong element? (Emit.fixedString n).toList = none := by
    rw [Option.eq_none_iff_forall_ne_some]
    intro element found
    obtain ⟨before, after, split, answer, -⟩ := firstAmong_eq_some_iff.mp found
    have closed := element?_eq_none_iff.mpr (not_opensSequence_fixedString split)
    rw [closed] at answer
    cases answer
  rw [classify, digits, none, Option.bind_some, capacity?_eq_some_iff.mpr (denotes_toDigits h)]
  rfl

theorem getLast?_classify_sequence {element : String} (nonempty : element ≠ "")
    (oneLine : '\n' ∉ element.toList) :
    (classify (Emit.sequence element)).getLast? = some (sequence element) := by
  have starts : StartsSequence element (Emit.sequence element).toList :=
    ⟨[], nonempty, oneLine, nofun, (List.append_nil _).symm⟩
  rw [classify, firstAmong_of_eq_some (element?_eq_some_iff.mpr starts), List.getLast?_append]
  simp

end Rendering

/-- Types are read as they are written. The name of a string instance is read as that instance and
nothing else, the name of a sequence last of all as that sequence, and in any type the first
instance of each template counts, that of a sequence with the longest element. -/
theorem classify_agrees_with_rendering :
    (∀ n < UInt32.size, classify (Emit.fixedString n) = [fixedString n]) ∧
      (∀ element : String, element ≠ "" → '\n' ∉ element.toList →
        (classify (Emit.sequence element)).getLast? = some (sequence element)) ∧
      (∀ type element, sequence element ∈ classify type ↔ MentionsSequence type element) ∧
      ∀ type n, fixedString n ∈ classify type ↔ MentionsFirst type n := by
  refine ⟨?_, ?_, fun _ _ => sequence_mem_classify, fun _ _ => fixedString_mem_classify⟩
  · intro n fits
    exact classify_fixedString fits
  · intro element nonempty oneLine
    exact getLast?_classify_sequence nonempty oneLine

theorem nested_instances_read :
    classify (Emit.fixedString 4294967295) = [fixedString 4294967295] ∧
      (classify (Emit.sequence "hrt::vector<SerializedString<7>>")).getLast? =
        some (sequence "hrt::vector<SerializedString<7>>") ∧
      MentionsSequence "f(hrt::vector<>, hrt::vector<int>)" ">, hrt::vector<int" ∧
      MentionsFirst "hrt::vector<SerializedString< 007 >>" 7 := by
  obtain ⟨strings, sequences, elements, capacities⟩ := classify_agrees_with_rendering
  refine ⟨strings _ (by decide), sequences _ (by decide) (by decide +kernel), ?_, ?_⟩
  · exact (elements _ _).mp (by decide +kernel)
  · exact (capacities _ _).mp (by decide +kernel)

end TypePattern

end ReflectGen
