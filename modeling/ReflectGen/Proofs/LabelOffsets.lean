import Mathlib.Data.List.DropRight
import ReflectGen.Parse.Lowering
import ReflectGen.Proofs.TextLines
import ReflectGen.Proofs.TextPlaces

namespace ReflectGen

namespace Text

section Feeds

variable {rows : List (List Char)} {line : List Char} {row : Nat}

/-- Each line in front of another has one line feed. -/
theorem Lined.count_take (h : Lined rows) (there : row < rows.length) :
    (rows.take row).flatten.count '\n' = row := by
  induction h generalizing row with
  | empty => cases there
  | unended some plain =>
    obtain rfl : row = 0 := Nat.lt_one_iff.mp there
    rfl
  | ended plain later ih =>
    cases row with
    | zero => rfl
    | succ row =>
      rw [List.take_succ_cons, List.flatten_cons, List.count_append, List.count_append,
        List.count_eq_zero_of_not_mem plain, ih (Nat.lt_of_succ_lt_succ there)]
      simp [Nat.add_comm]

/-- The line feed of a line is its last character. -/
theorem Lined.count_take_of_mem (h : Lined rows) (mem : line ∈ rows) (k : Nat) :
    (line.take k).count '\n' = if '\n' ∈ line ∧ line.length ≤ k then 1 else 0 := by
  induction h with
  | empty => cases mem
  | unended some plain =>
    rw [List.mem_singleton] at mem
    subst mem
    rw [if_neg fun h => plain h.1]
    exact List.count_eq_zero_of_not_mem fun feed => plain (List.mem_of_mem_take feed)
  | @ended body rest plain later ih =>
    rcases List.mem_cons.mp mem with rfl | mem
    · by_cases whole : (body ++ ['\n']).length ≤ k
      · rw [if_pos ⟨by simp, whole⟩, List.take_of_length_le whole, List.count_append,
          List.count_eq_zero_of_not_mem plain]
        rfl
      · rw [if_neg fun h => whole h.2]
        rw [List.length_append, List.length_singleton] at whole
        rw [List.take_append_of_le_length (by omega)]
        exact List.count_eq_zero_of_not_mem fun feed => plain (List.mem_of_mem_take feed)
    · exact ih mem

theorem spot_eq (xs : List Char) :
    spot xs = (xs.count '\n', byteLength (xs.rtakeWhile (· ≠ '\n'))) := by
  induction xs using List.reverseRecOn with
  | nil => rfl
  | append_singleton xs c ih =>
    rw [spot_append, ih, List.count_append]
    by_cases feed : c = '\n'
    · subst feed
      have here : spot ['\n'] = (1, 0) := rfl
      rw [here, List.rtakeWhile_concat_neg _ _ _ (by simp)]
      rfl
    · have here : spot [c] = (0, c.utf8Size) := by simp [spot, feed]
      rw [here, List.rtakeWhile_concat_pos _ _ _ (by simpa using feed), byteLength_append]
      simp [feed]

end Feeds

end Text

namespace Report

open Text

theorem charsWithin_of_le {n : Nat} {cs : List Char} (h : byteLength cs ≤ n) :
    charsWithin n cs = cs.length := by
  induction cs generalizing n with
  | nil => rfl
  | cons c cs ih =>
    rw [byteLength_cons] at h
    rw [charsWithin, if_pos (by omega), ih (by omega), List.length_cons]

theorem charsWithin_lt {n : Nat} {cs : List Char} (h : n < byteLength cs) :
    charsWithin n cs < cs.length := by
  induction cs generalizing n with
  | nil => cases h
  | cons c cs ih =>
    rw [byteLength_cons] at h
    rw [charsWithin, List.length_cons]
    split
    · exact Nat.succ_lt_succ (ih (by omega))
    · exact Nat.succ_pos _

theorem length_le_charsWithin_iff {n : Nat} {cs : List Char} :
    cs.length ≤ charsWithin n cs ↔ byteLength cs ≤ n := by
  refine ⟨fun h => ?_, fun h => (charsWithin_of_le h).ge⟩
  by_contra past
  exact Nat.not_lt.mpr h (charsWithin_lt (Nat.not_le.mp past))

/-- In front of the offset stand the earlier lines and the part of the line that the column
covers. -/
theorem take_offsetInLines {rows : List (List Char)} {line : List Char} {row : Nat} (column : Nat)
    (h : rows[row]? = some line) :
    rows.flatten.take (offsetInLines column row rows) =
      (rows.take row).flatten ++ line.take (charsWithin column line) := by
  induction rows generalizing row with
  | nil => cases h
  | cons first rows ih =>
    cases row with
    | zero =>
      obtain rfl : first = line := Option.some.inj h
      rw [offsetInLines, List.flatten_cons, List.take_append_of_le_length]
      · rfl
      · by_cases past : byteLength first ≤ column
        · exact (charsWithin_of_le past).le
        · exact (charsWithin_lt (Nat.not_le.mp past)).le
    | succ row =>
      rw [offsetInLines, List.flatten_cons, List.take_length_add_append, ih h,
        List.take_succ_cons, List.flatten_cons, List.append_assoc]

theorem charsWithin_zero (cs : List Char) : charsWithin 0 cs = 0 := by
  cases cs with
  | nil => rfl
  | cons c cs => rw [charsWithin, if_neg (Nat.not_le.mpr c.utf8Size_pos)]

/-- A column past the line is read as the start of the next line. -/
theorem offsetInLines_past {rows : List (List Char)} {line : List Char} {row column : Nat}
    (h : rows[row]? = some line) (past : byteLength line ≤ column) :
    offsetInLines column row rows = offsetInLines 0 (row + 1) rows := by
  induction rows generalizing row with
  | nil => cases h
  | cons first rows ih =>
    cases row with
    | zero =>
      obtain rfl : first = line := Option.some.inj h
      have next : offsetInLines 0 0 rows = 0 := by
        cases rows with
        | nil => rfl
        | cons second rows => exact charsWithin_zero second
      rw [offsetInLines, offsetInLines, charsWithin_of_le past, next]
      rfl
    | succ row => rw [offsetInLines, offsetInLines, ih h]

/-- A label starts on its line, unless the line is ended and the column lies past the line feed. It
starts where the next line does then. -/
theorem label_line (source line : List Char) (row column : Nat)
    (h : (lines source)[row]? = some line) :
    (source.take (charOffset source (row + 1) column)).count '\n' =
        (if '\n' ∈ line ∧ byteLength line < column then row + 1 else row) ∧
      (byteLength line < column →
        charOffset source (row + 1) column = charOffset source (row + 2) 1) := by
  have lined := lined_lines source
  obtain ⟨there, found⟩ := List.getElem?_eq_some_iff.mp h
  have front := take_offsetInLines (column - 1) h
  rw [flatten_lines] at front
  refine ⟨?_, fun past => offsetInLines_past h (Nat.le_sub_one_of_lt past)⟩
  rw [charOffset, front, List.count_append, lined.count_take there,
    lined.count_take_of_mem (found ▸ List.getElem_mem there)]
  simp only [length_le_charsWithin_iff]
  by_cases feed : '\n' ∈ line
  · have some : 0 < byteLength line := byteLength_pos (List.ne_nil_of_mem feed)
    have past : byteLength line ≤ column - 1 ↔ byteLength line < column := by omega
    simp only [feed, past, true_and]
    split <;> rfl
  · simp [feed]

section HiddenType

/-- The prepared text has the name of the inner type in column 66. -/
def hiddenTypeSource : List Char :=
  "class A { SERIALIZE_STRUCT() struct B { int x; }; };\nint y;\n".toList

def hiddenTypeLine : List Char := hiddenTypeSource.take 53

theorem hiddenType_labelled_below :
    (lines hiddenTypeSource)[0]? = some hiddenTypeLine ∧
      (hiddenTypeSource.take (charOffset hiddenTypeSource 1 66)).count '\n' ≠ 0 := by
  decide +kernel

theorem hiddenType_label_line :
    (lines hiddenTypeSource)[0]? = some hiddenTypeLine ∧
      (hiddenTypeSource.take (charOffset hiddenTypeSource 1 37)).count '\n' = 0 ∧
      (hiddenTypeSource.take (charOffset hiddenTypeSource 1 66)).count '\n' = 1 ∧
      charOffset hiddenTypeSource 1 66 = charOffset hiddenTypeSource 2 1 := by
  have there : (lines hiddenTypeSource)[0]? = some hiddenTypeLine := by decide +kernel
  refine ⟨there, (label_line _ _ 0 37 there).1.trans ?_, (label_line _ _ 0 66 there).1.trans ?_,
    (label_line _ _ 0 66 there).2 ?_⟩ <;>
    decide +kernel

end HiddenType

/-- The line and column at which a parser reports a character lead back to it, also from a column
inside the character. -/
theorem position_leads_back (before after : List Char) :
    position (byteLength before) (before ++ after) =
        (before.count '\n', byteLength (before.rtakeWhile (· ≠ '\n'))) ∧
      (∀ (path : Path) (n : Parse.Node), n.start = byteLength before →
        Parse.SourceFile.place ⟨path, before ++ after⟩ n =
          ⟨path, before.count '\n' + 1, byteLength (before.rtakeWhile (· ≠ '\n')) + 1⟩) ∧
      charOffset (before ++ after) (before.count '\n' + 1)
        (byteLength (before.rtakeWhile (· ≠ '\n')) + 1) = before.length ∧
      ∀ c rest k, after = c :: rest → k < c.utf8Size →
        charOffset (before ++ after) (before.count '\n' + 1)
          (byteLength (before.rtakeWhile (· ≠ '\n')) + k + 1) = before.length := by
  have reported := position_append before after
  have boundary := charOffset_spot before after
  rw [spot_eq] at reported boundary
  refine ⟨reported, fun path n start => ?_, boundary, fun c rest k first inside => ?_⟩
  · simp only [Parse.SourceFile.place, start, reported]
  · subst first
    have within := charOffset_spot_add before (c :: rest) (k := k) (by simpa using inside)
    rw [spot_eq] at within
    exact within

/-- Behind `ü` on the second line, and between the two bytes of it. -/
theorem umlaut_leads_back :
    charOffset "// ä\n/ü/".toList 2 4 = 7 ∧ charOffset "// ä\n/ü/".toList 2 3 = 6 :=
  ⟨(position_leads_back "// ä\n/ü".toList "/".toList).2.2.1,
    (position_leads_back "// ä\n/".toList "ü/".toList).2.2.2 'ü' ['/'] 1 rfl (by decide)⟩

end Report

end ReflectGen
