import ReflectGen.Text.ByteOffset
import ReflectGen.Text.Lines

namespace ReflectGen.Text

theorem lines_append (text rest : List Char) :
    lines (text ++ '\n' :: rest) = lines (text ++ ['\n']) ++ lines rest := by
  induction text with
  | nil => simp [lines]
  | cons c text ih =>
    rw [List.cons_append, List.cons_append, lines, lines]
    split
    · rw [ih, List.cons_append]
    · rw [ih]
      cases first : lines (text ++ ['\n']) with
      | nil =>
        have whole := flatten_lines (text ++ ['\n'])
        simp [first] at whole
      | cons line lines => rfl

theorem lines_of_oneLine {line : List Char} (h : '\n' ∉ line) :
    lines (line ++ ['\n']) = [line ++ ['\n']] := by
  induction line with
  | nil => simp [lines]
  | cons c line ih =>
    rw [List.mem_cons, not_or] at h
    rw [List.cons_append, lines, if_neg (Ne.symm h.1), ih h.2]

theorem lines_of_notMem {line : List Char} (some : line ≠ []) (h : '\n' ∉ line) :
    lines line = [line] := by
  induction line with
  | nil => exact absurd rfl some
  | cons c line ih =>
    rw [List.mem_cons, not_or] at h
    rw [lines, if_neg (Ne.symm h.1)]
    cases line with
    | nil => rfl
    | cons d line => rw [ih (List.cons_ne_nil d line) h.2]

/-- Texts that can be lines one after the other. -/
inductive Lined : List (List Char) → Prop
  | empty : Lined []
  /-- The last line of a text that does not end with a line feed. -/
  | unended {body : List Char} (some : body ≠ []) (plain : '\n' ∉ body) : Lined [body]
  | ended {body : List Char} {rest : List (List Char)} (plain : '\n' ∉ body) (later : Lined rest) :
      Lined ((body ++ ['\n']) :: rest)

theorem lined_lines (cs : List Char) : Lined (lines cs) := by
  induction cs with
  | nil => exact .empty
  | cons c cs ih =>
    rw [lines]
    split
    · rename_i feed
      subst feed
      rw [← List.nil_append ['\n']]
      exact .ended List.not_mem_nil ih
    · rename_i other
      have first : ∀ {body : List Char}, '\n' ∉ body → '\n' ∉ c :: body := by
        intro body plain mem
        rcases List.mem_cons.mp mem with feed | mem
        · exact other feed.symm
        · exact plain mem
      generalize lines cs = rows at ih
      cases ih with
      | empty => exact .unended (List.cons_ne_nil c []) (first List.not_mem_nil)
      | unended some plain => exact .unended (List.cons_ne_nil c _) (first plain)
      | ended plain later => exact .ended (first plain) later

namespace Lined

variable {rows : List (List Char)}

theorem lines_flatten (h : Lined rows) : lines rows.flatten = rows := by
  induction h with
  | empty => rfl
  | unended some plain =>
    rw [List.flatten_singleton]
    exact lines_of_notMem some plain
  | ended plain later ih =>
    rw [List.flatten_cons, List.append_assoc, List.singleton_append, lines_append,
      lines_of_oneLine plain, ih, List.singleton_append]

theorem ne_nil_of_mem (h : Lined rows) {row : List Char} (mem : row ∈ rows) : row ≠ [] := by
  induction h with
  | empty => cases mem
  | unended some plain =>
    rw [List.mem_singleton] at mem
    exact mem ▸ some
  | ended plain later ih =>
    rcases List.mem_cons.mp mem with rfl | mem
    · simp
    · exact ih mem

end Lined

end ReflectGen.Text
