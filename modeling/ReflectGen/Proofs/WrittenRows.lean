import Mathlib.Data.List.Basic
import ReflectGen.Emit.Registration

namespace ReflectGen.Emit

/-- A text at a depth; an empty one gets no indentation. -/
def row (indent : String) (depth : Nat) (text : String) : String :=
  if text = "" then "" else String.join (List.replicate depth indent) ++ text

namespace Layout

def rows (indent : String) : Layout → Nat → List String
  | done, _ => []
  | line text next, depth => row indent depth text :: next.rows indent depth
  | scope opening closing body next, depth =>
    row indent depth opening :: (body.rows indent (depth + 1) ++
      (closing.toList.map (row indent depth) ++ next.rows indent depth))

section Rows

variable (indent : String) (depth : Nat)

theorem rows_append (a b : Layout) :
    (a ++ b).rows indent depth = a.rows indent depth ++ b.rows indent depth := by
  induction a with
  | done => rfl
  | line text next ih =>
    show row indent depth text :: (next ++ b).rows indent depth = _
    rw [ih]
    rfl
  | scope opening closing body next _ ih =>
    show row indent depth opening :: (body.rows indent (depth + 1) ++
      (closing.toList.map (row indent depth) ++ (next ++ b).rows indent depth)) = _
    rw [ih]
    simp [rows]

theorem rows_lines (texts : List String) :
    (lines texts).rows indent depth = texts.map (row indent depth) := by
  induction texts with
  | nil => rfl
  | cons text texts ih =>
    show row indent depth text :: (lines texts).rows indent depth = _
    rw [ih]
    rfl

theorem rows_blank : blank.rows indent depth = [""] := rfl

theorem rows_concat (parts : List Layout) :
    (concat parts).rows indent depth = parts.flatMap (·.rows indent depth) := by
  induction parts with
  | nil => rfl
  | cons part parts ih =>
    show (part ++ concat parts).rows indent depth = _
    rw [rows_append, ih, List.flatMap_cons]

theorem rows_block (header : String) (body : Layout) :
    (block header body).rows indent depth =
      row indent depth header :: row indent depth "\x7b" ::
        (body.rows indent (depth + 1) ++ [row indent depth "\x7d"]) := rfl

end Rows

end Layout

/-- A writer adds the rows of a layout and ends in the scopes it was in. -/
theorem CodeWriter.write_eq (w : CodeWriter) (l : Layout) :
    w.write l = { w with lines := w.lines ++ l.rows w.indent w.depth } := by
  induction l generalizing w with
  | done => simp [write, Layout.rows]
  | line text next ih =>
    rw [write, ih]
    simp [line, Layout.rows, row]
  | scope opening closing body next ihb ihn =>
    rw [write, ihb, ihn]
    cases closing <;> simp [openScope, closeScope, line, Layout.rows, row]

theorem render_eq (m : Metadata) :
    render m = String.join (((registration m).rows "    " 0).map (· ++ "\n")) := by
  rw [render, CodeWriter.write_eq, CodeWriter.text, List.nil_append]

/-- Codes with a known end of each code word are read off from the left. `proj` is what a code word
tells of what it stands for. -/
theorem flatMap_append_inj {α β γ : Type} {enc : α → List β} (proj : α → γ) {xs ys : List α}
    {s t : List β}
    (reads : ∀ a ∈ xs, ∀ b ∈ ys, ∀ u v, enc a ++ u = enc b ++ v → proj a = proj b ∧ u = v)
    (stops : ∀ a ∈ xs, ∀ u, enc a ++ u ≠ t) (stops' : ∀ b ∈ ys, ∀ u, enc b ++ u ≠ s)
    (h : xs.flatMap enc ++ s = ys.flatMap enc ++ t) : xs.map proj = ys.map proj ∧ s = t := by
  induction xs generalizing ys with
  | nil =>
    cases ys with
    | nil => exact ⟨rfl, h⟩
    | cons b ys =>
      rw [List.flatMap_nil, List.nil_append, List.flatMap_cons, List.append_assoc] at h
      exact absurd h.symm (stops' b List.mem_cons_self _)
  | cons a xs ih =>
    rw [List.flatMap_cons, List.append_assoc] at h
    cases ys with
    | nil => exact absurd h (stops a List.mem_cons_self _)
    | cons b ys =>
      rw [List.flatMap_cons, List.append_assoc] at h
      obtain ⟨hab, hrest⟩ := reads a List.mem_cons_self b List.mem_cons_self _ _ h
      have later := ih (fun a ha b hb => reads a (.tail _ ha) b (.tail _ hb))
        (fun a ha => stops a (.tail _ ha)) (fun b hb => stops' b (.tail _ hb)) hrest
      exact ⟨by rw [List.map_cons, List.map_cons, hab, later.1], later.2⟩

/-- The case of one-letter code words, which another letter ends. -/
theorem map_append_inj {α β γ : Type} {f : α → β} (proj : α → γ)
    (reads : ∀ a b, f a = f b → proj a = proj b) {xs ys : List α} {s t : List β} {x y : β}
    (stops : ∀ a ∈ xs, f a ≠ y) (stops' : ∀ b ∈ ys, f b ≠ x)
    (h : xs.map f ++ x :: s = ys.map f ++ y :: t) :
    xs.map proj = ys.map proj ∧ x :: s = y :: t := by
  rw [List.map_eq_flatMap, List.map_eq_flatMap] at h
  apply flatMap_append_inj proj _ _ _ h
  · intro a _ b _ u v huv
    rw [List.cons_append, List.cons_append, List.cons.injEq] at huv
    exact ⟨reads a b huv.1, huv.2⟩
  · intro a ha u hu
    exact stops a ha (List.cons.inj hu).1
  · intro b hb u hu
    exact stops' b hb (List.cons.inj hu).1

/-- A text that fits on one line. -/
def OneLine (text : String) : Prop := '\n' ∉ text.toList

instance (text : String) : Decidable (OneLine text) :=
  inferInstanceAs (Decidable ('\n' ∉ text.toList))

theorem oneLine_append (a b : String) : OneLine (a ++ b) ↔ OneLine a ∧ OneLine b := by
  simp [OneLine, not_or]

theorem oneLine_toString (n : Nat) : OneLine (toString n) := by
  intro h
  have digit := Nat.isDigit_of_mem_toDigits (b := 10) (n := n) (by decide) (by decide)
    (by simpa [Nat.repr_eq_ofList_toDigits] using h)
  exact absurd digit (by decide)

/-- Rows that hold no line feed are read off their text. -/
theorem join_rows_inj {xs ys : List String} (hx : ∀ x ∈ xs, OneLine x) (hy : ∀ y ∈ ys, OneLine y)
    (h : String.join (xs.map (· ++ "\n")) = String.join (ys.map (· ++ "\n"))) : xs = ys := by
  have flat : ∀ zs : List String, (String.join (zs.map (· ++ "\n"))).toList =
      zs.flatMap (fun z => z.toList ++ ['\n']) ++ [] := by
    intro zs
    simp [String.toList_join, List.flatMap_map]
  have texts := congrArg String.toList h
  rw [flat, flat] at texts
  have read := (flatMap_append_inj id ?_ ?_ ?_ texts).1
  · simpa using read
  · intro a ha b hb u v huv
    have chars : a.toList.map id ++ '\n' :: u = b.toList.map id ++ '\n' :: v := by simpa using huv
    have inA : ∀ c ∈ a.toList, id c ≠ '\n' := by
      intro c hc he
      subst he
      exact hx a ha hc
    have inB : ∀ c ∈ b.toList, id c ≠ '\n' := by
      intro c hc he
      subst he
      exact hy b hb hc
    have line := map_append_inj id (fun _ _ => id) inA inB chars
    rw [List.map_id, List.map_id, String.toList_inj] at line
    exact ⟨line.1, (List.cons.inj line.2).2⟩
  · simp
  · simp

end ReflectGen.Emit
