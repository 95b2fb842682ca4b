import Mathlib.Logic.Function.Iterate
import ReflectGen.Proofs.WrittenRows

namespace ReflectGen.Emit

inductive Operation where
  | line (text : String)
  | blank
  | openScope (opening : String) (closing : Option String)
  | openBlock (header : String)
  | type (r : TypeRecord)
  | close
  deriving DecidableEq

/-- The number of open scopes after an operation. There is none if a scope is to be closed and none
is open. -/
def Operation.openAfter : Nat → Operation → Option Nat
  | n, openScope _ _ | n, openBlock _ => some (n + 1)
  | 0, close => none
  | n + 1, close => some n
  | n, _ => some n

/-- The number of open scopes after a program, if it closes only scopes that it opened or found
open. -/
def openScopes (n : Nat) (program : List Operation) : Option Nat :=
  program.foldlM Operation.openAfter n

namespace CodeWriter

def perform (w : CodeWriter) : Operation → CodeWriter
  | .line text => w.line text
  | .blank => w.line ""
  | .openScope opening closing => w.openScope opening closing
  | .openBlock header => w.openBlock header
  | .type r => w.write (typeBlock r)
  | .close => w.closeScope

def performAll (w : CodeWriter) (program : List Operation) : CodeWriter := program.foldl perform w

/-- What `w` wrote and opened, below the lines and inside the scopes of `base`. -/
def onto (base w : CodeWriter) : CodeWriter where
  indent := base.indent
  depth := base.depth + w.depth
  lines := base.lines ++ w.lines.map (row base.indent base.depth)
  pending := w.pending ++ base.pending

/-- A writer with the indentation of another that has `n` scopes open, all of them its own. -/
structure Inside (base w : CodeWriter) (n : Nat) : Prop where
  indent : w.indent = base.indent
  depth : w.depth = n
  pending : w.pending.length = n

end CodeWriter

section Rows

variable (indent : String) (d k : Nat)

theorem row_row (text : String) : row indent d (row indent k text) = row indent (d + k) text := by
  have margins : String.join (List.replicate (d + k) indent) =
      String.join (List.replicate d indent) ++ String.join (List.replicate k indent) := by
    rw [List.replicate_add, String.join_append]
  by_cases empty : text = ""
  · simp [row, empty]
  · simp [row, empty, margins, String.append_assoc]

theorem rows_add (l : Layout) : l.rows indent (d + k) = (l.rows indent k).map (row indent d) := by
  induction l generalizing k with
  | done => rfl
  | line text next ih => rw [Layout.rows, Layout.rows, ih, List.map_cons, row_row]
  | scope opening closing body next ihb ihn =>
    have inner : body.rows indent (d + k + 1) = (body.rows indent (k + 1)).map (row indent d) :=
      ihb (k + 1)
    have ends : (closing.toList.map (row indent k)).map (row indent d) =
        closing.toList.map (row indent (d + k)) := by
      rw [List.map_map]
      exact List.map_congr_left fun text _ => row_row indent d k text
    rw [Layout.rows, Layout.rows, inner, ihn, List.map_cons, row_row, List.map_append,
      List.map_append, ends]

end Rows

namespace CodeWriter

section Onto

variable {base w : CodeWriter} {n : Nat}

theorem onto_fresh : base.onto { indent := base.indent } = base := by
  simp [onto]

theorem inside_fresh : Inside base { indent := base.indent } 0 := ⟨rfl, rfl, rfl⟩

theorem line_eq (w : CodeWriter) (text : String) :
    w.line text = { w with lines := w.lines ++ [row w.indent w.depth text] } := rfl

theorem line_onto (same : w.indent = base.indent) (text : String) :
    (base.onto w).line text = base.onto (w.line text) := by
  have moved := row_row base.indent base.depth w.depth text
  simp [line_eq, onto, same, moved]

theorem openScope_onto (same : w.indent = base.indent) (opening : String)
    (closing : Option String) :
    (base.onto w).openScope opening closing = base.onto (w.openScope opening closing) := by
  rw [openScope, line_onto same]
  rfl

theorem write_onto (same : w.indent = base.indent) (l : Layout) :
    (base.onto w).write l = base.onto (w.write l) := by
  have moved := rows_add base.indent base.depth w.depth l
  rw [write_eq, write_eq]
  simp [onto, moved, same]

/-- A scope of the upper writer is closed in it, and at least one level deeper than `base`. -/
theorem closeScope_onto (h : Inside base w (n + 1)) :
    (base.onto w).closeScope = base.onto w.closeScope ∧ Inside base w.closeScope n := by
  obtain ⟨indent, depth, lines, pending⟩ := w
  obtain ⟨rfl, rfl, opened⟩ := h
  obtain ⟨closing, rest, rfl⟩ := List.exists_cons_of_length_eq_add_one opened
  have left : rest.length = n := by simpa using opened
  have lower : base.depth + (n + 1) - 1 = base.depth + n := by omega
  have closed : ({ base.onto ⟨base.indent, n + 1, lines, closing :: rest⟩ with
      depth := base.depth + (n + 1) - 1, pending := rest ++ base.pending } : CodeWriter) =
        base.onto ⟨base.indent, n, lines, rest⟩ := by
    rw [lower]
    rfl
  cases closing with
  | none => exact ⟨closed, rfl, rfl, left⟩
  | some text =>
    refine ⟨?_, rfl, rfl, left⟩
    have same : (⟨base.indent, n, lines, rest⟩ : CodeWriter).indent = base.indent := rfl
    exact (congrArg (line · text) closed).trans (line_onto same text)

/-- One operation of a program does on top of `base` what it does on its own. -/
theorem perform_onto (h : Inside base w n) {op : Operation} {m : Nat}
    (opens : op.openAfter n = some m) :
    (base.onto w).perform op = base.onto (w.perform op) ∧ Inside base (w.perform op) m := by
  cases op with
  | line text =>
    cases opens
    exact ⟨line_onto h.indent text, h.indent, h.depth, h.pending⟩
  | blank =>
    cases opens
    exact ⟨line_onto h.indent "", h.indent, h.depth, h.pending⟩
  | openScope opening closing =>
    cases opens
    exact ⟨openScope_onto h.indent opening closing, h.indent, congrArg (· + 1) h.depth,
      congrArg (· + 1) h.pending⟩
  | openBlock header =>
    cases opens
    refine ⟨?_, h.indent, congrArg (· + 1) h.depth, congrArg (· + 1) h.pending⟩
    show ((base.onto w).line header).openScope _ _ = base.onto ((w.line header).openScope _ _)
    rw [line_onto h.indent, openScope_onto (w := w.line header) h.indent]
  | type r =>
    cases opens
    refine ⟨write_onto h.indent (typeBlock r), ?_⟩
    rw [perform, write_eq]
    exact ⟨h.indent, h.depth, h.pending⟩
  | close =>
    cases n with
    | zero => cases opens
    | succ n =>
      cases opens
      exact closeScope_onto h

theorem performAll_onto (h : Inside base w n) {program : List Operation} {m : Nat}
    (nested : openScopes n program = some m) :
    (base.onto w).performAll program = base.onto (w.performAll program) ∧
      Inside base (w.performAll program) m := by
  induction program generalizing w n with
  | nil =>
    cases nested
    exact ⟨rfl, h⟩
  | cons op program ih =>
    rw [openScopes, List.foldlM_cons] at nested
    obtain ⟨next, opens, nested⟩ := Option.bind_eq_some_iff.mp nested
    obtain ⟨same, inside⟩ := perform_onto h opens
    obtain ⟨rest, ends⟩ := ih inside nested
    refine ⟨?_, ends⟩
    rw [performAll, List.foldl_cons, same]
    exact rest

end Onto

theorem closeAll_eq (w : CodeWriter) :
    w.closeAll = w.performAll (List.replicate w.pending.length .close) := by
  have each (n : Nat) (v : CodeWriter) :
      v.performAll (List.replicate n .close) = closeScope^[n] v := by
    induction n generalizing v with
    | zero => rfl
    | succ n ih =>
      rw [List.replicate_succ, Function.iterate_succ_apply, ← ih]
      rfl
  rw [closeAll, List.foldl_const, each]

end CodeWriter

theorem openScopes_append (n : Nat) (front rest : List Operation) :
    openScopes n (front ++ rest) = (openScopes n front).bind (openScopes · rest) := by
  rw [openScopes, List.foldlM_append]
  rfl

theorem openScopes_replicate_close (n : Nat) :
    openScopes n (List.replicate n .close) = some 0 := by
  induction n with
  | zero => rfl
  | succ n ih => exact ih

/-- A program on a writer keeps its lines, its depth and the scopes that it has open, and adds the
lines that a fresh writer gets, each of them moved in by the depth unless it is empty. Whatever a
program leaves open is closed at its end. No scope is closed at the depth where the program began,
so the depth can always go down. -/
theorem CodeWriter.program_moved_in (w : CodeWriter) {program : List Operation} {left : Nat}
    (nested : openScopes 0 program = some left) :
    let fresh : CodeWriter := { indent := w.indent }
    let whole := program ++ List.replicate left .close
    w.performAll whole =
        { w with lines := w.lines ++ (fresh.performAll whole).lines.map (row w.indent w.depth) } ∧
      (∀ before after, before ++ .close :: after = whole →
        w.depth < (w.performAll before).depth) ∧
      fresh.performAll whole = (fresh.performAll program).closeAll := by
  intro fresh whole
  have begins : w.onto fresh = w := onto_fresh
  have closes : openScopes 0 whole = some 0 := by
    rw [openScopes_append, nested]
    exact openScopes_replicate_close left
  refine ⟨?_, ?_, ?_⟩
  · obtain ⟨same, ends⟩ := performAll_onto inside_fresh closes
    rw [begins] at same
    have none_left := List.length_eq_zero_iff.mp ends.pending
    rw [same, onto, ends.depth, none_left]
    rfl
  · intro before after split
    rw [← split, openScopes_append] at closes
    obtain ⟨n, opened, closes⟩ := Option.bind_eq_some_iff.mp closes
    obtain ⟨same, inside⟩ := performAll_onto inside_fresh opened
    rw [begins] at same
    have deeper : (w.performAll before).depth = w.depth + n := by
      rw [same, ← inside.depth]
      rfl
    cases n with
    | zero => cases closes
    | succ n => omega
  · have inside : Inside w (fresh.performAll program) left :=
      (performAll_onto inside_fresh nested).2
    rw [closeAll_eq, inside.pending]
    exact List.foldl_append

/-- A function that is left from within its inner scope, in a writer that is two levels deep. -/
def interruptedFunction : List Operation :=
  [.openBlock "void f()", .openScope "if (x)" none, .blank,
    .type ⟨"Foo", [⟨"a", .plain, none⟩]⟩]

def deepWriter : CodeWriter := ⟨"\t", 2, ["a", "\tb"], [some "end", none]⟩

theorem interruptedFunction_moved_in :
    openScopes 0 interruptedFunction = some 2 ∧
      deepWriter.performAll (interruptedFunction ++ [.close, .close]) =
        { deepWriter with
          lines := ["a", "\tb", "\t\tvoid f()", "\t\t\x7b", "\t\t\tif (x)", "",
            "\t\t\t\tBEGIN_SERIALIZE_TYPE(Foo)", "\t\t\t\t\tSERIALIZE_FIELD(Foo, a)",
            "\t\t\t\tEND_SERIALIZE_TYPE(Foo)", "\t\t\x7d"] } := by
  have nested : openScopes 0 interruptedFunction = some 2 := rfl
  exact ⟨nested, (deepWriter.program_moved_in nested).1.trans (by decide)⟩

end ReflectGen.Emit
