import ReflectGen.Proofs.PreparedPieces

namespace ReflectGen.Source

open Text

/-- The pieces put a declaration for the call behind the text `before`. -/
def Puts (ps : List Piece) (before : List Char) (d : Directive) (call : List Char) : Prop :=
  ∃ qs rs, ps = qs ++ .call d call :: rs ∧ qs.flatMap Piece.read = before

section Puts

variable {ps : List Piece} {before call : List Char} {d : Directive}

theorem not_puts_nil : ¬Puts [] before d call := by
  rintro ⟨qs, rs, split, -⟩
  simp at split

theorem puts_append_iff (ps qs : List Piece) :
    Puts (ps ++ qs) before d call ↔
      Puts ps before d call ∨
        ∃ rest, before = ps.flatMap Piece.read ++ rest ∧ Puts qs rest d call := by
  constructor
  · rintro ⟨xs, ys, split, read⟩
    rcases List.append_eq_append_iff.mp split with ⟨zs, rfl, hqs⟩ | ⟨zs, rfl, hys⟩
    · rw [List.flatMap_append] at read
      exact .inr ⟨zs.flatMap Piece.read, read.symm, zs, ys, hqs, rfl⟩
    · cases zs with
      | nil =>
        refine .inr ⟨[], ?_, [], ys, hys.symm, rfl⟩
        rw [← read, List.append_nil, List.append_nil]
      | cons p zs =>
        rw [List.cons_append, List.cons.injEq] at hys
        rw [← hys.1]
        exact .inl ⟨xs, zs, rfl, read⟩
  · rintro (⟨xs, ys, rfl, read⟩ | ⟨rest, hbefore, xs, ys, rfl, read⟩)
    · exact ⟨xs, ys ++ qs, by simp, read⟩
    · refine ⟨ps ++ xs, ys, by simp, ?_⟩
      rw [List.flatMap_append, read, hbefore]

theorem puts_kept_cons_iff (c : Char) :
    Puts (.kept c :: ps) before d call ↔ ∃ rest, before = c :: rest ∧ Puts ps rest d call := by
  have single : ¬Puts [.kept c] before d call := by
    rintro ⟨qs, rs, split, -⟩
    have mem : Piece.call d call ∈ [Piece.kept c] := by simp [split]
    simp at mem
  have parts : Puts ([.kept c] ++ ps) before d call ↔ _ := puts_append_iff [.kept c] ps
  simpa [single, Piece.read] using parts

theorem puts_call_cons_iff (d₀ : Directive) (text : List Char) :
    Puts (.call d₀ text :: ps) before d call ↔
      (before = [] ∧ d = d₀ ∧ call = text) ∨
        ∃ rest, before = text ++ rest ∧ Puts ps rest d call := by
  have single : Puts [.call d₀ text] before d call ↔ before = [] ∧ d = d₀ ∧ call = text := by
    constructor
    · rintro ⟨qs, rs, split, rfl⟩
      cases qs with
      | nil =>
        rw [List.nil_append, List.cons.injEq, Piece.call.injEq] at split
        exact ⟨rfl, split.1.1.symm, split.1.2.symm⟩
      | cons q qs => simp at split
    · rintro ⟨rfl, rfl, rfl⟩
      exact ⟨[], [], rfl, rfl⟩
  have parts : Puts ([.call d₀ text] ++ ps) before d call ↔ _ := puts_append_iff [.call d₀ text] ps
  simpa [single, Piece.read] using parts

theorem not_puts_kept (cs : List Char) : ¬Puts (cs.map .kept) before d call := by
  rintro ⟨qs, rs, split, -⟩
  have mem : Piece.call d call ∈ cs.map .kept := by simp [split]
  simp at mem

end Puts

section Cut

theorem getLast?_cons_or (c : Char) (xs : List Char) (before : Option Char) :
    (c :: xs).getLast?.or before = xs.getLast?.or (some c) := by
  rw [List.getLast?_cons]
  cases xs.getLast? <;> rfl

theorem piecesFrom_skip (before : Option Char) (xs ys : List Char) :
    piecesFrom before xs.length (xs ++ ys) = piecesFrom (xs.getLast?.or before) 0 ys := by
  induction xs generalizing before with
  | nil => rfl
  | cons c xs ih =>
    rw [getLast?_cons_or, ← ih (some c)]
    rfl

/-- How a text behind `pre` is cut: it starts with a character to keep or with a call. -/
theorem piecesFrom_step (pre : List Char) (c : Char) (cs : List Char) :
    (directiveCall? pre.getLast? (c :: cs) = none ∧
      piecesFrom pre.getLast? 0 (c :: cs) =
        .kept c :: piecesFrom (pre ++ [c]).getLast? 0 cs) ∨
    ∃ d call rest, IsDirectiveCall (pre ++ c :: cs) pre d call rest ∧ c :: cs = call ++ rest ∧
      piecesFrom pre.getLast? 0 (c :: cs) =
        .call d call :: piecesFrom (pre ++ call).getLast? 0 rest := by
  rw [piecesFrom]
  cases found : directiveCall? pre.getLast? (c :: cs) with
  | none =>
    left
    rw [List.getLast?_append]
    exact ⟨rfl, rfl⟩
  | some found' =>
    right
    obtain ⟨d, call⟩ := found'
    obtain ⟨boundary, shape, rest, text⟩ := directiveCall?_eq_some_iff.mp found
    refine ⟨d, call, rest, ⟨by rw [text], boundary, shape⟩, text.symm, ?_⟩
    obtain ⟨c', call, rfl⟩ := List.exists_cons_of_ne_nil shape.ne_nil
    rw [List.cons_append, List.cons.injEq] at text
    obtain ⟨rfl, rfl⟩ := text
    have skipped := piecesFrom_skip (some c') call rest
    rw [List.getLast?_append, getLast?_cons_or, ← skipped]
    rfl

/-- Declarations are put for all calls of a text and for nothing else. -/
theorem puts_piecesFrom_iff (pre rest : List Char) {before call : List Char} {d : Directive} :
    Puts (piecesFrom pre.getLast? 0 rest) before d call ↔
      ∃ after, IsDirectiveCall (pre ++ rest) (pre ++ before) d call after := by
  induction h : rest.length using Nat.strongRecOn generalizing pre rest before with
  | ind n ih =>
    subst h
    cases rest with
    | nil =>
      constructor
      · intro puts
        exact absurd puts not_puts_nil
      · rintro ⟨after, found⟩
        have none := found.text
        simp [found.shape.ne_nil] at none
    | cons c cs =>
      rcases piecesFrom_step pre c cs with ⟨none, pieces⟩ | ⟨d₀, call₀, rest, found₀, text, pieces⟩
      · rw [pieces, puts_kept_cons_iff]
        have later : ∀ {more : List Char},
            Puts (piecesFrom (pre ++ [c]).getLast? 0 cs) more d call ↔
              ∃ after, IsDirectiveCall (pre ++ c :: cs) (pre ++ c :: more) d call after := by
          intro more
          rw [ih cs.length (by simp) (pre ++ [c]) cs rfl]
          simp
        constructor
        · rintro ⟨more, rfl, puts⟩
          exact later.mp puts
        · rintro ⟨after, found⟩
          cases before with
          | nil =>
            rw [List.append_nil] at found
            have here := found.directiveCall?_eq rfl
            rw [none] at here
            cases here
          | cons c' more =>
            have same := found.text
            simp only [List.append_assoc, List.append_cancel_left_eq, List.cons_append,
              List.cons.injEq] at same
            obtain ⟨rfl, -⟩ := same
            exact ⟨more, rfl, later.mpr ⟨after, found⟩⟩
      · rw [pieces, puts_call_cons_iff]
        have shorter : rest.length < (c :: cs).length := by
          have positive := List.length_pos_of_ne_nil found₀.shape.ne_nil
          rw [text, List.length_append]
          omega
        have later : ∀ {more : List Char},
            Puts (piecesFrom (pre ++ call₀).getLast? 0 rest) more d call ↔
              ∃ after, IsDirectiveCall (pre ++ c :: cs) (pre ++ (call₀ ++ more)) d call after := by
          intro more
          rw [ih rest.length shorter (pre ++ call₀) rest rfl]
          simp [text]
        constructor
        · rintro (⟨rfl, rfl, rfl⟩ | ⟨more, rfl, puts⟩)
          · rw [List.append_nil]
            exact ⟨rest, found₀⟩
          · exact later.mp puts
        · rintro ⟨after, found⟩
          have parts : call₀ ++ rest = before ++ (call ++ after) := by
            have same := found₀.text.symm.trans found.text
            simpa using same
          rcases List.append_eq_append_iff.mp parts with ⟨more, rfl, -⟩ | ⟨z, cut, -⟩
          · exact .inr ⟨more, rfl, later.mpr ⟨after, found⟩⟩
          · cases before with
            | nil =>
              left
              rw [List.append_nil] at found
              obtain ⟨same, texts⟩ := found.unique found₀
              exact ⟨rfl, same, texts⟩
            | cons c' more =>
              cases z with
              | nil =>
                rw [List.append_nil] at cut
                subst cut
                refine .inr ⟨[], by simp, later.mpr ⟨after, ?_⟩⟩
                rw [List.append_nil]
                exact found
              | cons x z =>
                have start := List.cons_ne_nil c' more
                have inside := List.cons_ne_nil x z
                exact absurd found (found₀.not_inside start inside cut)

end Cut

/-- A text is another one with the declaration of each of its calls put for the call. -/
def Expands (line out : List Char) : Prop :=
  ∃ ps : List Piece, ps.flatMap Piece.read = line ∧ ps.flatMap Piece.written = out ∧
    ∀ before d call, Puts ps before d call ↔ ∃ after, IsDirectiveCall line before d call after

theorem expands_expandLine (line : List Char) : Expands line (expandLine line) := by
  refine ⟨piecesFrom none 0 line, ?_, ?_, fun before d call => ?_⟩
  · rw [flatMap_read_piecesFrom, List.drop_zero]
  · exact flatMap_written_piecesFrom none 0 line
  · exact puts_piecesFrom_iff [] line

/-- A text without calls stays as it is. -/
theorem Expands.eq_of_no_call {line out : List Char} (h : Expands line out)
    (none : ∀ before d call after, ¬IsDirectiveCall line before d call after) : out = line := by
  obtain ⟨ps, rfl, rfl, puts⟩ := h
  have kept : ∀ p ∈ ps, p.written = p.read := by
    intro p mem
    cases p with
    | kept c => rfl
    | call d text =>
      obtain ⟨qs, rs, split⟩ := List.append_of_mem mem
      obtain ⟨after, found⟩ := (puts _ d text).mp ⟨qs, rs, split, rfl⟩
      exact absurd found (none _ d text after)
  exact List.flatMap_congr kept

section LineEnd

variable {body : List Char}

theorem directiveCall?_nil (before : Option Char) : directiveCall? before [] = none := by
  rw [Option.eq_none_iff_forall_ne_some]
  rintro ⟨d, call⟩ found
  obtain ⟨-, shape, start⟩ := directiveCall?_eq_some_iff.mp found
  exact shape.ne_nil (List.prefix_nil.mp start)

/-- The line feed behind a text is a piece of its own. -/
theorem piecesFrom_append_lineFeed (before : Option Char) {skip : Nat} (h : skip ≤ body.length) :
    piecesFrom before skip (body ++ ['\n']) = piecesFrom before skip body ++ [.kept '\n'] := by
  induction body generalizing before skip with
  | nil =>
    obtain rfl : skip = 0 := Nat.le_zero.mp h
    have nothing := directiveCall?_append_lineFeed before []
    rw [directiveCall?_nil, List.nil_append] at nothing
    simp [piecesFrom, nothing]
  | cons c body ih =>
    cases skip with
    | succ skip => exact ih (some c) (Nat.le_of_succ_le_succ h)
    | zero =>
      have same := directiveCall?_append_lineFeed before (c :: body)
      rw [List.cons_append] at same
      rw [List.cons_append, piecesFrom, piecesFrom, same]
      cases found : directiveCall? before (c :: body) with
      | none => simp [ih (some c) (Nat.zero_le _)]
      | some found' =>
        obtain ⟨-, -, start⟩ := directiveCall?_eq_some_iff.mp found
        have fits : found'.2.length - 1 ≤ body.length := by
          have length := start.length_le
          rw [List.length_cons] at length
          omega
        simp [ih (some c) fits]

theorem expandLine_append_lineFeed (body : List Char) :
    expandLine (body ++ ['\n']) = expandLine body ++ ['\n'] := by
  have pieces := piecesFrom_append_lineFeed none (Nat.zero_le body.length)
  rw [expandLine, expandLine, ← flatMap_written_piecesFrom, ← flatMap_written_piecesFrom, pieces,
    List.flatMap_append]
  rfl

theorem notMem_expandLine (h : '\n' ∉ body) : '\n' ∉ expandLine body := by
  rw [expandLine, ← flatMap_written_piecesFrom]
  intro mem
  obtain ⟨p, hp, feed⟩ := List.mem_flatMap.mp mem
  cases p with
  | kept c =>
    have read : c ∈ (piecesFrom none 0 body).flatMap Piece.read :=
      List.mem_flatMap.mpr ⟨.kept c, hp, List.mem_singleton_self c⟩
    rw [flatMap_read_piecesFrom, List.drop_zero] at read
    rw [Piece.written, List.mem_singleton] at feed
    exact h (feed ▸ read)
  | call d text => exact notMem_declaration d feed

theorem expandLine_ne_nil (h : body ≠ []) : expandLine body ≠ [] := by
  intro nothing
  rw [expandLine, ← flatMap_written_piecesFrom, List.flatMap_eq_nil_iff] at nothing
  have pieces : piecesFrom none 0 body = [] := by
    apply List.eq_nil_iff_forall_not_mem.mpr
    intro p mem
    have empty := nothing p mem
    cases p with
    | kept c => cases empty
    | call d text => exact declaration_ne_nil d empty
  have read := flatMap_read_piecesFrom none 0 body
  rw [pieces, List.drop_zero] at read
  exact h read.symm

end LineEnd

end ReflectGen.Source
