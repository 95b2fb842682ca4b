import ReflectGen.Proofs.PreparedLines

namespace ReflectGen.Source

open Text

/-- A word without a character stands before or behind each place where the character does. -/
theorem before_or_behind_of_notMem {c : Char} {a w b u v : List Char} (hc : c ∉ w)
    (h : a ++ (w ++ b) = u ++ c :: v) :
    (∃ x, u = a ++ (w ++ x)) ∨ ∃ x, a = u ++ c :: x ∧ v = x ++ (w ++ b) := by
  rcases List.append_eq_append_iff.mp h with ⟨x, hu, rest⟩ | ⟨x, ha, rest⟩
  · obtain ⟨y, rfl, -⟩ := exists_append_of_notMem_left hc rest
    exact .inl ⟨y, hu⟩
  · cases x with
    | nil =>
      obtain ⟨y, none, -⟩ := exists_append_of_notMem_left (y := []) hc rest.symm
      obtain ⟨rfl, -⟩ := List.append_eq_nil_iff.mp none.symm
      exact .inl ⟨[], by simpa using ha.symm⟩
    | cons d x =>
      rw [List.cons_append, List.cons.injEq] at rest
      rw [← rest.1] at ha
      exact .inr ⟨x, ha, rest.2⟩

section Replaced

variable {before call body : List Char} {d : Directive}

theorem atBoundary_append_lineFeed (xs ys : List Char) :
    atBoundary (xs ++ '\n' :: ys).getLast? = atBoundary ys.getLast? := by
  have feed : atBoundary (some '\n') = true := by decide +kernel
  rw [List.getLast?_append, List.getLast?_cons]
  cases ys.getLast? with
  | none => exact feed
  | some c => rfl

/-- A call without a line feed stands before a line feed of the text or behind it. -/
theorem isDirectiveCall_append_iff (rest : List Char) (plain : '\n' ∉ call) :
    (∃ after, IsDirectiveCall (body ++ '\n' :: rest) before d call after) ↔
      (∃ after, IsDirectiveCall body before d call after) ∨
        ∃ more, before = body ++ '\n' :: more ∧
          ∃ after, IsDirectiveCall rest more d call after := by
  constructor
  · rintro ⟨after, found⟩
    rcases before_or_behind_of_notMem plain found.text.symm with ⟨x, text⟩ | ⟨more, rfl, text⟩
    · exact .inl ⟨x, text, found.boundary, found.shape⟩
    · refine .inr ⟨more, rfl, after, text, ?_, found.shape⟩
      rw [← atBoundary_append_lineFeed body]
      exact found.boundary
  · rintro (⟨after, found⟩ | ⟨more, rfl, after, found⟩)
    · refine ⟨after ++ '\n' :: rest, ?_, found.boundary, found.shape⟩
      rw [found.text]
      simp
    · refine ⟨after, ?_, ?_, found.shape⟩
      · rw [found.text]
        simp
      · rw [atBoundary_append_lineFeed]
        exact found.boundary

theorem puts_linePieces_iff (directive : Bool) (body : List Char) :
    Puts (linePieces directive body) before d call ↔
      directive = false ∧ ∃ after, IsDirectiveCall body before d call after := by
  cases directive with
  | true => simp [linePieces, not_puts_kept]
  | false =>
    rw [linePieces, if_neg Bool.false_ne_true]
    have puts : Puts (piecesFrom none 0 body) before d call ↔ _ := puts_piecesFrom_iff [] body
    simpa using puts

theorem linePieces_append_lineFeed (directive : Bool) (body : List Char) :
    linePieces directive (body ++ ['\n']) = linePieces directive body ++ [.kept '\n'] := by
  cases directive with
  | true => simp [linePieces]
  | false => exact piecesFrom_append_lineFeed none (Nat.zero_le body.length)

theorem IsDirectiveCall.notMem {whole after : List Char}
    (h : IsDirectiveCall whole before d call after) (plain : '\n' ∉ whole) :
    '\n' ∉ before ∧ '\n' ∉ call := by
  rw [h.text, List.mem_append, List.mem_append, not_or, not_or] at plain
  exact ⟨plain.1, plain.2.1⟩

-- The flag of the line on which a text ends, for a first line that ends with the text or in it.

theorem getElem?_flag_within (flag : Bool) (flags : List Bool) (h : '\n' ∉ before) :
    (flag :: flags)[before.count '\n']? = some flag := by
  rw [List.count_eq_zero_of_not_mem h, List.getElem?_cons_zero]

theorem getElem?_flag_behind (flag : Bool) (flags : List Bool) (h : '\n' ∉ body)
    (more : List Char) :
    (flag :: flags)[(body ++ '\n' :: more).count '\n']? = flags[more.count '\n']? := by
  rw [List.count_append, List.count_eq_zero_of_not_mem h, List.count_cons_self, Nat.zero_add,
    List.getElem?_cons_succ]

/-- Over several lines declarations are put for the calls within a line whose flag is not set. -/
theorem puts_rows_iff {rows : List (List Char)} (h : Lined rows) {flags : List Bool}
    (length : flags.length = rows.length) :
    Puts (List.zipWith linePieces flags rows).flatten before d call ↔
      (∃ after, IsDirectiveCall rows.flatten before d call after) ∧ '\n' ∉ call ∧
        flags[before.count '\n']? ≠ some true := by
  induction h generalizing flags before with
  | empty =>
    constructor
    · intro puts
      rw [List.zipWith_nil_right] at puts
      exact absurd puts not_puts_nil
    · rintro ⟨⟨after, found⟩, -⟩
      have none := found.text
      simp [found.shape.ne_nil] at none
  | unended some plain =>
    obtain ⟨flag, flags, rfl⟩ := List.exists_cons_of_length_eq_add_one length
    rw [List.zipWith_cons_cons, List.zipWith_nil_right, List.flatten_singleton,
      List.flatten_singleton, puts_linePieces_iff, and_comm]
    apply and_congr_right
    rintro ⟨after, found⟩
    obtain ⟨unbroken, whole⟩ := found.notMem plain
    simp [getElem?_flag_within flag _ unbroken, whole]
  | @ended body rest plain later ih =>
    obtain ⟨flag, flags, rfl⟩ := List.exists_cons_of_length_eq_add_one length
    have inner : ∀ {more : List Char},
        Puts (List.zipWith linePieces flags rest).flatten more d call ↔
          (∃ after, IsDirectiveCall rest.flatten more d call after) ∧ '\n' ∉ call ∧
            flags[more.count '\n']? ≠ some true := ih (Nat.succ.inj length)
    have feed : ¬∃ more, before = (linePieces flag body).flatMap Piece.read ++ more ∧
        Puts [.kept '\n'] more d call := by
      rintro ⟨more, -, puts⟩
      exact not_puts_kept ['\n'] puts
    have row : (linePieces flag (body ++ ['\n'])).flatMap Piece.read = body ++ ['\n'] := by
      cases flag with
      | true => exact flatMap_read_kept _
      | false => exact flatMap_read_piecesFrom none 0 _
    rw [List.zipWith_cons_cons, List.flatten_cons, puts_append_iff, row,
      linePieces_append_lineFeed, puts_append_iff, or_iff_left feed, puts_linePieces_iff,
      List.flatten_cons]
    simp only [List.append_assoc, List.singleton_append]
    constructor
    · rintro (⟨rfl, after, found⟩ | ⟨more, rfl, puts⟩)
      · obtain ⟨unbroken, whole⟩ := found.notMem plain
        refine ⟨(isDirectiveCall_append_iff _ whole).mpr (.inl ⟨after, found⟩), whole, ?_⟩
        simp [getElem?_flag_within false flags unbroken]
      · obtain ⟨found, whole, ordinary⟩ := inner.mp puts
        refine ⟨(isDirectiveCall_append_iff _ whole).mpr (.inr ⟨more, rfl, found⟩), whole, ?_⟩
        rw [getElem?_flag_behind flag flags plain]
        exact ordinary
    · rintro ⟨found, whole, ordinary⟩
      rcases (isDirectiveCall_append_iff _ whole).mp found with ⟨after, here⟩ | ⟨more, rfl, behind⟩
      · left
        rw [getElem?_flag_within flag flags (here.notMem plain).1] at ordinary
        refine ⟨?_, after, here⟩
        simpa using ordinary
      · right
        rw [getElem?_flag_behind flag flags plain] at ordinary
        exact ⟨more, rfl, inner.mpr ⟨behind, whole, ordinary⟩⟩

/-- Declarations are put for the calls that keep to one line which is no preprocessor line. -/
theorem puts_pieces_iff (source : List Char) :
    Puts (pieces source) before d call ↔
      (∃ after, IsDirectiveCall (shown source) before d call after) ∧ '\n' ∉ call ∧
        ¬IsDirectiveLine source (before.count '\n') := by
  rw [pieces_eq, puts_rows_iff (lined_lines (shown source)) (length_lines_shown source),
    flatten_lines, isDirectiveLine_iff]

end Replaced

section Left

/-- All calls of the pieces are directive calls. -/
def Proper (ps : List Piece) : Prop := ∀ d text, Piece.call d text ∈ ps → CallShape d text

theorem proper_pieces (source : List Char) : Proper (pieces source) := by
  intro d text mem
  obtain ⟨qs, rs, split⟩ := List.append_of_mem mem
  obtain ⟨⟨after, found⟩, -⟩ := (puts_pieces_iff source).mp ⟨qs, rs, split, rfl⟩
  exact found.shape

theorem Proper.left {ps qs : List Piece} (h : Proper (ps ++ qs)) : Proper ps :=
  fun d text mem => h d text (List.mem_append_left qs mem)

/-- A word starts behind the same pieces in both readings: a call ends with a parenthesis and a
declaration with a semicolon. -/
theorem atBoundary_readings {ps : List Piece} (h : Proper ps) :
    atBoundary (ps.flatMap Piece.written).getLast? =
      atBoundary (ps.flatMap Piece.read).getLast? := by
  induction ps using List.reverseRecOn with
  | nil => rfl
  | append_singleton ps p _ =>
    rw [List.flatMap_append, List.flatMap_append, List.flatMap_singleton, List.flatMap_singleton,
      List.getLast?_append, List.getLast?_append]
    cases p with
    | kept c => rfl
    | call d text =>
      obtain ⟨body, rfl⟩ := (h d text (by simp)).ends
      have written : (declaration d).getLast? = some ';' := by
        rcases d with _ | _ | _ <;> decide
      have semicolon : atBoundary (some ';') = true := by decide +kernel
      have parenthesis : atBoundary (some ')') = true := by decide +kernel
      simp [Piece.written_call, Piece.read, written, semicolon, parenthesis]

theorem count_readings {ps : List Piece} (h : ∀ p ∈ ps, p.OneLine) :
    (ps.flatMap Piece.written).count '\n' = (ps.flatMap Piece.read).count '\n' := by
  rw [reading_written.count_lineFeed h, reading_read.count_lineFeed h]

/-- A declaration starts and ends with characters that no call has, and holds no name of a call. -/
theorem declaration_shape (d : Directive) :
    ∃ middle, declaration d = 'v' :: (middle ++ [';']) ∧
      ∀ e : Directive, ¬e.callName.toList <:+: middle := by
  refine ⟨(declaration d).tail.dropLast, ?_, ?_⟩
  · rcases d with _ | _ | _ <;> decide
  · rintro (_ | _ | _) <;> rcases d with _ | _ | _ <;> decide +kernel

theorem not_meetsDeclaration {ps : List Piece} {a b call : List Char} {d : Directive}
    (text : ps.flatMap Piece.written = a ++ (call ++ b)) (shape : CallShape d call) :
    ¬MeetsDeclaration ps (byteLength a) (byteLength a + byteLength call) := by
  rintro ⟨before, d', text', after, rfl, lo, hi⟩
  obtain ⟨middle, ends, nameless⟩ := declaration_shape d'
  have outside : ∀ {c}, c = 'v' ∨ c = ';' → c ∉ call := by
    rintro c (rfl | rfl) <;> refine shape.notMem (by decide) (by decide) (by decide) ?_ <;>
      rcases d with _ | _ | _ <;> decide
  rw [List.flatMap_append, List.flatMap_cons, Piece.written_call, ends, List.cons_append,
    List.append_assoc, List.singleton_append] at text
  rcases before_or_behind_of_notMem (outside (.inl rfl)) text.symm with ⟨x, hw⟩ | ⟨x, ha, rest⟩
  · rw [hw, byteLength_append, byteLength_append] at lo
    omega
  rcases before_or_behind_of_notMem (outside (.inr rfl)) rest.symm with ⟨y, hm⟩ | ⟨y, hx, -⟩
  · obtain ⟨gap, inner, -, -, rfl⟩ := shape
    apply nameless d
    refine ⟨x, gap ++ '(' :: (inner ++ [')']) ++ y, ?_⟩
    rw [hm]
    simp [callText]
  · rw [ha, hx, ends] at hi
    simp only [byteLength_append, byteLength_cons, byteLength_nil] at hi
    omega

/-- The piece behind a text is the same whichever way the pieces before it are cut off. -/
theorem piece_eq_of_read_eq {qs rs before after : List Piece} {p q : Piece}
    (filled : ∀ x ∈ qs ++ p :: rs, x.read ≠ []) (same : qs ++ p :: rs = before ++ q :: after)
    (read : qs.flatMap Piece.read = before.flatMap Piece.read) : p = q := by
  have none : ∀ {zs : List Piece}, (∀ x ∈ zs, x.read ≠ []) → zs.flatMap Piece.read = [] →
      zs = [] := by
    intro zs hz empty
    apply List.eq_nil_iff_forall_not_mem.mpr
    intro x mem
    exact hz x mem (List.flatMap_eq_nil_iff.mp empty x mem)
  rcases List.append_eq_append_iff.mp same with ⟨zs, rfl, rest⟩ | ⟨zs, rfl, rest⟩
  · rw [List.flatMap_append, List.self_eq_append_right] at read
    have within : ∀ x ∈ zs, x.read ≠ [] := by
      intro x mem
      apply filled
      rw [rest]
      simp [mem]
    rw [none within read, List.nil_append, List.cons.injEq] at rest
    exact rest.1
  · rw [List.flatMap_append, List.append_right_eq_self] at read
    have within : ∀ x ∈ zs, x.read ≠ [] := fun x mem => filled x (by simp [mem])
    rw [none within read, List.nil_append, List.cons.injEq] at rest
    exact rest.1.symm

/-- Two calls that have a byte in common start at one place. -/
theorem IsDirectiveCall.eq_of_overlap {whole before before' call call' after after' : List Char}
    {d d' : Directive} (h : IsDirectiveCall whole before d call after)
    (h' : IsDirectiveCall whole before' d' call' after')
    (lo : byteLength before' < byteLength before + byteLength call)
    (hi : byteLength before < byteLength before' + byteLength call') : before = before' := by
  -- If one starts later, it starts inside the other.
  have later : ∀ {before call after d call' after' d'} {y : List Char},
      IsDirectiveCall whole before d call after →
      IsDirectiveCall whole (before ++ y) d' call' after' →
      byteLength (before ++ y) < byteLength before + byteLength call → y = [] := by
    intro before call after d call' after' d' y outer inner starts
    by_contra some
    have parts : call ++ after = y ++ (call' ++ after') := by
      have text := outer.text.symm.trans inner.text
      simpa using text
    rw [byteLength_append] at starts
    rcases List.append_eq_append_iff.mp parts with ⟨x, hy, -⟩ | ⟨z, hcall, -⟩
    · rw [hy, byteLength_append] at starts
      omega
    · have inside : z ≠ [] := by
        rintro rfl
        rw [hcall, List.append_nil] at starts
        omega
      exact outer.not_inside some inside hcall inner
  rcases List.append_eq_append_iff.mp (h.text.symm.trans h'.text) with ⟨y, rfl, -⟩ | ⟨y, rfl, -⟩
  · rw [later h h' lo, List.append_nil]
  · rw [later h' h hi, List.append_nil]

variable {source before call after : List Char} {d : Directive}

/-- A call of the prepared text is a call of what is shown, on the same line, for which no
declaration was put. -/
theorem shown_of_prepared (h : IsDirectiveCall (prepare source) before d call after) :
    ∃ before' after', IsDirectiveCall (shown source) before' d call after' ∧
      before'.count '\n' = before.count '\n' ∧ ¬Puts (pieces source) before' d call := by
  have text := (flatMap_written_pieces source).trans h.text
  have proper := proper_pieces source
  have lined := oneLine_pieces source
  have filled : ∀ p ∈ pieces source, p.read ≠ [] := by
    intro p mem
    cases p with
    | kept c => exact List.cons_ne_nil c []
    | call d text => exact (proper d text mem).ne_nil
  have shownText := flatMap_read_pieces source
  rcases copied_or_meets h.shape.ne_nil text with meets | ⟨qs, rs, split, rfl⟩
  · exact absurd meets (not_meetsDeclaration text h.shape)
  rw [split] at proper lined filled shownText
  refine ⟨qs.flatMap Piece.read, rs.flatMap Piece.read, ⟨?_, ?_, h.shape⟩, ?_, ?_⟩
  · rw [← shownText, List.flatMap_append, List.flatMap_append, flatMap_read_kept]
  · rw [← atBoundary_readings proper.left]
    exact h.boundary
  · exact (count_readings fun p mem => lined p (List.mem_append_left _ mem)).symm
  · rintro ⟨xs, ys, cut, read⟩
    obtain ⟨c, more, rfl⟩ := List.exists_cons_of_ne_nil h.shape.ne_nil
    rw [split, List.map_cons, List.cons_append] at cut
    rw [List.map_cons, List.cons_append] at filled
    have same := piece_eq_of_read_eq filled cut read.symm
    cases same

/-- A call of what is shown for which no declaration was put is left in the prepared text, on the
same line. -/
theorem prepared_of_shown (h : IsDirectiveCall (shown source) before d call after)
    (unput : ¬Puts (pieces source) before d call) :
    ∃ before' after', IsDirectiveCall (prepare source) before' d call after' ∧
      before'.count '\n' = before.count '\n' := by
  have text := (flatMap_read_pieces source).trans h.text
  have proper := proper_pieces source
  have lined := oneLine_pieces source
  have written := flatMap_written_pieces source
  rcases copied_or_meetsCall (fun _ => rfl) (fun d text mem => (proper d text mem).ne_nil)
    h.shape.ne_nil text with ⟨qs, d', call', rs, split, lo, hi⟩ | ⟨qs, rs, split, rfl⟩
  · have put : Puts (pieces source) (qs.flatMap Piece.read) d' call' := ⟨qs, rs, split, rfl⟩
    obtain ⟨⟨after', found⟩, -⟩ := (puts_pieces_iff source).mp put
    obtain rfl := h.eq_of_overlap found lo hi
    obtain ⟨rfl, rfl⟩ := h.unique found
    exact absurd put unput
  · rw [split] at proper lined written
    refine ⟨qs.flatMap Piece.written, rs.flatMap Piece.written, ⟨?_, ?_, h.shape⟩, ?_⟩
    · rw [← written, List.flatMap_append, List.flatMap_append, flatMap_written_kept]
    · rw [atBoundary_readings proper.left]
      exact h.boundary
    · exact count_readings fun p mem => lined p (List.mem_append_left _ mem)

end Left

/-- A directive call starts on a line of the prepared text just where what is shown has it on that
line and it goes on over a line break or the line is a preprocessor line. So of the calls on other
lines all are gone but those broken over lines. -/
theorem remaining_calls_iff (source : List Char) (d : Directive) (call : List Char) (k : Nat) :
    (∃ before after, IsDirectiveCall (prepare source) before d call after ∧
        before.count '\n' = k) ↔
      ∃ before after, IsDirectiveCall (shown source) before d call after ∧
        before.count '\n' = k ∧ ('\n' ∈ call ∨ IsDirectiveLine source k) := by
  constructor
  · rintro ⟨before, after, h, rfl⟩
    obtain ⟨before', after', found, row, unput⟩ := shown_of_prepared h
    refine ⟨before', after', found, row, ?_⟩
    by_contra neither
    rw [not_or, ← row] at neither
    exact unput ((puts_pieces_iff source).mpr ⟨⟨after', found⟩, neither⟩)
  · rintro ⟨before, after, h, rfl, either⟩
    have unput : ¬Puts (pieces source) before d call := by
      intro put
      obtain ⟨-, plain, ordinary⟩ := (puts_pieces_iff source).mp put
      exact either.elim plain ordinary
    exact prepared_of_shown h unput

/-- A call whose parentheses stand on the line after its name. -/
def brokenCall : List Char := "SERIALIZE_STRUCT\n()\nstruct Foo { int a; };\n".toList

theorem brokenCall_remains :
    ¬IsDirectiveLine brokenCall 0 ∧
      IsDirectiveCall (prepare brokenCall) [] .reflectType "SERIALIZE_STRUCT\n()".toList
        "\nstruct Foo { int a; };\n".toList := by
  have space : ∀ c ∈ ['\n'], isSpace c := List.forall_mem_singleton.mpr (by decide)
  refine ⟨by decide +kernel, ?_, rfl, ['\n'], [], space, List.forall_mem_nil _, ?_⟩
  · decide +kernel
  · decide

end ReflectGen.Source
