import Mathlib.Data.List.Forall2
import Mathlib.Data.List.TakeWhile
import ReflectGen.Proofs.PreparedLines

namespace ReflectGen.Source

open Text

section Directives

/-- The first character of a line other than white space is `#`. -/
def StartsWithHash (row : List Char) : Prop :=
  ∃ blanks rest, row = blanks ++ '#' :: rest ∧ ∀ c ∈ blanks, isSpace c

/-- What stands before the line end, which is all carriage returns and line feeds at the end of a
line, ends with a backslash. -/
def EndsWithBackslash (row : List Char) : Prop :=
  ∃ front stop, row = front ++ '\\' :: stop ∧ ∀ c ∈ stop, c = '\n' ∨ c = '\r'

/-- The line numbered `k`, from zero, belongs to a directive: one starts on it or on a line before
it, from where each line is continued up to it. -/
def InDirective (rows : List (List Char)) (k : Nat) : Prop :=
  ∃ j ≤ k, (∃ row ∈ rows[j]?, StartsWithHash row) ∧
    ∀ i < k, j ≤ i → ∃ row ∈ rows[i]?, EndsWithBackslash row

theorem dropEndWhile_append {p : Char → Bool} {c : Char} (h : p c = false) (xs ys : List Char) :
    dropEndWhile p (xs ++ c :: ys) = xs ++ c :: dropEndWhile p ys := by
  have stops : (c :: xs.reverse).dropWhile p = c :: xs.reverse := by simp [h]
  rw [dropEndWhile, dropEndWhile, List.reverse_append, List.reverse_cons, List.append_assoc,
    List.singleton_append, List.dropWhile_append]
  split
  · rename_i none
    rw [List.isEmpty_iff] at none
    simp [stops, none]
  · simp

theorem dropEndWhile_eq_nil {p : Char → Bool} {xs : List Char} (h : ∀ c ∈ xs, p c) :
    dropEndWhile p xs = [] := by
  simpa [dropEndWhile, List.dropWhile_eq_nil_iff] using h

/-- What is dropped from a line is its line end. -/
theorem exists_lineEnd (row : List Char) :
    ∃ stop, row = lineBody row ++ stop ∧ ∀ c ∈ stop, c = '\n' ∨ c = '\r' := by
  refine ⟨(row.reverse.takeWhile fun c => c == '\n' || c == '\r').reverse, ?_, fun c mem => ?_⟩
  · rw [lineBody, dropEndWhile, ← List.reverse_append, List.takeWhile_append_dropWhile,
      List.reverse_reverse]
  · simpa using List.mem_takeWhile_imp (List.mem_reverse.mp mem)

theorem opensDirective_iff (row : List Char) : opensDirective row ↔ StartsWithHash row := by
  rw [opensDirective, beq_iff_eq]
  constructor
  · intro first
    obtain ⟨stop, whole, -⟩ := exists_lineEnd row
    obtain ⟨rest, dropped⟩ := List.head?_eq_some_iff.mp first
    refine ⟨(lineBody row).takeWhile isSpace, rest ++ stop, ?_, fun c mem =>
      List.mem_takeWhile_imp mem⟩
    rw [← List.cons_append, ← dropped, ← List.append_assoc, List.takeWhile_append_dropWhile]
    exact whole
  · rintro ⟨blanks, rest, rfl, spaces⟩
    have hash : isSpace '#' = false := by decide
    rw [lineBody, dropEndWhile_append (by decide), List.dropWhile_append_of_pos spaces,
      List.dropWhile_cons_of_neg (by simp [hash])]
    rfl

theorem endsOpen_iff (row : List Char) : endsOpen row ↔ EndsWithBackslash row := by
  rw [endsOpen, beq_iff_eq]
  constructor
  · intro last
    obtain ⟨stop, whole, ends⟩ := exists_lineEnd row
    obtain ⟨front, body⟩ := List.getLast?_eq_some_iff.mp last
    rw [body, List.append_assoc] at whole
    exact ⟨front, stop, whole, ends⟩
  · rintro ⟨front, stop, rfl, ends⟩
    have none : dropEndWhile (fun c => c == '\n' || c == '\r') stop = [] :=
      dropEndWhile_eq_nil fun c mem => by simpa using ends c mem
    rw [lineBody, dropEndWhile_append (by decide), none, List.getLast?_concat]

instance (row : List Char) : Decidable (StartsWithHash row) :=
  decidable_of_iff _ (opensDirective_iff row)

instance (row : List Char) : Decidable (EndsWithBackslash row) :=
  decidable_of_iff _ (endsOpen_iff row)

instance (rows : List (List Char)) (k : Nat) : Decidable (InDirective rows k) := by
  unfold InDirective
  infer_instance

end Directives

section Flags

variable {row : List Char} {rows : List (List Char)} {k : Nat}

/-- Each of the first `k` lines is continued. -/
def Continued (rows : List (List Char)) (k : Nat) : Prop :=
  ∀ i < k, ∃ row ∈ rows[i]?, EndsWithBackslash row

theorem continued_cons_succ :
    Continued (row :: rows) (k + 1) ↔ EndsWithBackslash row ∧ Continued rows k := by
  constructor
  · intro h
    refine ⟨by simpa using h 0 (Nat.succ_pos k), fun i hi => ?_⟩
    simpa using h (i + 1) (Nat.succ_lt_succ hi)
  · rintro ⟨first, later⟩ i hi
    cases i with
    | zero => exact ⟨row, rfl, first⟩
    | succ i => simpa using later i (Nat.lt_of_succ_lt_succ hi)

theorem inDirective_cons_zero : InDirective (row :: rows) 0 ↔ StartsWithHash row := by
  simp [InDirective]

/-- A directive that reaches a later line starts after the first line, or on it and goes on. -/
theorem inDirective_cons_succ :
    InDirective (row :: rows) (k + 1) ↔
      InDirective rows k ∨ StartsWithHash row ∧ Continued (row :: rows) (k + 1) := by
  constructor
  · rintro ⟨j, hj, opens, continued⟩
    cases j with
    | zero => exact .inr ⟨by simpa using opens, fun i hi => continued i hi (Nat.zero_le i)⟩
    | succ j =>
      refine .inl ⟨j, Nat.le_of_succ_le_succ hj, by simpa using opens, fun i hi above => ?_⟩
      simpa using continued (i + 1) (Nat.succ_lt_succ hi) (Nat.succ_le_succ above)
  · rintro (⟨j, hj, opens, continued⟩ | ⟨opens, continued⟩)
    · refine ⟨j + 1, Nat.succ_le_succ hj, by simpa using opens, fun i hi above => ?_⟩
      cases i with
      | zero => cases above
      | succ i =>
        simpa using continued i (Nat.lt_of_succ_lt_succ hi) (Nat.le_of_succ_le_succ above)
    · exact ⟨0, Nat.zero_le _, ⟨row, rfl, opens⟩, fun i hi _ => continued i hi⟩

/-- The flag that is carried from line to line tells whether a directive reaches the line. -/
theorem getElem?_directiveFlags (continued : Bool) (rows : List (List Char)) (k : Nat) :
    (directiveFlags continued rows)[k]? = some true ↔
      k < rows.length ∧ (InDirective rows k ∨ continued ∧ Continued rows k) := by
  -- A directive that is open before the first line reaches as far as lines are continued.
  induction rows generalizing continued k with
  | nil => simp [directiveFlags]
  | cons row rows ih =>
    cases k with
    | zero =>
      have none : Continued (row :: rows) 0 := fun i hi => absurd hi (Nat.not_lt_zero i)
      simp [directiveFlags, inDirective_cons_zero, opensDirective_iff, none, or_comm]
    | succ k =>
      rw [directiveFlags, List.getElem?_cons_succ, ih, List.length_cons, Nat.succ_lt_succ_iff,
        inDirective_cons_succ, continued_cons_succ, Bool.and_eq_true, Bool.or_eq_true,
        opensDirective_iff, endsOpen_iff]
      tauto

theorem directiveFlags_eq (rows : List (List Char)) :
    directiveFlags false rows =
      (List.range rows.length).map fun k => decide (InDirective rows k) := by
  apply List.ext_getElem (by simp [length_directiveFlags])
  intro k there _
  have flag := getElem?_directiveFlags false rows k
  rw [List.getElem?_eq_getElem there, Option.some.injEq] at flag
  rw [length_directiveFlags] at there
  rw [List.getElem_map, List.getElem_range, Bool.eq_iff_iff, flag, decide_eq_true_eq]
  simp [there]

end Flags

section LineRanges

variable {rows : List (List Char)}

/-- The byte range of the line numbered `k`. -/
def lineRange (rows : List (List Char)) (k : Nat) : ByteRange :=
  ⟨byteLength (rows.take k).flatten, byteLength (rows.take (k + 1)).flatten⟩

theorem lineRanges_eq (offset : Nat) (rows : List (List Char)) :
    lineRanges offset rows = (List.range rows.length).map fun k =>
      ⟨offset + (lineRange rows k).start, offset + (lineRange rows k).stop⟩ := by
  induction rows generalizing offset with
  | nil => rfl
  | cons row rows ih =>
    rw [lineRanges, ih, List.length_cons, List.range_succ_eq_map, List.map_cons, List.map_map]
    simp [lineRange, Nat.add_assoc]

theorem directiveRanges_eq (source : List Char) :
    directiveRanges source =
      ((List.range (lines source).length).filter fun k => InDirective (lines source) k).map
        (lineRange (lines source)) := by
  rw [directiveRanges, lineRanges_eq, directiveFlags_eq, List.zip_map', List.filterMap_map,
    ← List.filterMap_eq_map, List.filterMap_filter]
  simp

/-- Lines have bytes, so each range starts before the next one. -/
theorem lineRange_start_lt (filled : ∀ row ∈ rows, row ≠ []) {j k : Nat} (before : j < k)
    (inside : j < rows.length) : (lineRange rows j).start < (lineRange rows k).start := by
  obtain ⟨between, rfl⟩ := Nat.exists_eq_add_of_lt before
  have positive := byteLength_pos (filled _ (List.getElem_mem inside))
  have taken : rows.take (j + between + 1) =
      rows.take j ++ rows[j] :: (rows.drop (j + 1)).take between := by
    rw [Nat.add_right_comm, List.take_add, List.take_succ_eq_append_getElem inside,
      List.append_assoc, List.singleton_append]
  simp only [lineRange, taken, List.flatten_append, List.flatten_cons, byteLength_append]
  omega

theorem pairwise_directiveRanges (source : List Char) :
    (directiveRanges source).Pairwise fun a b => a.start < b.start := by
  rw [directiveRanges_eq, List.pairwise_map]
  refine (List.pairwise_lt_range.filter _).imp_of_mem fun {j k} first _ before => ?_
  have inside : j < (lines source).length := List.mem_range.mp (List.mem_of_mem_filter first)
  exact lineRange_start_lt (fun _ mem => (lined_lines source).ne_nil_of_mem mem) before inside

end LineRanges

section Steps

/-- What a line may become: a copied line stays as it is, and in an expanded one a declaration is
put for each directive call. -/
def LineStep.Writes : LineStep → List Char → Prop
  | copied _ row, out => out = row
  | expanded row, out => Expands row out

def LineStep.written : LineStep → List Char
  | copied _ row => row
  | expanded row => expandLine row

theorem LineStep.writes_written (step : LineStep) : step.Writes step.written := by
  cases step with
  | copied range row => rfl
  | expanded row => exact expands_expandLine row

/-- The range that a line uses up. -/
def LineStep.range? : LineStep → Option ByteRange
  | copied range _ => some range
  | expanded _ => none

theorem flatMap_written_lineSteps (ranges : List ByteRange) (offset : Nat)
    (rows : List (List Char)) :
    (lineSteps ranges offset rows).flatMap LineStep.written = expandLines ranges offset rows := by
  have each (step : LineStep) : step.pieces.flatMap Piece.written = step.written := by
    cases step with
    | copied range row => exact flatMap_written_linePieces true row
    | expanded row => exact flatMap_written_linePieces false row
  rw [← flatMap_written_pieceLines, ← flatMap_pieces_lineSteps, List.flatMap_assoc]
  simp only [each]

theorem filterMap_range?_zipWith {ranged : List (ByteRange × Bool)} {rows : List (List Char)}
    (length : ranged.length ≤ rows.length) :
    (List.zipWith lineStep ranged rows).filterMap LineStep.range? =
      ranged.filterMap fun (range, flag) => if flag then some range else none := by
  have each : LineStep.range? ∘ Function.uncurry lineStep =
      (fun line => if line.2 then some line.1 else none) ∘ Prod.fst := by
    funext ⟨⟨range, flag⟩, row⟩
    cases flag <;> rfl
  rw [← List.map_uncurry_zip_eq_zipWith, List.filterMap_map, each, ← List.filterMap_map,
    List.map_fst_zip length]

theorem zipWith_range_map {α β γ : Type} (f : α → β → γ) (g : Nat → α) (l : List β) :
    List.zipWith f ((List.range l.length).map g) l = l.mapIdx fun k b => f (g k) b := by
  apply List.ext_getElem (by simp)
  intro k _ _
  simp

theorem byteLength_flatten_congr {rows rows' : List (List Char)}
    (h : rows'.map byteLength = rows.map byteLength) :
    byteLength rows'.flatten = byteLength rows.flatten := by
  induction rows generalizing rows' with
  | nil => rw [List.map_eq_nil_iff.mp h]
  | cons row rows ih =>
    obtain ⟨row', rows', rfl, here, there⟩ := List.map_eq_cons_iff.mp h
    rw [List.flatten_cons, List.flatten_cons, byteLength_append, byteLength_append, here, ih there]

variable (regions : List ByteRange) (source : List Char)

/-- No line moves. -/
theorem lineRange_lines_blank (k : Nat) :
    lineRange (lines (blank regions source)) k = lineRange (lines source) k := by
  have start (n : Nat) : byteLength ((lines (blank regions source)).take n).flatten =
      byteLength ((lines source).take n).flatten := by
    apply byteLength_flatten_congr
    rw [List.map_take, List.map_take, map_byteLength_lines_blank]
  rw [lineRange, lineRange, start, start]

theorem lineSteps_lines_blank :
    lineSteps (directiveRanges source) 0 (lines (blank regions source)) =
      List.zipWith lineStep
        ((lineRanges 0 (lines source)).zip (directiveFlags false (lines source)))
        (lines (blank regions source)) :=
  lineSteps_flaggedRanges (fun _ mem => (lined_lines source).ne_nil_of_mem mem)
    (length_directiveFlags false (lines source)) (map_byteLength_lines_blank regions source)

theorem lineSteps_eq_mapIdx :
    lineSteps (directiveRanges source) 0 (lines (blank regions source)) =
      (lines (blank regions source)).mapIdx fun k row =>
        if InDirective (lines source) k then .copied (lineRange (lines source) k) row
        else .expanded row := by
  rw [lineSteps_lines_blank, lineRanges_eq, directiveFlags_eq, List.zip_map',
    ← length_lines_blank regions source, zipWith_range_map]
  simp [lineStep]

theorem filterMap_range?_lineSteps :
    (lineSteps (directiveRanges source) 0 (lines (blank regions source))).filterMap
      LineStep.range? = directiveRanges source := by
  rw [lineSteps_lines_blank, filterMap_range?_zipWith]
  · rfl
  · rw [List.length_zip, length_lineRanges, length_lines_blank]
    exact Nat.min_le_left _ _

end Steps

/-- The directive ranges are those of the lines that belong to a directive, in order. Whatever of
the text is made blank, no line moves. The expansion writes one text for each line, copies just the
lines of a directive and expands all others; each copied line uses up its own range, and no range is
left. -/
theorem directive_ranges_in_step (regions : List ByteRange) (source : List Char) :
    let rows := lines source
    let shownRows := lines (blank regions source)
    let steps := lineSteps (directiveRanges source) 0 shownRows
    directiveRanges source =
        ((List.range rows.length).filter fun k => InDirective rows k).map (lineRange rows) ∧
      (directiveRanges source).Pairwise (fun a b => a.start < b.start) ∧
      shownRows.length = rows.length ∧ (∀ k, lineRange shownRows k = lineRange rows k) ∧
      (∃ outs, expand (directiveRanges source) (blank regions source) = outs.flatten ∧
        List.Forall₂ LineStep.Writes steps outs) ∧
      (steps = shownRows.mapIdx fun k row =>
        if InDirective rows k then .copied (lineRange rows k) row else .expanded row) ∧
      steps.filterMap LineStep.range? = directiveRanges source := by
  refine ⟨directiveRanges_eq source, pairwise_directiveRanges source,
    length_lines_blank regions source, lineRange_lines_blank regions source, ?_,
    lineSteps_eq_mapIdx regions source, filterMap_range?_lineSteps regions source⟩
  refine ⟨(lineSteps (directiveRanges source) 0 (lines (blank regions source))).map
    LineStep.written, ?_, ?_⟩
  · rw [← List.flatMap_def, flatMap_written_lineSteps, expand]
  · rw [List.forall₂_map_right_iff, List.forall₂_same]
    exact fun step _ => step.writes_written

end ReflectGen.Source
