import ReflectGen.Proofs.ExpandedLine
import ReflectGen.Proofs.TextLines

namespace ReflectGen.Source

open Text

/-- The line numbered `k`, from zero, is a preprocessor line. -/
def IsDirectiveLine (source : List Char) (k : Nat) : Prop :=
  ∃ range ∈ directiveRanges source, (lineRanges 0 (lines source))[k]? = some range

section Ranges

/-- The ranges of the rows whose flag is set; the first row starts at `offset`. -/
def flaggedRanges (offset : Nat) (rows : List (List Char)) (flags : List Bool) : List ByteRange :=
  ((lineRanges offset rows).zip flags).filterMap fun (range, flag) =>
    if flag then some range else none

theorem length_directiveFlags (continued : Bool) (rows : List (List Char)) :
    (directiveFlags continued rows).length = rows.length := by
  induction rows generalizing continued with
  | nil => rfl
  | cons row rows ih => simp [directiveFlags, ih]

variable {offset k : Nat} {row : List Char} {rows : List (List Char)} {flags : List Bool}
  {range : ByteRange}

theorem flaggedRanges_cons_true : flaggedRanges offset (row :: rows) (true :: flags) =
    ⟨offset, offset + byteLength row⟩ :: flaggedRanges (offset + byteLength row) rows flags := by
  simp [flaggedRanges, lineRanges]

theorem flaggedRanges_cons_false : flaggedRanges offset (row :: rows) (false :: flags) =
    flaggedRanges (offset + byteLength row) rows flags := by
  simp [flaggedRanges, lineRanges]

theorem le_start_of_mem_lineRanges (h : range ∈ lineRanges offset rows) : offset ≤ range.start := by
  induction rows generalizing offset with
  | nil => cases h
  | cons row rows ih =>
    rcases List.mem_cons.mp h with rfl | h
    · exact Nat.le_refl _
    · have later := ih h
      omega

theorem mem_lineRanges_of_flagged (h : range ∈ flaggedRanges offset rows flags) :
    range ∈ lineRanges offset rows := by
  simp only [flaggedRanges, List.mem_filterMap, Option.ite_none_right_eq_some,
    Option.some.injEq] at h
  obtain ⟨⟨range', flag⟩, mem, -, rfl⟩ := h
  exact (List.of_mem_zip mem).1

/-- A row holds bytes, so no two rows have the same range and the flag of a row can be told from the
ranges. -/
theorem flagged_iff (filled : ∀ row ∈ rows, row ≠ []) (length : flags.length = rows.length) :
    (∃ range ∈ flaggedRanges offset rows flags, (lineRanges offset rows)[k]? = some range) ↔
      flags[k]? = some true := by
  induction rows generalizing offset flags k with
  | nil =>
    obtain rfl := List.length_eq_zero_iff.mp length
    simp [lineRanges]
  | cons row rows ih =>
    obtain ⟨flag, flags, rfl⟩ := List.exists_cons_of_length_eq_add_one length
    have positive := byteLength_pos (filled row List.mem_cons_self)
    have later : ∀ {range}, range ∈ lineRanges (offset + byteLength row) rows →
        offset < range.start := by
      intro range mem
      have := le_start_of_mem_lineRanges mem
      omega
    cases k with
    | zero =>
      rw [lineRanges, List.getElem?_cons_zero, List.getElem?_cons_zero]
      cases flag with
      | true => simp [flaggedRanges_cons_true]
      | false =>
        rw [flaggedRanges_cons_false]
        constructor
        · rintro ⟨range, mem, first⟩
          rw [Option.some.injEq] at first
          have start := later (mem_lineRanges_of_flagged mem)
          rw [← first] at start
          exact absurd start (Nat.lt_irrefl _)
        · intro set
          cases set
    | succ k =>
      rw [lineRanges, List.getElem?_cons_succ, List.getElem?_cons_succ,
        ← @ih (offset + byteLength row) k flags
          (fun row mem => filled row (List.mem_cons_of_mem _ mem)) (Nat.succ.inj length)]
      cases flag with
      | false => rw [flaggedRanges_cons_false]
      | true =>
        rw [flaggedRanges_cons_true]
        constructor
        · rintro ⟨range, mem, found⟩
          rcases List.mem_cons.mp mem with rfl | mem
          · have start := later (List.mem_of_getElem? found)
            exact absurd start (Nat.lt_irrefl _)
          · exact ⟨range, mem, found⟩
        · rintro ⟨range, mem, found⟩
          exact ⟨range, List.mem_cons_of_mem _ mem, found⟩

theorem isDirectiveLine_iff (source : List Char) (k : Nat) :
    IsDirectiveLine source k ↔ (directiveFlags false (lines source))[k]? = some true :=
  flagged_iff (fun _ mem => (lined_lines source).ne_nil_of_mem mem)
    (length_directiveFlags false (lines source))

instance (source : List Char) (k : Nat) : Decidable (IsDirectiveLine source k) :=
  decidable_of_iff _ (isDirectiveLine_iff source k).symm

theorem getElem?_lineRanges (before after : List (List Char)) :
    (lineRanges offset (before ++ row :: after))[before.length]? =
      some ⟨offset + byteLength before.flatten,
        offset + byteLength before.flatten + byteLength row⟩ := by
  induction before generalizing offset with
  | nil => rfl
  | cons first before ih =>
    rw [List.cons_append, lineRanges, List.length_cons, List.getElem?_cons_succ, ih,
      List.flatten_cons, byteLength_append, Nat.add_assoc offset]

/-- What becomes of a line: it is copied, as the one at which the next directive range starts, or
declarations are put for its calls. -/
inductive LineStep where
  | copied (range : ByteRange) (row : List Char)
  | expanded (row : List Char)
  deriving DecidableEq, Repr

/-- What becomes of the lines from `offset` on. -/
def lineSteps : List ByteRange → Nat → List (List Char) → List LineStep
  | _, _, [] => []
  | [], offset, row :: rest => .expanded row :: lineSteps [] (offset + byteLength row) rest
  | range :: ranges, offset, row :: rest =>
    if range.start = offset then
      .copied range row :: lineSteps ranges (offset + byteLength row) rest
    else .expanded row :: lineSteps (range :: ranges) (offset + byteLength row) rest

/-- A line with its range is copied if the flag is set. -/
def lineStep (line : ByteRange × Bool) (row : List Char) : LineStep :=
  if line.2 then .copied line.1 row else .expanded row

theorem lineSteps_cons_of_ne {ranges : List ByteRange} (h : ∀ range ∈ ranges, range.start ≠ offset)
    (row : List Char) (rows : List (List Char)) :
    lineSteps ranges offset (row :: rows) =
      .expanded row :: lineSteps ranges (offset + byteLength row) rows := by
  cases ranges with
  | nil => rfl
  | cons range ranges => rw [lineSteps, if_neg (h range List.mem_cons_self)]

/-- The walk over the rows meets the range of each flagged row just at that row. The ranges are
those of rows of the same length. -/
theorem lineSteps_flaggedRanges {shownRows : List (List Char)} (filled : ∀ row ∈ rows, row ≠ [])
    (length : flags.length = rows.length)
    (same : shownRows.map byteLength = rows.map byteLength) :
    lineSteps (flaggedRanges offset rows flags) offset shownRows =
      List.zipWith lineStep ((lineRanges offset rows).zip flags) shownRows := by
  induction rows generalizing offset flags shownRows with
  | nil =>
    obtain rfl := List.length_eq_zero_iff.mp length
    obtain rfl := List.map_eq_nil_iff.mp same
    rfl
  | cons row rows ih =>
    obtain ⟨flag, flags, rfl⟩ := List.exists_cons_of_length_eq_add_one length
    obtain ⟨shownRow, shownRows, rfl, here, there⟩ := List.map_eq_cons_iff.mp same
    have later := @ih (offset + byteLength row) flags shownRows
      (fun row mem => filled row (List.mem_cons_of_mem _ mem)) (Nat.succ.inj length) there
    rw [lineRanges, List.zip_cons_cons, List.zipWith_cons_cons, ← later]
    cases flag with
    | true =>
      rw [flaggedRanges_cons_true, lineSteps, if_pos rfl, here]
      rfl
    | false =>
      have positive := byteLength_pos (filled row List.mem_cons_self)
      rw [flaggedRanges_cons_false, lineSteps_cons_of_ne, here]
      · rfl
      · intro range mem
        have := le_start_of_mem_lineRanges (mem_lineRanges_of_flagged mem)
        omega

/-- The pieces of one line. -/
def linePieces (directive : Bool) (row : List Char) : List Piece :=
  if directive then row.map .kept else piecesFrom none 0 row

def LineStep.pieces : LineStep → List Piece
  | copied _ row => linePieces true row
  | expanded row => linePieces false row

theorem flatMap_pieces_lineSteps (ranges : List ByteRange) (offset : Nat)
    (rows : List (List Char)) :
    (lineSteps ranges offset rows).flatMap LineStep.pieces = pieceLines ranges offset rows := by
  induction rows generalizing ranges offset with
  | nil => cases ranges <;> rfl
  | cons row rows ih =>
    cases ranges with
    | nil =>
      rw [lineSteps, pieceLines, List.flatMap_cons, ih]
      rfl
    | cons range ranges =>
      rw [lineSteps, pieceLines]
      split
      · rw [List.flatMap_cons, ih]
        rfl
      · rw [List.flatMap_cons, ih]
        rfl

theorem pieces_lineStep (line : ByteRange × Bool) (row : List Char) :
    (lineStep line row).pieces = linePieces line.2 row := by
  obtain ⟨range, flag⟩ := line
  cases flag <;> rfl

theorem length_lineRanges (offset : Nat) (rows : List (List Char)) :
    (lineRanges offset rows).length = rows.length := by
  induction rows generalizing offset with
  | nil => rfl
  | cons row rows ih => rw [lineRanges, List.length_cons, ih, List.length_cons]

theorem pieceLines_flaggedRanges {shownRows : List (List Char)} (filled : ∀ row ∈ rows, row ≠ [])
    (length : flags.length = rows.length)
    (same : shownRows.map byteLength = rows.map byteLength) :
    pieceLines (flaggedRanges offset rows flags) offset shownRows =
      (List.zipWith linePieces flags shownRows).flatten := by
  have each : ((lineRanges offset rows).zip flags).map Prod.snd = flags :=
    List.map_snd_zip (Nat.le_of_eq (length.trans (length_lineRanges offset rows).symm))
  rw [← flatMap_pieces_lineSteps, lineSteps_flaggedRanges filled length same, List.flatMap,
    List.map_zipWith]
  simp only [pieces_lineStep]
  rw [← List.zipWith_map_left, each]

end Ranges

section BlankRows

variable (ranges : List ByteRange)

theorem blankFrom_append (offset : Nat) (xs ys : List Char) :
    blankFrom ranges offset (xs ++ ys) =
      blankFrom ranges offset xs ++ blankFrom ranges (offset + byteLength xs) ys := by
  induction xs generalizing offset with
  | nil => rfl
  | cons c xs ih =>
    rw [List.cons_append, blankFrom_step, blankFrom_step, ih, byteLength_cons, Nat.add_assoc,
      List.append_assoc]

theorem blankFrom_lineFeed (offset : Nat) : blankFrom ranges offset ['\n'] = ['\n'] := by
  simp [blankFrom]

theorem byteLength_blankFrom (offset : Nat) (cs : List Char) :
    byteLength (blankFrom ranges offset cs) = byteLength cs := by
  induction cs generalizing offset with
  | nil => rfl
  | cons c cs ih =>
    rw [blankFrom_step, byteLength_append, ih, byteLength_cons]
    split
    · rw [byteLength_blanks]
    · rfl

theorem notMem_blankFrom (offset : Nat) {body : List Char} (h : '\n' ∉ body) :
    '\n' ∉ blankFrom ranges offset body := by
  induction body generalizing offset with
  | nil => exact List.not_mem_nil
  | cons c body ih =>
    rw [List.mem_cons, not_or] at h
    rw [blankFrom_step, List.mem_append, not_or]
    refine ⟨?_, ih _ h.2⟩
    split
    · simp
    · simpa using h.1

theorem blankFrom_ne_nil (offset : Nat) {body : List Char} (h : body ≠ []) :
    blankFrom ranges offset body ≠ [] := by
  intro none
  have length := byteLength_blankFrom ranges offset body
  have positive := byteLength_pos h
  rw [none, byteLength_nil] at length
  omega

/-- Rows with blanks for the bytes of the ranges; the first one starts at `offset`. -/
def blankRows : Nat → List (List Char) → List (List Char)
  | _, [] => []
  | offset, row :: rows => blankFrom ranges offset row :: blankRows (offset + byteLength row) rows

theorem flatten_blankRows (offset : Nat) (rows : List (List Char)) :
    (blankRows ranges offset rows).flatten = blankFrom ranges offset rows.flatten := by
  induction rows generalizing offset with
  | nil => rfl
  | cons row rows ih => rw [blankRows, List.flatten_cons, List.flatten_cons, ih, blankFrom_append]

theorem lined_blankRows (offset : Nat) {rows : List (List Char)} (h : Lined rows) :
    Lined (blankRows ranges offset rows) := by
  induction h generalizing offset with
  | empty => exact .empty
  | unended some plain =>
    exact .unended (blankFrom_ne_nil ranges offset some) (notMem_blankFrom ranges offset plain)
  | ended plain later ih =>
    rw [blankRows, blankFrom_append, blankFrom_lineFeed]
    exact .ended (notMem_blankFrom ranges offset plain) (ih _)

theorem map_byteLength_blankRows (offset : Nat) (rows : List (List Char)) :
    (blankRows ranges offset rows).map byteLength = rows.map byteLength := by
  induction rows generalizing offset with
  | nil => rfl
  | cons row rows ih => rw [blankRows, List.map_cons, List.map_cons, ih, byteLength_blankFrom]

theorem getElem?_blankRows (offset : Nat) (row : List Char) (before after : List (List Char)) :
    (blankRows ranges offset (before ++ row :: after))[before.length]? =
      some (blankFrom ranges (offset + byteLength before.flatten) row) := by
  induction before generalizing offset with
  | nil => rfl
  | cons first before ih =>
    rw [List.cons_append, blankRows, List.length_cons, List.getElem?_cons_succ, ih,
      List.flatten_cons, byteLength_append, Nat.add_assoc]

theorem lines_blank (source : List Char) :
    lines (blank ranges source) = blankRows ranges 0 (lines source) := by
  have rows := (lined_blankRows ranges 0 (lined_lines source)).lines_flatten
  rw [flatten_blankRows, flatten_lines] at rows
  exact rows

theorem map_byteLength_lines_blank (source : List Char) :
    (lines (blank ranges source)).map byteLength = (lines source).map byteLength := by
  rw [lines_blank, map_byteLength_blankRows]

theorem length_lines_blank (source : List Char) :
    (lines (blank ranges source)).length = (lines source).length := by
  have same := congrArg List.length (map_byteLength_lines_blank ranges source)
  rwa [List.length_map, List.length_map] at same

theorem lines_shown (source : List Char) :
    lines (shown source) =
      blankRows (hiddenRanges (directiveRanges source) source) 0 (lines source) :=
  lines_blank _ source

end BlankRows

section Rows

/-- A line as it is prepared, once its hide calls are blank. -/
def preparedRow (directive : Bool) (row : List Char) : List Char :=
  if directive then row else expandLine row

theorem flatMap_written_linePieces (directive : Bool) (row : List Char) :
    (linePieces directive row).flatMap Piece.written = preparedRow directive row := by
  cases directive with
  | true => exact flatMap_written_kept row
  | false => exact flatMap_written_piecesFrom none 0 row

theorem pieces_eq (source : List Char) :
    pieces source =
      (List.zipWith linePieces (directiveFlags false (lines source))
        (lines (shown source))).flatten :=
  pieceLines_flaggedRanges (fun _ mem => (lined_lines source).ne_nil_of_mem mem)
    (length_directiveFlags false (lines source)) (map_byteLength_lines_blank _ source)

theorem flatten_preparedRows (flags : List Bool) (rows : List (List Char)) :
    (List.zipWith linePieces flags rows).flatten.flatMap Piece.written =
      (List.zipWith preparedRow flags rows).flatten := by
  induction flags generalizing rows with
  | nil => rfl
  | cons flag flags ih =>
    cases rows with
    | nil => rfl
    | cons row rows =>
      rw [List.zipWith_cons_cons, List.zipWith_cons_cons, List.flatten_cons, List.flatten_cons,
        List.flatMap_append, ih, flatMap_written_linePieces]

theorem lined_preparedRows {rows : List (List Char)} (h : Lined rows) {flags : List Bool}
    (length : flags.length = rows.length) : Lined (List.zipWith preparedRow flags rows) := by
  induction h generalizing flags with
  | empty =>
    obtain rfl := List.length_eq_zero_iff.mp length
    exact .empty
  | unended some plain =>
    obtain ⟨flag, flags, rfl⟩ := List.exists_cons_of_length_eq_add_one length
    obtain rfl := List.length_eq_zero_iff.mp (Nat.succ.inj length)
    cases flag with
    | true => exact .unended some plain
    | false => exact .unended (expandLine_ne_nil some) (notMem_expandLine plain)
  | ended plain later ih =>
    obtain ⟨flag, flags, rfl⟩ := List.exists_cons_of_length_eq_add_one length
    have rest := ih (Nat.succ.inj length)
    cases flag with
    | true => exact .ended plain rest
    | false =>
      rw [List.zipWith_cons_cons, preparedRow, if_neg Bool.false_ne_true,
        expandLine_append_lineFeed]
      exact .ended (notMem_expandLine plain) rest

theorem length_lines_shown (source : List Char) :
    (directiveFlags false (lines source)).length = (lines (shown source)).length := by
  rw [length_directiveFlags, shown, length_lines_blank]

/-- The lines of a prepared text are those of the source, each prepared by itself. -/
theorem lines_prepare (source : List Char) :
    lines (prepare source) =
      List.zipWith preparedRow (directiveFlags false (lines source)) (lines (shown source)) := by
  have rows := lined_preparedRows (lined_lines (shown source)) (length_lines_shown source)
  rw [← flatMap_written_pieces, pieces_eq, flatten_preparedRows, rows.lines_flatten]

theorem getElem?_lines_prepare {source row : List Char} {before after : List (List Char)}
    (split : lines source = before ++ row :: after) :
    (lines (prepare source))[before.length]? =
      some (preparedRow (decide (IsDirectiveLine source before.length))
        (blankFrom (hiddenRanges (directiveRanges source) source)
          (byteLength before.flatten) row)) := by
  have shownRow := getElem?_blankRows (hiddenRanges (directiveRanges source) source) 0 row before
    after
  rw [← split, ← lines_shown, Nat.zero_add] at shownRow
  have flag : (directiveFlags false (lines source))[before.length]? =
      some (decide (IsDirectiveLine source before.length)) := by
    have inside : before.length < (directiveFlags false (lines source)).length := by
      rw [length_directiveFlags, split, List.length_append, List.length_cons]
      omega
    rw [List.getElem?_eq_getElem inside]
    congr 1
    have line := isDirectiveLine_iff source before.length
    rw [List.getElem?_eq_getElem inside, Option.some.injEq] at line
    rw [Bool.eq_iff_iff, ← line, decide_eq_true_eq]
  rw [lines_prepare, List.getElem?_zipWith, flag, shownRow]

end Rows

section LineFeeds

/-- Every reading has a line feed for each piece that is one, and no other. -/
theorem Reading.count_lineFeed {f : Piece → List Char} (hf : Reading f) {ps : List Piece}
    (h : ∀ p ∈ ps, p.OneLine) : (ps.flatMap f).count '\n' = ps.count (.kept '\n') := by
  induction ps with
  | nil => rfl
  | cons p ps ih =>
    have later := ih fun q mem => h q (List.mem_cons_of_mem p mem)
    rw [List.flatMap_cons, List.count_append, later]
    by_cases feed : p = .kept '\n'
    · subst feed
      rw [hf.kept, List.count_singleton_self, List.count_cons_self, Nat.add_comm]
    · have plain := hf.unbroken p (h p List.mem_cons_self) feed
      rw [List.count_eq_zero_of_not_mem plain, List.count_cons_of_ne feed, Nat.zero_add]

theorem count_lineFeed_blankFrom (ranges : List ByteRange) (offset : Nat) (cs : List Char) :
    (blankFrom ranges offset cs).count '\n' = cs.count '\n' := by
  induction cs generalizing offset with
  | nil => rfl
  | cons c cs ih =>
    have head : (c :: cs).count '\n' = [c].count '\n' + cs.count '\n' := by
      rw [← List.count_append, List.singleton_append]
    rw [blankFrom_step, List.count_append, ih, head]
    split
    · rename_i blanked
      rw [Bool.and_eq_true, decide_eq_true_eq] at blanked
      have other : [c].count '\n' = 0 :=
        List.count_eq_zero_of_not_mem (by simpa using blanked.2.symm)
      rw [other, List.count_replicate]
      rfl
    · rfl

theorem count_lineFeed_prepare (source : List Char) :
    (prepare source).count '\n' = source.count '\n' := by
  have written := reading_written.count_lineFeed (oneLine_pieces source)
  have read := reading_read.count_lineFeed (oneLine_pieces source)
  rw [flatMap_written_pieces] at written
  rw [flatMap_read_pieces] at read
  rw [written, ← read, shown, blank, count_lineFeed_blankFrom]

end LineFeeds

section RowBytes

theorem length_encode (cs : List Char) : (encode (String.ofList cs)).length = byteLength cs := by
  rw [encode_ofList]
  induction cs with
  | nil => rfl
  | cons c cs ih =>
    rw [List.flatMap_cons, List.length_append, ih, String.length_utf8EncodeChar, byteLength_cons]

variable {source pre row post : List Char}

/-- The bytes of a line with its hide calls blank. -/
theorem encode_blankRow (text : source = pre ++ (row ++ post)) :
    encode (String.ofList
        (blankFrom (hiddenRanges (directiveRanges source) source) (byteLength pre) row)) =
      (encode (String.ofList row)).mapIdx fun i => shownByte source (byteLength pre + i) := by
  have whole := encode_blankFrom (hides_hiddenRanges_iff source) text
  rw [blankFrom_append, List.flatMap_append, List.flatMap_append, List.mapIdx_append,
    ← encode_ofList, ← encode_ofList, ← encode_ofList] at whole
  apply List.append_inj_left whole
  rw [List.length_mapIdx, length_encode, length_encode, byteLength_blankFrom]

/-- A line is shown as it is just where all its bytes in a hide call are blanks and line feeds. -/
theorem blankRow_eq_iff (text : source = pre ++ (row ++ post)) :
    blankFrom (hiddenRanges (directiveRanges source) source) (byteLength pre) row = row ↔
      ∀ i byte, (encode (String.ofList row))[i]? = some byte →
        IsHidden source (byteLength pre + i) → byte = 32 ∨ byte = 10 := by
  have bytes := encode_blankRow text
  constructor
  · intro same i byte found hidden
    rw [same] at bytes
    have here := List.mapIdx_eq_iff.mp bytes.symm i
    rw [found, Option.map_some, Option.some.injEq, shownByte] at here
    by_cases feed : byte = 10
    · exact .inr feed
    · rw [if_pos ⟨hidden, feed⟩] at here
      exact .inl here
  · intro plain
    apply String.ofList_injective
    apply encode_injective
    rw [bytes, List.mapIdx_eq_iff]
    intro i
    cases found : (encode (String.ofList row))[i]? with
    | none => rfl
    | some byte =>
      rw [Option.map_some, shownByte]
      split
      · rename_i blanked
        have blank := (plain i byte found blanked.1).resolve_right blanked.2
        rw [blank]
      · rfl

theorem flatten_split {before after : List (List Char)}
    (split : lines source = before ++ row :: after) :
    source = before.flatten ++ (row ++ after.flatten) := by
  have whole := flatten_lines source
  rw [split, List.flatten_append, List.flatten_cons] at whole
  exact whole.symm

end RowBytes

/-- No line break moves. Every line has blanks for its bytes in hide calls and then, unless it is a
preprocessor line, a declaration for each of its directive calls; so a line without either stays as
it is. -/
theorem prepared_line_by_line (source : List Char) :
    (prepare source).count '\n' = source.count '\n' ∧
      (lines (prepare source)).length = (lines source).length ∧
      ∀ before row after, lines source = before ++ row :: after →
        ∃ blanked out, (lines (prepare source))[before.length]? = some out ∧
          encode (String.ofList blanked) = ((encode (String.ofList row)).mapIdx fun i byte =>
            if IsHidden source (byteLength before.flatten + i) ∧ byte ≠ 10 then 32 else byte) ∧
          (IsDirectiveLine source before.length → out = blanked) ∧
          (¬IsDirectiveLine source before.length → Expands blanked out) ∧
          ((∀ i < byteLength row, ¬IsHidden source (byteLength before.flatten + i)) →
            (∀ pre d call post, ¬IsDirectiveCall row pre d call post) → out = row) := by
  have length : (lines (prepare source)).length = (lines source).length := by
    rw [lines_prepare, List.length_zipWith, ← length_lines_shown, Nat.min_self,
      length_directiveFlags]
  refine ⟨count_lineFeed_prepare source, length, fun before row after split => ?_⟩
  have text := flatten_split split
  let blanked := blankFrom (hiddenRanges (directiveRanges source) source)
    (byteLength before.flatten) row
  let out := preparedRow (decide (IsDirectiveLine source before.length)) blanked
  have copied : IsDirectiveLine source before.length → out = blanked := by
    intro directive
    simp only [out, preparedRow, directive, decide_true, if_true]
  have expanded : ¬IsDirectiveLine source before.length → Expands blanked out := by
    intro ordinary
    simp only [out, preparedRow, ordinary, decide_false, Bool.false_eq_true, if_false]
    exact expands_expandLine blanked
  refine ⟨blanked, out, getElem?_lines_prepare split, encode_blankRow text, copied, expanded, ?_⟩
  intro visible uncalled
  have same : blanked = row := by
    rw [blankRow_eq_iff text]
    intro i byte found hidden
    have inside : i < byteLength row := by
      rw [← length_encode]
      exact (List.getElem?_eq_some_iff.mp found).1
    exact absurd hidden (visible i inside)
  by_cases directive : IsDirectiveLine source before.length
  · rw [copied directive, same]
  · have expands := expanded directive
    rw [same] at expands
    exact expands.eq_of_no_call uncalled

/-- A hide call over a line break with a directive call behind it, and a line that has neither. -/
def mixedLines : List Char := "HIDE_FROM_CODEGEN(\nx) SERIALIZE_STRUCT()\r\nint y;".toList

theorem mixedLines_last_kept :
    lines mixedLines = (lines mixedLines).take 2 ++ ["int y;".toList] ∧
      (lines (prepare mixedLines))[2]? = some "int y;".toList := by
  have split : lines mixedLines = (lines mixedLines).take 2 ++ ["int y;".toList] := by
    decide +kernel
  have visible : ∀ i < byteLength "int y;".toList,
      ¬IsHidden mixedLines (byteLength ((lines mixedLines).take 2).flatten + i) := by
    decide +kernel
  have uncalled : ∀ pre d call post, ¬IsDirectiveCall "int y;".toList pre d call post := by
    intro pre d call post found
    obtain ⟨body, rfl⟩ := found.shape.ends
    have closes : ')' ∈ "int y;".toList := by
      rw [found.text]
      simp
    exact absurd closes (by decide)
  obtain ⟨-, -, rows⟩ := prepared_line_by_line mixedLines
  obtain ⟨blanked, out, found, -, -, -, kept⟩ := rows _ _ _ split
  rw [kept visible uncalled] at found
  exact ⟨split, found⟩

section DirectiveLines

variable {source row : List Char} {before after : List (List Char)}

/-- A hide call does not start on a preprocessor line, so one that reaches into such a line has all
of it up to some byte. -/
theorem isHidden_start (split : lines source = before ++ row :: after)
    (directive : IsDirectiveLine source before.length) {i : Nat} (inside : i < byteLength row)
    (hidden : IsHidden source (byteLength before.flatten + i)) :
    IsHidden source (byteLength before.flatten) := by
  obtain ⟨range, mem, found⟩ := directive
  rw [split, getElem?_lineRanges, Nat.zero_add, Option.some.injEq] at found
  obtain ⟨start, call, rest, isCall, lo, hi⟩ := hidden
  have outside := isCall.outside range mem
  simp only [← found, ByteRange.contains, Bool.and_eq_true, decide_eq_true_eq] at outside
  exact ⟨start, call, rest, isCall, by omega, by omega⟩

/-- A preprocessor line has blanks for its bytes in hide calls and no other change. It stays as it
is where no hide call reaches into it, and else only if the call has nothing of it but blanks. -/
theorem directive_line_prepared (split : lines source = before ++ row :: after)
    (directive : IsDirectiveLine source before.length) :
    ∃ out, (lines (prepare source))[before.length]? = some out ∧
      (¬IsHidden source (byteLength before.flatten) → out = row) ∧
      (out = row ↔ ∀ i byte, (encode (String.ofList row))[i]? = some byte →
        IsHidden source (byteLength before.flatten + i) → byte = 32 ∨ byte = 10) ∧
      encode (String.ofList out) = (encode (String.ofList row)).mapIdx fun i byte =>
        if IsHidden source (byteLength before.flatten + i) ∧ byte ≠ 10 then 32 else byte := by
  have text := flatten_split split
  have same := blankRow_eq_iff text
  refine ⟨_, getElem?_lines_prepare split, ?_⟩
  simp only [preparedRow, directive, decide_true, if_true]
  refine ⟨fun visible => ?_, same, encode_blankRow text⟩
  rw [same]
  intro i byte found hidden
  have inside : i < byteLength row := by
    rw [← length_encode]
    exact (List.getElem?_eq_some_iff.mp found).1
  exact absurd (isHidden_start split directive inside hidden) visible

/-- A conditional in the argument of a hide call, and a definition after the call. -/
def hiddenConditional : List Char :=
  "HIDE_FROM_CODEGEN(\n#if A\nint x;\n#endif\n)\n#define B\nint y;\n".toList

theorem hiddenConditional_blanked :
    (lines hiddenConditional)[1]? = some "#if A\n".toList ∧ IsDirectiveLine hiddenConditional 1 ∧
      (lines (prepare hiddenConditional))[1]? = some "     \n".toList := by
  decide +kernel

theorem hiddenConditional_definition_kept :
    IsDirectiveLine hiddenConditional 5 ∧
      (lines (prepare hiddenConditional))[5]? = some "#define B\n".toList := by
  have split : lines hiddenConditional =
      (lines hiddenConditional).take 5 ++ "#define B\n".toList :: ["int y;\n".toList] := by
    decide +kernel
  have directive : IsDirectiveLine hiddenConditional 5 := by decide +kernel
  have visible : ¬IsHidden hiddenConditional
      (byteLength ((lines hiddenConditional).take 5).flatten) := by
    decide +kernel
  obtain ⟨out, found, kept, -⟩ := directive_line_prepared split directive
  rw [kept visible] at found
  exact ⟨directive, found⟩

end DirectiveLines

end ReflectGen.Source
