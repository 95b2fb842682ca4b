import Mathlib.Data.List.Induction
import ReflectGen.Proofs.DirectiveCalls
import ReflectGen.Proofs.TextPlaces

namespace ReflectGen.Source

open Text

/-- A piece of a prepared text: a character of the source as it is shown, or the declaration put for
a directive call. -/
inductive Piece where
  | kept (c : Char)
  | call (directive : Directive) (text : List Char)
  deriving DecidableEq, Repr

namespace Piece

/-- What stands in the prepared text. -/
def written : Piece → List Char
  | kept c => [c]
  | call d _ => ("void " ++ d.marker ++ "();").toList

theorem written_call (d : Directive) (text : List Char) : (call d text).written = declaration d :=
  rfl

/-- What stands in the source. -/
def read : Piece → List Char
  | kept c => [c]
  | call _ text => text

end Piece

/-- The pieces of a line, as declarations are put for its calls. `skip` counts characters of a call
already replaced. -/
def piecesFrom : Option Char → Nat → List Char → List Piece
  | _, _, [] => []
  | _, skip + 1, c :: cs => piecesFrom (some c) skip cs
  | before, 0, c :: cs =>
    match directiveCall? before (c :: cs) with
    | none => .kept c :: piecesFrom (some c) 0 cs
    | some (d, call) => .call d call :: piecesFrom (some c) (call.length - 1) cs

/-- The pieces of all lines from `offset` on; those of a directive range are kept. -/
def pieceLines : List ByteRange → Nat → List (List Char) → List Piece
  | _, _, [] => []
  | [], offset, line :: rest =>
    piecesFrom none 0 line ++ pieceLines [] (offset + byteLength line) rest
  | range :: ranges, offset, line :: rest =>
    if range.start = offset then
      line.map .kept ++ pieceLines ranges (offset + byteLength line) rest
    else piecesFrom none 0 line ++ pieceLines (range :: ranges) (offset + byteLength line) rest

/-- A source with its hide calls blank. -/
def shown (source : List Char) : List Char :=
  blank (hiddenRanges (directiveRanges source) source) source

def pieces (source : List Char) : List Piece :=
  pieceLines (directiveRanges source) 0 (lines (shown source))

section Readings

theorem flatMap_written_kept (cs : List Char) : (cs.map Piece.kept).flatMap Piece.written = cs := by
  rw [List.flatMap_map]
  exact List.flatMap_singleton' cs

theorem flatMap_read_kept (cs : List Char) : (cs.map Piece.kept).flatMap Piece.read = cs := by
  rw [List.flatMap_map]
  exact List.flatMap_singleton' cs

theorem flatMap_written_piecesFrom (before : Option Char) (skip : Nat) (cs : List Char) :
    (piecesFrom before skip cs).flatMap Piece.written = expandFrom before skip cs := by
  induction cs generalizing before skip with
  | nil => cases skip <;> rfl
  | cons c cs ih =>
    cases skip with
    | succ skip => exact ih (some c) skip
    | zero =>
      rw [piecesFrom, expandFrom]
      cases directiveCall? before (c :: cs) with
      | none => simp [Piece.written, ih]
      | some found => simp [Piece.written_call, ih]

theorem flatMap_written_pieceLines (ranges : List ByteRange) (offset : Nat)
    (texts : List (List Char)) :
    (pieceLines ranges offset texts).flatMap Piece.written = expandLines ranges offset texts := by
  induction texts generalizing ranges offset with
  | nil => cases ranges <;> rfl
  | cons line rest ih =>
    cases ranges with
    | nil =>
      rw [pieceLines, expandLines, List.flatMap_append, flatMap_written_piecesFrom, ih]
      rfl
    | cons range ranges =>
      rw [pieceLines, expandLines]
      split
      · rw [List.flatMap_append, flatMap_written_kept, ih]
      · rw [List.flatMap_append, flatMap_written_piecesFrom, ih]
        rfl

theorem flatMap_written_pieces (source : List Char) :
    (pieces source).flatMap Piece.written = prepare source :=
  flatMap_written_pieceLines _ _ _

/-- A directive call starts the text it is found in, and ends with a parenthesis. -/
theorem directiveCall?_spec {before : Option Char} {cs call : List Char} {d : Directive}
    (h : directiveCall? before cs = some (d, call)) :
    ∃ body rest, call = body ++ [')'] ∧ cs = call ++ rest := by
  obtain ⟨-, shape, rest, text⟩ := directiveCall?_eq_some_iff.mp h
  obtain ⟨body, ends⟩ := shape.ends
  exact ⟨body, rest, ends, text.symm⟩

theorem flatMap_read_piecesFrom (before : Option Char) (skip : Nat) (cs : List Char) :
    (piecesFrom before skip cs).flatMap Piece.read = cs.drop skip := by
  induction cs generalizing before skip with
  | nil => cases skip <;> rfl
  | cons c cs ih =>
    cases skip with
    | succ skip => exact ih (some c) skip
    | zero =>
      rw [piecesFrom]
      cases found : directiveCall? before (c :: cs) with
      | none => simp [Piece.read, ih]
      | some found' =>
        obtain ⟨d, call⟩ := found'
        obtain ⟨body, rest, hcall, htext⟩ := directiveCall?_spec found
        have nonempty : call ≠ [] := by simp [hcall]
        obtain ⟨c', call, rfl⟩ := List.exists_cons_of_ne_nil nonempty
        rw [List.cons_append, List.cons.injEq] at htext
        simp only [List.flatMap_cons, ih, Piece.read, List.length_cons, Nat.add_sub_cancel]
        rw [htext.2, List.drop_left, htext.1]
        rfl

theorem flatMap_read_pieceLines (ranges : List ByteRange) (offset : Nat)
    (texts : List (List Char)) :
    (pieceLines ranges offset texts).flatMap Piece.read = texts.flatten := by
  induction texts generalizing ranges offset with
  | nil => cases ranges <;> rfl
  | cons line rest ih =>
    cases ranges with
    | nil =>
      rw [pieceLines, List.flatMap_append, flatMap_read_piecesFrom, ih, List.drop_zero,
        List.flatten_cons]
    | cons range ranges =>
      rw [pieceLines]
      split
      · rw [List.flatMap_append, flatMap_read_kept, ih, List.flatten_cons]
      · rw [List.flatMap_append, flatMap_read_piecesFrom, ih, List.drop_zero, List.flatten_cons]

theorem flatMap_read_pieces (source : List Char) :
    (pieces source).flatMap Piece.read = shown source := by
  rw [pieces, flatMap_read_pieceLines, flatten_lines]

end Readings

section Lines

/-- The call of a piece, if it is one, spans no line break. -/
def Piece.OneLine : Piece → Prop
  | kept _ => True
  | call _ text => '\n' ∉ text

theorem notMem_dropLast_of_mem_lines {cs line : List Char} (h : line ∈ lines cs) :
    '\n' ∉ line.dropLast := by
  induction cs generalizing line with
  | nil => cases h
  | cons c cs ih =>
    rw [lines] at h
    split at h
    · rcases List.mem_cons.mp h with rfl | h
      · exact List.not_mem_nil
      · exact ih h
    · rename_i feed
      cases rest : lines cs with
      | nil =>
        rw [rest] at h
        cases List.mem_singleton.mp h
        exact List.not_mem_nil
      | cons first others =>
        rw [rest] at h ih
        rcases List.mem_cons.mp h with rfl | h
        · have none := ih List.mem_cons_self
          cases first with
          | nil => exact List.not_mem_nil
          | cons d first =>
            rw [List.dropLast_cons_cons, List.mem_cons, not_or]
            exact ⟨Ne.symm feed, none⟩
        · exact ih (List.mem_cons_of_mem _ h)

theorem oneLine_piecesFrom (before : Option Char) (skip : Nat) {cs : List Char}
    (h : '\n' ∉ cs.dropLast) : ∀ p ∈ piecesFrom before skip cs, p.OneLine := by
  induction cs generalizing before skip with
  | nil => cases skip <;> exact fun p mem => by cases mem
  | cons c cs ih =>
    have later : '\n' ∉ cs.dropLast := by
      intro mem
      cases cs with
      | nil => cases mem
      | cons d cs => exact h (List.mem_cons_of_mem _ mem)
    cases skip with
    | succ skip => exact ih _ skip later
    | zero =>
      rw [piecesFrom]
      cases found : directiveCall? before (c :: cs) with
      | none =>
        intro p mem
        rcases List.mem_cons.mp mem with rfl | mem
        · trivial
        · exact ih _ _ later p mem
      | some found' =>
        obtain ⟨d, call⟩ := found'
        intro p mem
        rcases List.mem_cons.mp mem with rfl | mem
        · -- Only the last character of a line is a line feed, and that of a call is none.
          obtain ⟨body, rest, rfl, htext⟩ := directiveCall?_spec found
          intro feed
          have inner : '\n' ∈ body := by simpa using feed
          apply h
          rw [htext, List.append_assoc, List.dropLast_append_of_ne_nil (by simp)]
          exact List.mem_append_left _ inner
        · exact ih _ _ later p mem

theorem oneLine_pieceLines {ranges : List ByteRange} {offset : Nat} {texts : List (List Char)}
    (h : ∀ line ∈ texts, '\n' ∉ line.dropLast) :
    ∀ p ∈ pieceLines ranges offset texts, p.OneLine := by
  induction texts generalizing ranges offset with
  | nil => cases ranges <;> exact fun p mem => by cases mem
  | cons line rest ih =>
    have here := oneLine_piecesFrom none 0 (h line List.mem_cons_self)
    have later : ∀ {ranges offset}, ∀ p ∈ pieceLines ranges offset rest, p.OneLine :=
      ih fun line mem => h line (List.mem_cons_of_mem _ mem)
    cases ranges with
    | nil =>
      intro p mem
      rcases List.mem_append.mp mem with mem | mem
      · exact here p mem
      · exact later p mem
    | cons range ranges =>
      intro p mem
      rw [pieceLines] at mem
      split at mem
      · rcases List.mem_append.mp mem with mem | mem
        · obtain ⟨c, -, rfl⟩ := List.mem_map.mp mem
          trivial
        · exact later p mem
      · rcases List.mem_append.mp mem with mem | mem
        · exact here p mem
        · exact later p mem

theorem oneLine_pieces (source : List Char) : ∀ p ∈ pieces source, p.OneLine :=
  oneLine_pieceLines fun _ mem => notMem_dropLast_of_mem_lines mem

/-- The pieces after the last line break. -/
def openLine (ps : List Piece) : List Piece :=
  (ps.reverse.takeWhile (· ≠ .kept '\n')).reverse

theorem openLine_break (ps : List Piece) : openLine (ps ++ [.kept '\n']) = [] := by
  simp [openLine]

theorem openLine_snoc {p : Piece} (ps : List Piece) (h : p ≠ .kept '\n') :
    openLine (ps ++ [p]) = openLine ps ++ [p] := by
  simp [openLine, h]

theorem notMem_declaration (d : Directive) : '\n' ∉ declaration d := by
  rcases d with _ | _ | _ <;> decide

/-- A reading of pieces that keeps the characters and breaks no line elsewhere. -/
structure Reading (f : Piece → List Char) : Prop where
  kept : ∀ c, f (.kept c) = [c]
  unbroken : ∀ p, p.OneLine → p ≠ .kept '\n' → '\n' ∉ f p

theorem reading_written : Reading Piece.written where
  kept _ := rfl
  unbroken p _ feed := by
    cases p with
    | kept c => simpa [Piece.written, eq_comm] using feed
    | call d text => exact notMem_declaration d

theorem reading_read : Reading Piece.read where
  kept _ := rfl
  unbroken p line feed := by
    cases p with
    | kept c => simpa [Piece.read, eq_comm] using feed
    | call d text => exact line

/-- Every reading breaks its lines at the same pieces. -/
theorem Reading.spot {f : Piece → List Char} (hf : Reading f) (ps : List Piece)
    (h : ∀ p ∈ ps, p.OneLine) :
    Text.spot (ps.flatMap f) =
      (ps.count (.kept '\n'), byteLength ((openLine ps).flatMap f)) := by
  induction ps using List.reverseRecOn with
  | nil => rfl
  | append_singleton ps p ih =>
    have earlier := ih fun q mem => h q (List.mem_append_left _ mem)
    rw [List.flatMap_append, List.flatMap_singleton, spot_append, earlier, List.count_append]
    by_cases feed : p = .kept '\n'
    · subst feed
      rw [hf.kept, openLine_break]
      rfl
    · have plain := hf.unbroken p (h p (by simp)) feed
      have uncounted : [p].count (.kept '\n') = 0 :=
        List.count_eq_zero_of_not_mem (by simpa [eq_comm] using feed)
      rw [spot_of_notMem plain, openLine_snoc ps feed, List.flatMap_append, byteLength_append,
        uncounted, List.flatMap_singleton, if_pos rfl]

end Lines

section Alignment

/-- Some part of the range from `start` to `stop` of the prepared text is the declaration put for a
call. -/
def MeetsDeclaration (ps : List Piece) (start stop : Nat) : Prop :=
  ∃ before d text after, ps = before ++ .call d text :: after ∧
    byteLength (before.flatMap Piece.written) < stop ∧
      start < byteLength (before.flatMap Piece.written) + byteLength (declaration d)

/-- Some part of the range from `start` to `stop` of a reading is what it has for a call. -/
def MeetsCall (f : Piece → List Char) (ps : List Piece) (start stop : Nat) : Prop :=
  ∃ before d text after, ps = before ++ .call d text :: after ∧
    byteLength (before.flatMap f) < stop ∧
      start < byteLength (before.flatMap f) + byteLength (f (.call d text))

variable {f : Piece → List Char} {ps : List Piece}

theorem MeetsCall.cons {start stop : Nat} (p : Piece) (h : MeetsCall f ps start stop) :
    MeetsCall f (p :: ps) (byteLength (f p) + start) (byteLength (f p) + stop) := by
  obtain ⟨before, d, text, after, rfl, lo, hi⟩ := h
  refine ⟨p :: before, d, text, after, rfl, ?_, ?_⟩ <;>
    rw [List.flatMap_cons, byteLength_append] <;> omega

/-- A word at the start of a reading is made of kept characters or meets a call. -/
theorem copied_prefix (kept : ∀ c, f (.kept c) = [c])
    (some : ∀ d text, .call d text ∈ ps → f (.call d text) ≠ []) {w b : List Char}
    (h : ps.flatMap f = w ++ b) :
    MeetsCall f ps 0 (byteLength w) ∨ ∃ after, ps = w.map .kept ++ after := by
  induction ps generalizing w with
  | nil =>
    have none : w = [] := (List.append_eq_nil_iff.mp h.symm).1
    exact .inr ⟨[], by simp [none]⟩
  | cons p ps ih =>
    have later := fun d text mem => some d text (List.mem_cons_of_mem p mem)
    cases w with
    | nil => exact .inr ⟨p :: ps, rfl⟩
    | cons c w =>
      cases p with
      | kept c' =>
        obtain ⟨rfl, rest⟩ : c' = c ∧ ps.flatMap f = w ++ b := by
          simpa [kept] using h
        rcases ih later rest with meets | ⟨after, rfl⟩
        · obtain ⟨before, d, text, after, split, lo, hi⟩ := meets.cons (.kept c')
          rw [kept, byteLength_cons, byteLength_nil] at lo
          refine .inl ⟨before, d, text, after, split, ?_, Nat.lt_of_le_of_lt (Nat.zero_le _) hi⟩
          rw [byteLength_cons]
          omega
        · exact .inr ⟨after, rfl⟩
      | call d text =>
        left
        refine ⟨[], d, text, ps, rfl, byteLength_pos (List.cons_ne_nil c w), ?_⟩
        rw [List.flatMap_nil, byteLength_nil, Nat.zero_add]
        exact byteLength_pos (some d text List.mem_cons_self)

/-- A word of a reading is made of kept characters or meets a call. -/
theorem copied_or_meetsCall (kept : ∀ c, f (.kept c) = [c])
    (some : ∀ d text, .call d text ∈ ps → f (.call d text) ≠ []) {a w b : List Char} (hw : w ≠ [])
    (h : ps.flatMap f = a ++ (w ++ b)) :
    MeetsCall f ps (byteLength a) (byteLength a + byteLength w) ∨
      ∃ before after, ps = before ++ (w.map .kept ++ after) ∧ before.flatMap f = a := by
  induction ps generalizing a with
  | nil => simp [hw] at h
  | cons p ps ih =>
    have later := fun d text mem => some d text (List.mem_cons_of_mem p mem)
    rw [List.flatMap_cons] at h
    have behind : ∀ a', a = f p ++ a' → ps.flatMap f = a' ++ (w ++ b) →
        MeetsCall f (p :: ps) (byteLength a) (byteLength a + byteLength w) ∨
          ∃ before after, p :: ps = before ++ (w.map .kept ++ after) ∧
            before.flatMap f = a := by
      rintro a' rfl rest
      rcases ih later rest with meets | ⟨before, after, rfl, rfl⟩
      · rw [byteLength_append, Nat.add_assoc]
        exact .inl (meets.cons p)
      · exact .inr ⟨p :: before, after, rfl, List.flatMap_cons⟩
    rcases List.append_eq_append_iff.mp h with ⟨a', ha, rest⟩ | ⟨z, hp, rest⟩
    · exact behind a' ha rest
    · cases z with
      | nil => exact behind [] (by simpa using hp.symm) (by simpa using rest.symm)
      | cons x z =>
        cases p with
        | kept c =>
          -- A piece of one character is cut nowhere but before it.
          rw [kept] at hp
          obtain ⟨rfl, -⟩ | ⟨-, none⟩ := List.append_eq_singleton_iff.mp hp.symm
          case inr => cases none
          rw [List.nil_append, ← List.flatMap_cons] at h
          rcases copied_prefix kept some h with meets | ⟨after, copied⟩
          · left
            simpa using meets
          · exact .inr ⟨[], after, copied, rfl⟩
        | call d text =>
          have inside : byteLength a < byteLength (f (.call d text)) := by
            have length := congrArg byteLength hp
            have positive := byteLength_pos (List.cons_ne_nil x z)
            rw [byteLength_append] at length
            omega
          have positive := byteLength_pos hw
          refine .inl ⟨[], d, text, ps, rfl, ?_, ?_⟩ <;>
            rw [List.flatMap_nil, byteLength_nil] <;> omega

theorem declaration_ne_nil (d : Directive) : declaration d ≠ [] := by
  rcases d with _ | _ | _ <;> decide

/-- A word of the prepared text is copied from the source or meets a declaration. -/
theorem copied_or_meets {a w b : List Char} (hw : w ≠ [])
    (h : ps.flatMap Piece.written = a ++ (w ++ b)) :
    MeetsDeclaration ps (byteLength a) (byteLength a + byteLength w) ∨
      ∃ before after, ps = before ++ (w.map .kept ++ after) ∧
        before.flatMap Piece.written = a :=
  copied_or_meetsCall (fun _ => rfl) (fun d _ _ => declaration_ne_nil d) hw h

end Alignment

section Blanks

/-- A word that starts at `start` has a blank, and some byte of it lies in a hide call. -/
structure MeetsHidden (source : List Char) (start : Nat) (w : List Char) : Prop where
  blank : ' ' ∈ w
  hidden : ∃ offset, start ≤ offset ∧ offset < start + byteLength w ∧ IsHidden source offset

variable {source before rest : List Char} {ranges : List ByteRange}

theorem byteLength_blanks (n : Nat) : byteLength (List.replicate n ' ') = n := by
  induction n with
  | zero => rfl
  | succ n ih =>
    have one : ' '.utf8Size = 1 := rfl
    rw [List.replicate_succ, byteLength_cons, ih, one, Nat.add_comm]

/-- What is shown for one character: the character itself, or blanks of its length. -/
theorem blankFrom_cons (before : List Char) (c : Char) (rest : List Char)
    (hidden : ∀ offset, hides ranges offset = true ↔ IsHidden source offset) :
    ∃ here, blankFrom ranges (byteLength before) (c :: rest) =
        here ++ blankFrom ranges (byteLength (before ++ [c])) rest ∧
      byteLength here = c.utf8Size ∧ spot here = spot [c] ∧
        (here = [c] ∨ (∀ b ∈ here, b = ' ') ∧ IsHidden source (byteLength before)) := by
  have next : byteLength (before ++ [c]) = byteLength before + c.utf8Size := by simp
  rw [blankFrom_step, next]
  refine ⟨_, rfl, ?_⟩
  split
  · rename_i blanked
    rw [Bool.and_eq_true, hidden, decide_eq_true_eq] at blanked
    have plain : '\n' ∉ List.replicate c.utf8Size ' ' := by simp
    have single : '\n' ∉ [c] := by simpa [eq_comm] using blanked.2
    refine ⟨byteLength_blanks _, ?_, .inr ⟨fun b => List.eq_of_mem_replicate, blanked.1⟩⟩
    rw [spot_of_notMem plain, spot_of_notMem single, byteLength_blanks]
    rfl
  · exact ⟨rfl, rfl, .inl rfl⟩

/-- A word that starts within the blanks shown for one character. -/
theorem MeetsHidden.of_blanks {c : Char} {u z w v : List Char} {after : List Char}
    (text : source = before ++ c :: rest) (h : IsHidden source (byteLength before))
    (blanks : ∀ b ∈ u ++ z, b = ' ') (length : byteLength (u ++ z) = c.utf8Size) (hz : z ≠ [])
    (hw : w ≠ []) (starts : w ++ v = z ++ after) :
    MeetsHidden source (byteLength (before ++ u)) w := by
  obtain ⟨x, z, rfl⟩ := List.exists_cons_of_ne_nil hz
  obtain ⟨y, w, rfl⟩ := List.exists_cons_of_ne_nil hw
  rw [List.cons_append, List.cons_append, List.cons.injEq] at starts
  have blank : x = ' ' := blanks x (by simp)
  have inside : byteLength u < c.utf8Size := by
    have more := byteLength_pos (List.cons_ne_nil x z)
    rw [byteLength_append] at length
    omega
  have positive := byteLength_pos (List.cons_ne_nil y w)
  refine ⟨by simp [starts.1, blank], byteLength (before ++ u), Nat.le_refl _, by omega, ?_⟩
  rw [byteLength_append]
  exact (isHidden_char text inside).mpr h

/-- A word at the start of what is shown stands in the source or meets a hide call. -/
theorem shown_prefix {w v : List Char}
    (hidden : ∀ offset, hides ranges offset = true ↔ IsHidden source offset)
    (text : source = before ++ rest)
    (h : blankFrom ranges (byteLength before) rest = w ++ v) :
    MeetsHidden source (byteLength before) w ∨ ∃ rest', rest = w ++ rest' := by
  induction rest generalizing before w with
  | nil =>
    have none : w = [] := (List.append_eq_nil_iff.mp h.symm).1
    exact .inr ⟨[], by simp [none]⟩
  | cons c rest ih =>
    cases w with
    | nil => exact .inr ⟨c :: rest, rfl⟩
    | cons d w =>
      obtain ⟨here, split, length, -, same | ⟨blanks, hid⟩⟩ := blankFrom_cons before c rest hidden
      · subst same
        rw [split, List.singleton_append, List.cons_append, List.cons.injEq] at h
        obtain ⟨rfl, later⟩ := h
        rcases ih (by simp [text]) later with ⟨blank, offset, lo, hi, found⟩ | ⟨rest', rfl⟩
        · rw [byteLength_append, byteLength_cons, byteLength_nil] at lo hi
          refine .inl ⟨List.mem_cons_of_mem _ blank, offset, by omega, ?_, found⟩
          rw [byteLength_cons]
          omega
        · exact .inr ⟨rest', rfl⟩
      · left
        have some : here ≠ [] := by
          rintro rfl
          have := c.utf8Size_pos
          rw [byteLength_nil] at length
          omega
        have meets := MeetsHidden.of_blanks (u := []) text hid blanks length some
          (List.cons_ne_nil d w) (h.symm.trans split)
        rwa [List.append_nil] at meets

/-- A word of what is shown stands at the same place of the source or meets a hide call. -/
theorem shown_or_hidden {u w v : List Char} (hw : w ≠ [])
    (hidden : ∀ offset, hides ranges offset = true ↔ IsHidden source offset)
    (text : source = before ++ rest)
    (h : blankFrom ranges (byteLength before) rest = u ++ (w ++ v)) :
    MeetsHidden source (byteLength (before ++ u)) w ∨
      ∃ pre rest', rest = pre ++ (w ++ rest') ∧ spot pre = spot u := by
  induction rest generalizing before u with
  | nil => simp [blankFrom, hw] at h
  | cons c rest ih =>
    obtain ⟨here, split, length, row, same⟩ := blankFrom_cons before c rest hidden
    rw [split] at h
    have behind : ∀ u', u = here ++ u' →
        blankFrom ranges (byteLength (before ++ [c])) rest = u' ++ (w ++ v) →
        MeetsHidden source (byteLength (before ++ u)) w ∨
          ∃ pre rest', c :: rest = pre ++ (w ++ rest') ∧ spot pre = spot u := by
      rintro u' rfl later
      have offset : byteLength (before ++ [c] ++ u') = byteLength (before ++ (here ++ u')) := by
        simp only [byteLength_append, byteLength_cons, byteLength_nil, length]
        omega
      rcases ih (by simp [text]) later with meets | ⟨pre, rest', rfl, place⟩
      · rw [offset] at meets
        exact .inl meets
      · refine .inr ⟨c :: pre, rest', rfl, ?_⟩
        rw [← List.singleton_append, spot_append, spot_append, row, place]
    rcases List.append_eq_append_iff.mp h with ⟨u', hu, later⟩ | ⟨z, hz, later⟩
    · exact behind u' hu later
    · cases z with
      | nil => exact behind [] (by simpa using hz.symm) (by simpa using later.symm)
      | cons x z =>
        rcases same with rfl | ⟨blanks, hid⟩
        · obtain ⟨rfl, -⟩ | ⟨-, none⟩ := List.append_eq_singleton_iff.mp hz.symm
          case inr => cases none
          rw [List.append_nil]
          rw [List.nil_append, ← split] at h
          rcases shown_prefix hidden text h with meets | ⟨rest', found⟩
          · exact .inl meets
          · exact .inr ⟨[], rest', found, rfl⟩
        · rw [hz] at blanks length
          exact .inl (.of_blanks text hid blanks length (List.cons_ne_nil x z) hw later)

end Blanks

end ReflectGen.Source
