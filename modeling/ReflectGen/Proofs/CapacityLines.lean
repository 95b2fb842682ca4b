import Mathlib.Data.List.TakeWhile
import ReflectGen.Proofs.ReadBack
import ReflectGen.Proofs.TextLines

namespace ReflectGen.Emit

/-- A line without its indentation. -/
def unindented (line : List Char) : List Char := line.dropWhile (· == ' ')

/-- How often a line stands in a text, whatever its indentation. -/
def lineCount (text line : String) : Nat :=
  ((Text.lines text.toList).map unindented).count (line.toList ++ ['\n'])

def isLine (line r : String) : Bool := unindented r.toList == line.toList

section Lines

theorem unindented_append_lineFeed (line : List Char) :
    unindented (line ++ ['\n']) = unindented line ++ ['\n'] := by
  induction line with
  | nil => rfl
  | cons c line ih =>
    by_cases hc : (c == ' ') = true
    · simp only [unindented, List.cons_append, List.dropWhile_cons, hc, if_true]
      exact ih
    · simp [unindented, hc]

theorem lineCount_of_oneLine {r : String} (h : OneLine r) (line : String) :
    lineCount (r ++ "\n") line = (isLine line r).toNat := by
  have text : (r ++ "\n").toList = r.toList ++ ['\n'] := by simp
  rw [lineCount, text, Text.lines_of_oneLine h, List.map_singleton, unindented_append_lineFeed,
    List.count_singleton, isLine]
  by_cases same : unindented r.toList = line.toList
  · simp [same]
  · simp [beq_eq_false_iff_ne.mpr same]

theorem lineCount_cons (r : String) (rows : List String) (line : String) :
    lineCount (String.join ((r :: rows).map (· ++ "\n"))) line =
      lineCount (r ++ "\n") line + lineCount (String.join (rows.map (· ++ "\n"))) line := by
  have text : (String.join ((r :: rows).map (· ++ "\n"))).toList =
      r.toList ++ '\n' :: (String.join (rows.map (· ++ "\n"))).toList := by
    simp [String.toList_join]
  have first : (r ++ "\n").toList = r.toList ++ ['\n'] := by simp
  rw [lineCount, lineCount, lineCount, text, first, Text.lines_append, List.map_append,
    List.count_append]

/-- The lines of a text made of rows are the rows. -/
theorem lineCount_join {rows : List String} (h : ∀ r ∈ rows, OneLine r) (line : String) :
    lineCount (String.join (rows.map (· ++ "\n"))) line = rows.countP (isLine line) := by
  induction rows with
  | nil => rfl
  | cons r rows ih =>
    rw [lineCount_cons, lineCount_of_oneLine (h r List.mem_cons_self),
      ih fun s hs => h s (List.mem_cons_of_mem r hs), List.countP_cons, Nat.add_comm]
    cases isLine line r <;> rfl

theorem oneLine_of_isLine {line r : String} (h : OneLine line) (same : isLine line r = true) :
    OneLine r := by
  have split : r.toList.takeWhile (· == ' ') ++ line.toList = r.toList := by
    have same : unindented r.toList = line.toList := by simpa [isLine] using same
    rw [← same]
    exact List.takeWhile_append_dropWhile
  intro hr
  rw [← split, List.mem_append] at hr
  rcases hr with hr | hr
  · exact absurd (List.mem_takeWhile_imp hr) (by decide)
  · exact h hr

/-- Line feeds inside rows can only add lines. -/
theorem countP_le_lineCount {line : String} (h : OneLine line) (rows : List String) :
    rows.countP (isLine line) ≤ lineCount (String.join (rows.map (· ++ "\n"))) line := by
  induction rows with
  | nil => exact Nat.zero_le _
  | cons r rows ih =>
    rw [lineCount_cons, List.countP_cons]
    cases same : isLine line r with
    | false => exact Nat.le_trans ih (Nat.le_add_left _ _)
    | true =>
      rw [lineCount_of_oneLine (oneLine_of_isLine h same), same, if_pos rfl, Bool.toNat_true]
      omega

theorem unindented_row (depth : Nat) (text : String) :
    unindented (row "    " depth text).toList = unindented text.toList := by
  unfold row
  split
  · rename_i none
    rw [none]
  · have margin : ∀ c ∈ (String.join (List.replicate depth "    ")).toList, (c == ' ') = true := by
      intro c hc
      rw [String.toList_join, List.mem_flatMap] at hc
      obtain ⟨indent, hi, hc⟩ := hc
      rw [List.eq_of_mem_replicate hi] at hc
      simpa using hc
    rw [String.toList_append, unindented, List.dropWhile_append_of_pos margin]
    rfl

end Lines

/-- The line that opens the block of a capacity. -/
def openingLine (n : Nat) : String := "BEGIN_SERIALIZE_TYPE_ADDITIVE(" ++ fixedString n ++ ")"

/-- The line that converts plain text to the strings of a capacity. -/
def conversionLine (n : Nat) : String :=
  "SERIALIZE_CONVERSION(const char*, &" ++ fixedString n ++ "::CreateFromCString)"

/-- How these lines start. -/
def capacityStarts : List (List Char) :=
  ["BEGIN_SERIALIZE_TYPE_ADDITIVE(".toList, "SERIALIZE_CONVERSION(const char*".toList]

/-- A text that cannot be continued to start like a line of a capacity. -/
def Departs (text : String) : Prop :=
  ∀ start ∈ capacityStarts,
    ¬start <+: unindented text.toList ∧ ¬unindented text.toList <+: start

instance (text : String) : Decidable (Departs text) := by unfold Departs; infer_instance

def Foreign (text : String) : Prop := text = "" ∨ Departs text

section Foreign

theorem unindented_append {head : List Char} (h : unindented head ≠ []) (rest : List Char) :
    unindented (head ++ rest) = unindented head ++ rest := by
  rw [unindented, List.dropWhile_append, if_neg]
  · rfl
  · simpa [unindented] using h

theorem Departs.append {head : String} (h : Departs head) (rest : String) :
    Departs (head ++ rest) := by
  intro start hs
  obtain ⟨longer, shorter⟩ := h start hs
  have shown : unindented head.toList ≠ [] := by
    intro none
    exact shorter (none ▸ List.nil_prefix)
  rw [String.toList_append, unindented_append shown]
  have starts : unindented head.toList <+: unindented head.toList ++ rest.toList :=
    List.prefix_append _ _
  refine ⟨fun within => ?_, fun within => shorter (starts.trans within)⟩
  exact (List.prefix_or_prefix_of_prefix within starts).elim longer shorter

theorem Foreign.row {text : String} (h : Foreign text) (depth : Nat) :
    Foreign (row "    " depth text) := by
  rcases h with rfl | h
  · exact .inl rfl
  · right
    intro start hs
    rw [unindented_row]
    exact h start hs

/-- How the lines start that are written around and about anything but a capacity. -/
def otherStarts : List String :=
  ["#include \"", "BEGIN_SERIALIZE_TYPE(", "END_SERIALIZE_TYPE(", "SERIALIZE_SELF_ACCESS(",
    "SERIALIZE_FUNCTION_ALIAS("]

theorem departs_of_mem_otherStarts : ∀ start ∈ otherStarts, Departs start := by decide

theorem foreign_registered {type : String} {body : List String} (h : ∀ text ∈ body, Foreign text) :
    ∀ r ∈ blockRows (registered type body), Foreign r := by
  have opening := departs_of_mem_otherStarts "BEGIN_SERIALIZE_TYPE(" (by simp [otherStarts])
  have closing := departs_of_mem_otherStarts "END_SERIALIZE_TYPE(" (by simp [otherStarts])
  intro r hr
  simp only [blockRows_registered, List.mem_cons, List.mem_append, List.mem_map, List.not_mem_nil,
    or_false] at hr
  rcases hr with rfl | ⟨text, ht, rfl⟩ | rfl | rfl
  · exact Foreign.row (.inr ((opening.append type).append ")")) 1
  · exact Foreign.row (h text ht) 2
  · exact Foreign.row (.inr ((closing.append type).append ")")) 1
  · exact .inl rfl

theorem departs_selfAccess (type : String) : Departs (selfAccess type) := by
  have keyword := departs_of_mem_otherStarts "SERIALIZE_SELF_ACCESS(" (by simp [otherStarts])
  exact (((((keyword.append _).append _).append _).append _).append _).append _

theorem foreign_primitives :
    ∀ r ∈ (primitives.map fun p => primitive p.1 p.2).flatMap blockRows, Foreign r := by
  have conversions : ∀ p ∈ primitives, Departs ("SERIALIZE_CONVERSION(" ++ p.1) := by
    decide
  intro r hr
  simp only [List.mem_flatMap, List.mem_map] at hr
  obtain ⟨_, ⟨p, hp, rfl⟩, hr⟩ := hr
  refine foreign_registered ?_ r hr
  intro text ht
  rcases List.mem_cons.mp ht with rfl | ht
  · exact .inr (departs_selfAccess p.1)
  · obtain ⟨target, -, rfl⟩ := List.mem_map.mp ht
    exact .inr ((((conversions p hp).append _).append _).append _)

theorem foreign_sequenceBlock (e : String) : ∀ r ∈ blockRows (sequenceBlock e), Foreign r := by
  have keyword := departs_of_mem_otherStarts "SERIALIZE_FUNCTION_ALIAS(" (by simp [otherStarts])
  apply foreign_registered
  intro text ht
  simp only [List.mem_cons, List.not_mem_nil, or_false] at ht
  rcases ht with rfl | rfl <;> exact .inr ((keyword.append _).append _)

theorem foreign_typeBlock (r : TypeRecord) : ∀ row ∈ blockRows (typeBlock r), Foreign row := by
  have macros : ∀ kind, Departs (fieldMacro kind ++ "(") := by
    intro kind
    cases kind <;> decide
  apply foreign_registered
  intro text ht
  obtain ⟨f, -, rfl⟩ := List.mem_map.mp ht
  exact .inr (((((macros f.kind).append _).append _).append _).append _)

theorem foreign_include (file : String) : Foreign (includeLine file) := by
  have keyword := departs_of_mem_otherStarts "#include \"" (by simp [otherStarts])
  exact .inr ((keyword.append _).append _)

theorem foreign_fixed : ∀ r ∈ preamble ++ accessors ++ ending, Foreign r := by
  unfold Foreign
  decide

end Foreign

section Counts

variable {line : String} (m : Metadata) (n : Nat)

/-- A line that starts like one of a capacity. -/
def IsCapacityLine (line : String) : Prop := ∃ start ∈ capacityStarts, start <+: line.toList

theorem isCapacityLine_openingLine : IsCapacityLine (openingLine n) := by
  refine ⟨_, List.mem_cons_self, ?_⟩
  unfold openingLine
  rw [String.toList_append, String.toList_append, List.append_assoc]
  exact List.prefix_append _ _

theorem isCapacityLine_conversionLine : IsCapacityLine (conversionLine n) := by
  have longer : "SERIALIZE_CONVERSION(const char*".toList <+:
      "SERIALIZE_CONVERSION(const char*, &".toList := by decide
  refine ⟨_, List.mem_cons_of_mem _ List.mem_cons_self, longer.trans ?_⟩
  unfold conversionLine
  rw [String.toList_append, String.toList_append, List.append_assoc]
  exact List.prefix_append _ _

theorem Foreign.not_isLine {r : String} (h : Foreign r) (hl : IsCapacityLine line) :
    ¬isLine line r = true := by
  obtain ⟨start, hs, starts⟩ := hl
  intro same
  have same : unindented r.toList = line.toList := by simpa [isLine] using same
  rcases h with rfl | h
  · have none : line.toList = [] := same.symm
    rw [none, List.prefix_nil] at starts
    subst starts
    exact absurd hs (by decide)
  · exact (h start hs).1 (same ▸ starts)

/-- Outside the conversions and the blocks of capacities no row is a line of a capacity. -/
theorem countP_rows (hl : IsCapacityLine line) :
    ((registration m).rows "    " 0).countP (isLine line) =
      (blockRows (stringConversions m)).countP (isLine line) +
        ((capacities m).flatMap fun c => blockRows (stringBlock c)).countP (isLine line) := by
  have none : ∀ rows : List String, (∀ r ∈ rows, Foreign r) → rows.countP (isLine line) = 0 := by
    intro rows h
    rw [List.countP_eq_zero]
    exact fun r hr => (h r hr).not_isLine hl
  have fixed := foreign_fixed
  simp only [List.mem_append] at fixed
  have before := none preamble fun r hr => fixed r (.inl (.inl hr))
  have between := none accessors fun r hr => fixed r (.inl (.inr hr))
  have after := none ending fun r hr => fixed r (.inr hr)
  have includes := none (m.includes.elems.map includeLine) fun r hr => by
    obtain ⟨file, -, rfl⟩ := List.mem_map.mp hr
    exact foreign_include file
  have sequences := none (m.elements.elems.flatMap fun e => blockRows (sequenceBlock e))
    fun r hr => by
      obtain ⟨e, -, hr⟩ := List.mem_flatMap.mp hr
      exact foreign_sequenceBlock e r hr
  have types := none (m.types.flatMap fun r => blockRows (typeBlock r)) fun r hr => by
    obtain ⟨q, -, hr⟩ := List.mem_flatMap.mp hr
    exact foreign_typeBlock q r hr
  rw [rows_registration, flatMap_blocks]
  simp only [List.countP_append, before, between, after, includes, sequences, types,
    none _ foreign_primitives, Nat.zero_add, Nat.add_zero]

theorem isLine_row {text : String} (h : text.toList.head? ≠ some ' ') (depth : Nat) :
    isLine line (row "    " depth text) = (text == line) := by
  have same : unindented text.toList = text.toList := by
    unfold unindented
    cases ht : text.toList with
    | nil => rfl
    | cons c cs =>
      rw [ht] at h
      rw [List.dropWhile_cons_of_neg]
      simpa using h
  rw [isLine, unindented_row, same, Bool.eq_iff_iff, beq_iff_eq, beq_iff_eq, String.toList_inj]

theorem openingLine_inj {c d : Nat} (h : openingLine c = openingLine d) : c = d := by
  apply fixedString_inj
  unfold openingLine at h
  simpa using h

theorem conversionLine_inj {c d : Nat} (h : conversionLine c = conversionLine d) : c = d := by
  apply fixedString_inj
  unfold conversionLine at h
  simpa using h

theorem count_eq_countP {f : Nat → String} (inj : ∀ {c d}, f c = f d → c = d) (cs : List Nat) :
    cs.countP (fun c => f c == f n) = cs.count n := by
  rw [List.count]
  congr 1
  funext c
  rw [Bool.eq_iff_iff, beq_iff_eq, beq_iff_eq]
  exact ⟨inj, congrArg f⟩

theorem blockRows_stringConversions :
    blockRows (stringConversions m) =
      row "    " 1 "BEGIN_SERIALIZE_TYPE_ADDITIVE(const char*)" ::
        ((capacities m).map (fun c => row "    " 2 (conversionLine c)) ++
          [row "    " 1 "END_SERIALIZE_TYPE(const char*)", ""]) := by
  have rows := blockRows_scope "BEGIN_SERIALIZE_TYPE_ADDITIVE(const char*)"
    "END_SERIALIZE_TYPE(const char*)" ((capacities m).map conversionLine)
  rw [List.map_map] at rows
  exact rows

theorem blockRows_stringBlock (c : Nat) :
    blockRows (stringBlock c) =
      [row "    " 1 (openingLine c), row "    " 2 (selfAccess (fixedString c)),
        row "    " 1 ("END_SERIALIZE_TYPE(" ++ fixedString c ++ ")"), ""] :=
  blockRows_scope (openingLine c) ("END_SERIALIZE_TYPE(" ++ fixedString c ++ ")")
    [selfAccess (fixedString c)]

theorem head?_openingLine : (openingLine n).toList.head? = some 'B' := by
  unfold openingLine
  simp

theorem head?_conversionLine : (conversionLine n).toList.head? = some 'S' := by
  unfold conversionLine
  simp

theorem conversionLine_ne_openingLine (c : Nat) : conversionLine c ≠ openingLine n := by
  intro same
  have head := head?_openingLine n
  rw [← same, head?_conversionLine] at head
  exact absurd head (by decide)

/-- The block of the conversions opens like that of a capacity, but for another type. -/
theorem textBlock_ne_openingLine :
    "BEGIN_SERIALIZE_TYPE_ADDITIVE(const char*)" ≠ openingLine n := by
  unfold openingLine fixedString
  intro same
  have chars := congrArg String.toList same
  simp [TypePattern.fixedStringTemplate] at chars

theorem foreign_end (type : String) : Foreign ("END_SERIALIZE_TYPE(" ++ type ++ ")") := by
  have closing := departs_of_mem_otherStarts "END_SERIALIZE_TYPE(" (by simp [otherStarts])
  exact .inr ((closing.append type).append ")")

theorem isLine_openingLine (c depth : Nat) :
    isLine line (row "    " depth (openingLine c)) = (openingLine c == line) :=
  isLine_row (by rw [head?_openingLine]; decide) depth

theorem isLine_conversionLine (c depth : Nat) :
    isLine line (row "    " depth (conversionLine c)) = (conversionLine c == line) :=
  isLine_row (by rw [head?_conversionLine]; decide) depth

/-- The rows that frame the conversions are no lines of a capacity. -/
theorem countP_stringConversions_frame (hl : IsCapacityLine line)
    (other : "BEGIN_SERIALIZE_TYPE_ADDITIVE(const char*)" ≠ line) :
    (blockRows (stringConversions m)).countP (isLine line) =
      (capacities m).countP fun c => conversionLine c == line := by
  have opening :
      ¬isLine line (row "    " 1 "BEGIN_SERIALIZE_TYPE_ADDITIVE(const char*)") = true := by
    rw [isLine_row (by decide) 1, beq_iff_eq]
    exact other
  have ends : Departs "END_SERIALIZE_TYPE(const char*)" := by decide
  have closing := (Foreign.row (.inr ends) 1).not_isLine hl
  have blank := Foreign.not_isLine (.inl rfl) hl
  have each : (isLine line ∘ fun c => row "    " 2 (conversionLine c)) =
      fun c => conversionLine c == line := funext fun c => isLine_conversionLine c 2
  rw [blockRows_stringConversions, List.countP_cons_of_neg opening, List.countP_append,
    List.countP_map, each, List.countP_cons_of_neg closing, List.countP_cons_of_neg blank,
    List.countP_nil, Nat.add_zero]

theorem countP_stringBlock (hl : IsCapacityLine line) (c : Nat) :
    (blockRows (stringBlock c)).countP (isLine line) = (openingLine c == line).toNat := by
  have access := (Foreign.row (.inr (departs_selfAccess (fixedString c))) 2).not_isLine hl
  have closing := ((foreign_end (fixedString c)).row 1).not_isLine hl
  have blank := Foreign.not_isLine (.inl rfl) hl
  rw [blockRows_stringBlock, List.countP_cons, List.countP_cons_of_neg access,
    List.countP_cons_of_neg closing, List.countP_cons_of_neg blank, List.countP_nil,
    isLine_openingLine]
  cases openingLine c == line <;> rfl

theorem countP_stringBlocks (hl : IsCapacityLine line) (cs : List Nat) :
    (cs.flatMap fun c => blockRows (stringBlock c)).countP (isLine line) =
      cs.countP fun c => openingLine c == line := by
  induction cs with
  | nil => rfl
  | cons c cs ih =>
    rw [List.flatMap_cons, List.countP_append, ih, countP_stringBlock hl, List.countP_cons,
      Nat.add_comm]
    cases openingLine c == line <;> rfl

theorem countP_rows_openingLine :
    ((registration m).rows "    " 0).countP (isLine (openingLine n)) = (capacities m).count n := by
  have opens := isCapacityLine_openingLine n
  have none : (capacities m).countP (fun c => conversionLine c == openingLine n) = 0 := by
    rw [List.countP_eq_zero]
    intro c _
    simpa using conversionLine_ne_openingLine n c
  rw [countP_rows m opens, countP_stringBlocks opens,
    countP_stringConversions_frame m opens (textBlock_ne_openingLine n), none,
    count_eq_countP n openingLine_inj, Nat.zero_add]

theorem countP_rows_conversionLine :
    ((registration m).rows "    " 0).countP (isLine (conversionLine n)) =
      (capacities m).count n := by
  have converts := isCapacityLine_conversionLine n
  have text_ne : "BEGIN_SERIALIZE_TYPE_ADDITIVE(const char*)" ≠ conversionLine n := by
    intro same
    have head := head?_conversionLine n
    rw [← same] at head
    exact absurd head (by decide)
  have none : (capacities m).countP (fun c => openingLine c == conversionLine n) = 0 := by
    rw [List.countP_eq_zero]
    intro c _
    simpa using (conversionLine_ne_openingLine c n).symm
  rw [countP_rows m converts, countP_stringBlocks converts,
    countP_stringConversions_frame m converts text_ne, none,
    count_eq_countP n conversionLine_inj, Nat.add_zero]

theorem oneLine_openingLine : OneLine (openingLine n) := by
  unfold openingLine
  rw [oneLine_append, oneLine_append]
  exact ⟨⟨by decide, oneLine_fixedString n⟩, by decide⟩

theorem oneLine_conversionLine : OneLine (conversionLine n) := by
  unfold conversionLine
  rw [oneLine_append, oneLine_append]
  exact ⟨⟨by decide, oneLine_fixedString n⟩, by decide⟩

theorem count_capacities :
    (capacities m).count n = if n = 64 ∨ n ∈ m.capacities.elems then 1 else 0 := by
  have nodup : (capacities m).Nodup :=
    (m.capacities.insert dataPathCapacity).ascending.imp Nat.ne_of_lt
  rw [nodup.count]
  congr 1
  exact propext (SortedSet.mem_insert _ _ _)

/-- A registered capacity has its two lines. -/
theorem one_le_lineCount {m : Metadata} {n : Nat} (h : n = 64 ∨ n ∈ m.capacities.elems) :
    1 ≤ lineCount (render m) (openingLine n) ∧ 1 ≤ lineCount (render m) (conversionLine n) := by
  have once : (capacities m).count n = 1 := by rw [count_capacities, if_pos h]
  have opening := countP_le_lineCount (oneLine_openingLine n) ((registration m).rows "    " 0)
  have conversion := countP_le_lineCount (oneLine_conversionLine n) ((registration m).rows "    " 0)
  rw [countP_rows_openingLine, once, ← render_eq] at opening
  rw [countP_rows_conversionLine, once, ← render_eq] at conversion
  exact ⟨opening, conversion⟩

/-- Where no name holds a line feed, a capacity has its two lines once if it is registered, and
otherwise not at all. -/
theorem lineCount_capacity {m : Metadata} (h : m.OneLine) :
    lineCount (render m) (openingLine n) = (if n = 64 ∨ n ∈ m.capacities.elems then 1 else 0) ∧
      lineCount (render m) (conversionLine n) =
        if n = 64 ∨ n ∈ m.capacities.elems then 1 else 0 := by
  rw [render_eq, lineCount_join (oneLine_rows h), lineCount_join (oneLine_rows h),
    countP_rows_openingLine, countP_rows_conversionLine, count_capacities]
  exact ⟨rfl, rfl⟩

end Counts

end ReflectGen.Emit
