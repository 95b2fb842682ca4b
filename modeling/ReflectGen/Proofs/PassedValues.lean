import ReflectGen.Proofs.JsonGrammar

namespace ReflectGen.Json

open Text

section Blanks

theorem skipBlanks_append {blanks : List Char} (h : Blank blanks) (cs : List Char) :
    skipBlanks (blanks ++ cs) = skipBlanks cs := by
  apply List.dropWhile_append_of_pos
  intro c mem
  have one := h c mem
  simp only [List.mem_cons, List.not_mem_nil, or_false] at one
  rcases one with rfl | rfl | rfl | rfl <;> rfl

theorem skipBlanks_cons {c : Char} (h : isBlank c = false) (cs : List Char) :
    skipBlanks (c :: cs) = c :: cs :=
  List.dropWhile_cons_of_neg (by simp [h])

theorem skipColon_append {blanks : List Char} (h : Blank blanks) (rest : List Char) :
    skipColon (blanks ++ ':' :: rest) = .ok rest := by
  rw [skipColon, skipBlanks_append h, skipBlanks_cons rfl]
  rfl

theorem readWord_append (word rest : List Char) : readWord word (word ++ rest) = .ok rest := by
  induction word with
  | nil => rfl
  | cons c word ih => rw [List.cons_append, readWord, if_pos rfl, ih]

end Blanks

section Strings

theorem HexDigit.hexDigit? {c : Char} {n : Nat} (h : HexDigit c n) : hexDigit? c = some n := by
  have lower : ∀ i : Fin 16, Json.hexDigit? ("0123456789abcdef".toList.get i) = some i.val := by
    decide
  have upper : ∀ i : Fin 16, Json.hexDigit? ("0123456789ABCDEF".toList.get i) = some i.val := by
    decide
  cases h with
  | lower h =>
    obtain ⟨small, rfl⟩ := List.getElem?_eq_some_iff.mp h
    exact lower ⟨n, small⟩
  | upper h =>
    obtain ⟨small, rfl⟩ := List.getElem?_eq_some_iff.mp h
    exact upper ⟨n, small⟩

theorem HexUnit.hasFourBytes {digits : List Char} {n : Nat} (h : HexUnit digits n)
    (rest : List Char) : hasFourBytes (digits ++ rest) = true := by
  cases h with
  | @four a b c d =>
    have := a.utf8Size_pos
    have := b.utf8Size_pos
    have := c.utf8Size_pos
    have := d.utf8Size_pos
    refine decide_eq_true ?_
    simp only [List.cons_append, List.nil_append, List.take_succ_cons, List.take_zero,
      byteLength_cons, byteLength_nil]
    omega

variable {strict : Bool} {digits text value : List Char} {n : Nat}

theorem readStringFrom_plain {c : Char} (h : Plain c) (cs : List Char) :
    readStringFrom strict .plain (c :: cs) =
      addFirst (some c) (readStringFrom strict .plain cs) := by
  rw [readStringFrom, if_neg h.quote, if_neg h.backslash, if_neg (Nat.not_lt.mpr h.control)]

theorem readStringFrom_short {e c : Char} (h : (e, c) ∈ shortEscapes) (cs : List Char) :
    readStringFrom strict .plain ('\\' :: e :: cs) =
      addFirst (some c) (readStringFrom strict .plain cs) := by
  simp only [shortEscapes, List.mem_cons, List.not_mem_nil, or_false, Prod.mk.injEq] at h
  rcases h with ⟨rfl, rfl⟩ | ⟨rfl, rfl⟩ | ⟨rfl, rfl⟩ | ⟨rfl, rfl⟩ | ⟨rfl, rfl⟩ | ⟨rfl, rfl⟩ |
    ⟨rfl, rfl⟩ | ⟨rfl, rfl⟩ <;> rfl

theorem readStringFrom_hex (h : HexUnit digits n) {lead : Option Nat} {c : Option Char}
    {phase : Phase} (leads : afterHex strict lead n = some (c, phase)) (rest : List Char) :
    readStringFrom strict (.hex 3 0 lead) (digits ++ rest) =
      addFirst c (readStringFrom strict phase rest) := by
  cases h with
  | @four a b c' d i j k l ha hb hc hd =>
    have number :
        16 * (16 * (16 * (16 * 0 + i) + j) + k) + l = 4096 * i + 256 * j + 16 * k + l := by omega
    simp only [List.cons_append, List.nil_append, readStringFrom, ha.hexDigit?, hb.hexDigit?,
      hc.hexDigit?, hd.hexDigit?, number, leads]

theorem readStringFrom_unit (h : HexUnit digits n) {c : Option Char} {phase : Phase}
    (leads : afterHex strict none n = some (c, phase)) (rest : List Char) :
    readStringFrom strict .plain ('\\' :: 'u' :: (digits ++ rest)) =
      addFirst c (readStringFrom strict phase rest) := by
  rw [readStringFrom, if_neg (by decide), if_pos rfl, readStringFrom, if_pos rfl,
    if_pos (h.hasFourBytes rest), readStringFrom_hex h leads]

/-- The second half of a pair. -/
theorem readStringFrom_paired (h : HexUnit digits n) {lead : Nat} {c : Option Char} {phase : Phase}
    (leads : afterHex strict (some lead) n = some (c, phase)) (rest : List Char) :
    readStringFrom strict (.paired lead) ('\\' :: 'u' :: (digits ++ rest)) =
      addFirst c (readStringFrom strict phase rest) := by
  rw [readStringFrom, if_pos rfl, readStringFrom, if_pos rfl, if_pos (h.hasFourBytes rest),
    readStringFrom_hex h leads]

theorem afterHex_char (c : Char) : afterHex true none c.toNat = some (some c, .plain) := by
  -- A character is no surrogate.
  have valid : c.toNat < 0xd800 ∨ 0xdfff < c.toNat := c.valid.imp id And.left
  have trail : isTrail c.toNat = false := by simp [isTrail]; omega
  have lead : isLead c.toNat = false := by simp [isLead]; omega
  simp [afterHex, trail, lead]

theorem afterHex_lead {high : Nat} (small : high < 0x400) :
    afterHex true none (0xd800 + high) = some (none, .paired (0xd800 + high)) := by
  have trail : isTrail (0xd800 + high) = false := by simp [isTrail]; omega
  have lead : isLead (0xd800 + high) = true := by simp [isLead]; omega
  simp [afterHex, trail, lead]

theorem afterHex_trail {c : Char} {high low : Nat} (code : c.toNat = 0x10000 + 0x400 * high + low)
    (small : low < 0x400) :
    afterHex true (some (0xd800 + high)) (0xdc00 + low) = some (some c, .plain) := by
  have trail : isTrail (0xdc00 + low) = true := by simp [isTrail]; omega
  have number : 0x10000 + high * 0x400 + low = c.toNat := by omega
  simp [afterHex, trail, number]

/-- A string is read as the text it stands for. -/
theorem Spells.readString (h : Spells text value) (rest : List Char) :
    readString (text ++ '"' :: rest) = .ok (value, rest) := by
  rw [Json.readString]
  induction h with
  | empty => rfl
  | plain h _ ih => rw [List.cons_append, readStringFrom_plain h, ih]; rfl
  | short h _ ih => rw [List.cons_append, List.cons_append, readStringFrom_short h, ih]; rfl
  | @unit c _ _ _ h _ ih =>
    rw [List.cons_append, List.cons_append, List.append_assoc,
      readStringFrom_unit h (afterHex_char c), ih]
    rfl
  | @pair c _ _ _ _ high low code bits hl ht _ ih =>
    have high_lt : high < 0x400 := by
      have valid : c.toNat < 0xd800 ∨ 0xdfff < c.toNat ∧ c.toNat < 0x110000 := c.valid
      omega
    rw [List.cons_append, List.cons_append, List.append_assoc, List.cons_append, List.cons_append,
      List.append_assoc, readStringFrom_unit hl (afterHex_lead high_lt),
      readStringFrom_paired ht (afterHex_trail code bits), ih]
    rfl

/-- A lenient reader takes any string to its end, half a surrogate pair included. -/
theorem StringText.skipString (h : StringText text) (rest : List Char) :
    skipString (text ++ '"' :: rest) = .ok rest := by
  have read : ∃ value, readStringFrom false .plain (text ++ '"' :: rest) = .ok (value, rest) := by
    induction h with
    | empty => exact ⟨[], rfl⟩
    | plain h _ ih =>
      obtain ⟨value, read⟩ := ih
      exact ⟨_, by rw [List.cons_append, readStringFrom_plain h, read]; rfl⟩
    | short h _ ih =>
      obtain ⟨value, read⟩ := ih
      exact ⟨_, by rw [List.cons_append, List.cons_append, readStringFrom_short h, read]; rfl⟩
    | unit h _ ih =>
      obtain ⟨value, read⟩ := ih
      exact ⟨_, by
        rw [List.cons_append, List.cons_append, List.append_assoc, readStringFrom_unit h rfl, read]
        rfl⟩
  obtain ⟨value, read⟩ := read
  rw [Json.skipString, read]
  rfl

end Strings

section Numbers

/-- What follows does not go on with a run of digits. -/
def NoDigit (rest : List Char) : Prop := ∀ c ∈ rest.head?, c.isDigit = false

/-- What follows does not go on with a number. -/
def Ends (rest : List Char) : Prop := ∀ c ∈ rest.head?, c.isDigit = false ∧ c ∉ ['.', 'e', 'E']

variable {ds rest : List Char}

theorem digitRun_append (h : Digits ds) (stop : NoDigit rest) :
    digitRun (ds ++ rest) = .ok (ds, rest) := by
  have taken : (ds ++ rest).takeWhile Char.isDigit = ds := by
    rw [List.takeWhile_append_of_pos h.2]
    cases rest with
    | nil => simp
    | cons c rest => simp [stop c rfl]
  have left : (ds ++ rest).dropWhile Char.isDigit = rest := by
    rw [List.dropWhile_append_of_pos h.2]
    cases rest with
    | nil => rfl
    | cons c rest => simp [stop c rfl]
  rw [digitRun, taken, left]
  obtain ⟨d, ds', rfl⟩ := List.exists_cons_of_ne_nil h.1
  rfl

theorem Whole.readWhole {whole : List Char} (h : Whole whole) (stop : NoDigit rest) :
    readWhole (whole ++ rest) = .ok (whole, rest) := by
  cases h with
  | zero =>
    rw [List.cons_append, List.nil_append, Json.readWhole, if_neg]
    rw [Option.any_eq_true]
    rintro ⟨c, head, digit⟩
    rw [stop c head] at digit
    cases digit
  | @digits d ds first h =>
    rw [Json.readWhole, digitRun_append h stop]
    intro cs zero
    exact absurd (List.cons.inj zero).1 first

theorem Fraction.readFraction {fraction : List Char} (h : Fraction fraction) (stop : NoDigit rest)
    (point : rest.head? ≠ some '.') :
    ∃ ds, readFraction (fraction ++ rest) = .ok (ds, rest) := by
  cases h with
  | absent =>
    refine ⟨[], ?_⟩
    rw [List.nil_append, Json.readFraction]
    rintro cs rfl
    exact point rfl
  | present h => exact ⟨_, digitRun_append h stop⟩

theorem Exponent.readExponent {exponent : List Char} (h : Exponent exponent) (ends : Ends rest) :
    ∃ n, readExponent (exponent ++ rest) = .ok (n, rest) := by
  have stop : NoDigit rest := fun c head => (ends c head).1
  cases h with
  | absent =>
    refine ⟨0, ?_⟩
    rw [List.nil_append, Json.readExponent]
    · rintro cs rfl
      exact (ends 'e' rfl).2 (by simp)
    · rintro cs rfl
      exact (ends 'E' rfl).2 (by simp)
  | @present e sign ds letter signed h =>
    have run := digitRun_append h stop
    obtain ⟨d, ds', rfl⟩ := List.exists_cons_of_ne_nil h.1
    have digit := h.2 d List.mem_cons_self
    have plus : d ≠ '+' := by rintro rfl; cases digit
    have minus : d ≠ '-' := by rintro rfl; cases digit
    rw [List.cons_append] at run
    rcases letter with rfl | rfl <;> rcases signed with rfl | rfl | rfl <;>
      simp [Json.readExponent, run, plus, minus, Except.map]

/-- What comes behind a fraction. -/
theorem Exponent.stops {exponent : List Char} (h : Exponent exponent) (ends : Ends rest) :
    NoDigit (exponent ++ rest) ∧ (exponent ++ rest).head? ≠ some '.' := by
  cases h with
  | absent =>
    refine ⟨fun c head => (ends c head).1, fun point => ?_⟩
    exact (ends '.' point).2 (by simp)
  | present letter =>
    rcases letter with rfl | rfl
    · exact ⟨fun c head => by cases head; rfl, by simp⟩
    · exact ⟨fun c head => by cases head; rfl, by simp⟩

/-- What comes behind the whole part. -/
theorem Fraction.stops {fraction : List Char} (h : Fraction fraction) (stop : NoDigit rest) :
    NoDigit (fraction ++ rest) := by
  cases h with
  | absent => exact stop
  | present =>
    intro c head
    cases head
    rfl

theorem Magnitude.exists_digit {text : List Char} (h : Magnitude text) :
    ∃ d ds, text = d :: ds ∧ d.isDigit := by
  cases h with
  | parts hw hf he =>
    cases hw with
    | zero => exact ⟨_, _, rfl, rfl⟩
    | digits first h => exact ⟨_, _, rfl, h.2 _ List.mem_cons_self⟩

theorem Magnitude.skipNumber {text : List Char} (h : Magnitude text) (ends : Ends rest) :
    skipNumber (text ++ rest) = .ok rest := by
  cases h with
  | @parts whole fraction exponent hw hf he =>
    obtain ⟨stop, point⟩ := he.stops ends
    obtain ⟨ds, fractionRead⟩ := hf.readFraction stop point
    obtain ⟨n, exponentRead⟩ := he.readExponent ends
    rw [Json.skipNumber, readNumber, List.append_assoc, List.append_assoc,
      hw.readWhole (hf.stops stop)]
    simp only [bind, Except.bind, fractionRead, exponentRead, pure, Except.pure]

end Numbers

section Sequences

/-- What comes in front of a part between brackets. -/
def separator (first : Bool) : List Char := if first then [] else [',']

/-- The rest of the parts between brackets, from the first or a later one on. -/
def continued (closing : Char) : Bool → List (List Char) → List Char
  | _, [] => [closing]
  | first, part :: parts => separator first ++ (part ++ continued closing false parts)

theorem intercalate_append_closing (closing : Char) (parts : List (List Char)) :
    [','].intercalate parts ++ [closing] = continued closing true parts := by
  cases parts with
  | nil => rfl
  | cons part parts =>
    induction parts generalizing part with
    | nil => simp [continued, separator]
    | cons next parts ih =>
      rw [List.intercalate_cons_of_ne_nil (List.cons_ne_nil next parts), List.append_assoc,
        List.append_assoc, ih]
      rfl

theorem length_lt_continued (closing : Char) (parts : List (List Char)) :
    parts.length < (continued closing false parts).length := by
  induction parts with
  | nil => exact Nat.one_pos
  | cons part parts ih =>
    simp only [continued, separator, List.length_append, List.length_cons, List.length_nil,
      Bool.false_eq_true, if_false]
    omega

theorem length_le_continued (closing : Char) (first : Bool) (parts : List (List Char)) :
    parts.length ≤ (continued closing first parts).length := by
  cases parts with
  | nil => exact Nat.zero_le _
  | cons part parts =>
    have later := length_lt_continued closing parts
    rw [continued, List.length_append, List.length_append, List.length_cons]
    omega

/-- The start of an item, by which it is told from the end of the list. -/
def Starts (text : List Char) : Prop := ∃ c cs, text = c :: cs ∧ isBlank c = false ∧ c ≠ ']'

theorem Starts.length_pos {text : List Char} (h : Starts text) : 0 < text.length := by
  obtain ⟨c, cs, rfl, -⟩ := h
  exact Nat.succ_pos _

variable {blanks padding : List Char} (blank : Blank blanks) (padded : Blank padding)
include blank

theorem nextItem?_closing (first : Bool) (rest : List Char) :
    nextItem? first (blanks ++ ']' :: rest) = .ok (false, rest) := by
  rw [nextItem?, skipBlanks_append blank, skipBlanks_cons rfl]
  rfl

theorem nextKey?_closing (first : Bool) (rest : List Char) :
    nextKey? first (blanks ++ '\x7d' :: rest) = .ok (false, rest) := by
  rw [nextKey?, skipBlanks_append blank, skipBlanks_cons rfl]
  rfl

include padded

theorem nextItem?_item (first : Bool) {text : List Char} (starts : Starts text) (rest : List Char) :
    nextItem? first (blanks ++ (separator first ++ (padding ++ (text ++ rest)))) =
      .ok (true, text ++ rest) := by
  obtain ⟨c, cs, rfl, visible, other⟩ := starts
  have comma : isBlank ',' = false := rfl
  cases first <;>
    simp [nextItem?, separator, skipBlanks_append blank, skipBlanks_append padded,
      skipBlanks_cons visible, skipBlanks_cons comma, other]

theorem nextKey?_key (first : Bool) (rest : List Char) :
    nextKey? first (blanks ++ (separator first ++ (padding ++ '"' :: rest))) =
      .ok (true, rest) := by
  have quote : isBlank '"' = false := rfl
  have comma : isBlank ',' = false := rfl
  cases first <;>
    simp [nextKey?, separator, skipBlanks_append blank, skipBlanks_append padded,
      skipBlanks_cons quote, skipBlanks_cons comma]

end Sequences

section Values

/-- What follows a part between brackets ends a number. -/
theorem ends_continued {closing : Char} (h : closing = ']' ∨ closing = '\x7d')
    {blanks : List Char} (blank : Blank blanks) (parts : List (List Char)) (rest : List Char) :
    Ends (blanks ++ (continued closing false parts ++ rest)) := by
  have stops : ∀ c ∈ [' ', '\t', '\n', '\r', ',', ']', '\x7d'],
      c.isDigit = false ∧ c ∉ ['.', 'e', 'E'] := by
    simp only [List.forall_mem_cons, List.not_mem_nil, false_implies, implies_true, and_true]
    decide
  intro c head
  apply stops
  cases blanks with
  | cons d blanks =>
    cases head
    have one := blank _ List.mem_cons_self
    simp only [List.mem_cons, List.not_mem_nil, or_false] at one ⊢
    rcases one with one | one | one | one <;> simp [one]
  | nil =>
    cases parts with
    | cons part parts =>
      cases head
      decide
    | nil =>
      cases head
      rcases h with rfl | rfl <;> decide

/-- A text that is passed over to its end. -/
structure Passed (text : List Char) : Prop where
  starts : Starts text
  skipped : ∀ fuel rest, text.length ≤ fuel → Ends rest →
    skipPart fuel .value (text ++ rest) = .ok rest

theorem skipPart_blanks {blanks : List Char} (blank : Blank blanks) (fuel : Nat) (cs : List Char) :
    skipPart fuel .value (blanks ++ cs) = skipPart fuel .value cs := by
  cases fuel with
  | zero => rfl
  | succ fuel => rw [skipPart, skipPart, skipBlanks_append blank]

theorem skipPart_items {items : List Padded} (each : ∀ item ∈ items, Passed item.text)
    {blanks : List Char} (blank : Blank blanks) (first : Bool) (fuel : Nat) (rest : List Char)
    (enough : (continued ']' first (items.map Padded.spelled)).length ≤ fuel) :
    skipPart fuel (.items first)
      (blanks ++ (continued ']' first (items.map Padded.spelled) ++ rest)) = .ok rest := by
  induction items generalizing blanks first fuel with
  | nil =>
    obtain ⟨fuel, rfl⟩ := Nat.exists_eq_add_of_le' enough
    rw [List.map_nil, continued, List.singleton_append, List.length_singleton, skipPart,
      nextItem?_closing blank]
    rfl
  | cons item items ih =>
    rw [List.forall_mem_cons] at each
    obtain ⟨here, later⟩ := each
    -- One unit of fuel goes to this step, and the item and what follows it are shorter.
    have some := here.starts.length_pos
    have more := length_lt_continued ']' (items.map Padded.spelled)
    simp only [List.map_cons, continued, Padded.spelled, List.length_append] at enough
    obtain ⟨fuel, rfl⟩ : ∃ n, fuel = n + 1 := ⟨fuel - 1, by omega⟩
    have next := nextItem?_item blank item.blank_before first here.starts
      (item.after ++ (continued ']' false (items.map Padded.spelled) ++ rest))
    have passed := here.skipped fuel _ (by omega)
      (ends_continued (.inl rfl) item.blank_after (items.map Padded.spelled) rest)
    have left := ih later item.blank_after false fuel (by omega)
    simp only [List.map_cons, continued, Padded.spelled, List.append_assoc] at next passed left ⊢
    rw [skipPart, next]
    simp only [bind, Except.bind, if_true, passed, left]

theorem skipPart_members {members : List Member} (keys : ∀ m ∈ members, StringText m.key.text)
    (each : ∀ m ∈ members, Passed m.value.text) {blanks : List Char} (blank : Blank blanks)
    (first : Bool) (fuel : Nat) (rest : List Char)
    (enough : (continued '\x7d' first (members.map Member.spelled)).length ≤ fuel) :
    skipPart fuel (.members first)
      (blanks ++ (continued '\x7d' first (members.map Member.spelled) ++ rest)) = .ok rest := by
  induction members generalizing blanks first fuel with
  | nil =>
    obtain ⟨fuel, rfl⟩ := Nat.exists_eq_add_of_le' enough
    rw [List.map_nil, continued, List.singleton_append, List.length_singleton, skipPart,
      nextKey?_closing blank]
    rfl
  | cons m members ih =>
    rw [List.forall_mem_cons] at each keys
    obtain ⟨here, later⟩ := each
    have more := length_lt_continued '\x7d' (members.map Member.spelled)
    simp only [List.map_cons, continued, Member.spelled, Padded.spelled, List.length_append,
      List.length_cons] at enough
    obtain ⟨fuel, rfl⟩ : ∃ n, fuel = n + 1 := ⟨fuel - 1, by omega⟩
    have next := nextKey?_key blank m.key.blank_before first
      (m.key.text ++ '"' :: (m.key.after ++ ':' :: (m.value.before ++ (m.value.text ++
        (m.value.after ++ (continued '\x7d' false (members.map Member.spelled) ++ rest))))))
    have passed := here.skipped fuel _ (by omega)
      (ends_continued (.inr rfl) m.value.blank_after (members.map Member.spelled) rest)
    rw [← skipPart_blanks m.value.blank_before] at passed
    have left := ih keys.2 later m.value.blank_after false fuel (by omega)
    simp only [List.map_cons, continued, Member.spelled, Padded.spelled, quoted, List.append_assoc,
      List.cons_append, List.nil_append] at next passed left ⊢
    rw [skipPart, next]
    simp only [bind, Except.bind, if_true, keys.1.skipString, skipColon_append m.key.blank_after,
      passed, left]

theorem passed_cons {c : Char} {cs : List Char} (visible : isBlank c = false) (other : c ≠ ']')
    (h : ∀ fuel rest, cs.length ≤ fuel → Ends rest →
      skipPart (fuel + 1) .value (c :: (cs ++ rest)) = .ok rest) : Passed (c :: cs) where
  starts := ⟨c, cs, rfl, visible, other⟩
  skipped fuel rest enough ends := by
    cases fuel with
    | zero => cases enough
    | succ fuel => exact h fuel rest (Nat.le_of_succ_le_succ enough) ends

theorem Magnitude.passed {text : List Char} (h : Magnitude text) : Passed text := by
  obtain ⟨d, ds, rfl, digit⟩ := h.exists_digit
  have other : ∀ c ∈ [' ', '\t', '\n', '\r', 'n', 't', 'f', '"', '[', ']', '\x7b', '-'], d ≠ c := by
    have none : ∀ c ∈ [' ', '\t', '\n', '\r', 'n', 't', 'f', '"', '[', ']', '\x7b', '-'],
        c.isDigit = false := by
      simp only [List.forall_mem_cons, List.not_mem_nil, false_implies, implies_true, and_true]
      decide
    rintro c mem rfl
    rw [none d mem] at digit
    cases digit
  simp only [List.forall_mem_cons, List.not_mem_nil, false_implies, implies_true, and_true] at other
  obtain ⟨space, tab, feed, back, n, t, f, quote, list, close, object, minus⟩ := other
  have visible : isBlank d = false := by simp [isBlank, space, tab, feed, back]
  refine passed_cons visible close fun fuel rest _ ends => ?_
  rw [skipPart, skipBlanks_cons visible]
  simp only [n, t, f, quote, list, object, minus, digit, if_true, if_false]
  exact h.skipNumber ends

theorem IsValue.passed {text : List Char} (h : IsValue text) : Passed text := by
  induction h with
  | null =>
    exact passed_cons rfl (by decide) fun _ rest _ _ => readWord_append "ull".toList rest
  | true =>
    exact passed_cons rfl (by decide) fun _ rest _ _ => readWord_append "rue".toList rest
  | false =>
    exact passed_cons rfl (by decide) fun _ rest _ _ => readWord_append "alse".toList rest
  | string h =>
    refine passed_cons rfl (by decide) fun _ rest _ _ => ?_
    rw [List.append_assoc]
    exact h.skipString rest
  | positive h => exact h.passed
  | negative h => exact passed_cons rfl (by decide) fun _ _ _ ends => h.skipNumber ends
  | list blank each ih =>
    refine passed_cons rfl (by decide) fun fuel rest enough _ => ?_
    rw [intercalate_append_closing] at enough ⊢
    rw [List.append_assoc]
    rw [List.length_append] at enough
    exact skipPart_items ih blank _ fuel rest (by omega)
  | object blank keys each ih =>
    refine passed_cons rfl (by decide) fun fuel rest enough _ => ?_
    rw [intercalate_append_closing] at enough ⊢
    rw [List.append_assoc]
    rw [List.length_append] at enough
    exact skipPart_members keys ih blank _ fuel rest (by omega)

/-- A value is passed over with the blanks in front of it. -/
theorem IsValue.skipValue {text : List Char} (h : IsValue text) {blanks : List Char}
    (blank : Blank blanks) {rest : List Char} (ends : Ends rest) :
    skipValue (blanks ++ (text ++ rest)) = .ok rest := by
  rw [Json.skipValue, skipPart_blanks blank]
  apply h.passed.skipped _ _ _ ends
  simp only [List.length_append]
  omega

end Values

end ReflectGen.Json
