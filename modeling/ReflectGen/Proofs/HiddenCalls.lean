import ReflectGen.Proofs.CallShape
import ReflectGen.Proofs.DecodedBytes

namespace ReflectGen.Source

open Text

section Nesting

variable {c : Char} {s t w y : List Char}

theorem exists_append_of_notMem_left (hc : c ∉ w) (h : w ++ s = y ++ c :: t) :
    ∃ x, y = w ++ x ∧ s = x ++ c :: t := by
  rcases List.append_eq_append_iff.mp h with ⟨x, hy, hs⟩ | ⟨x, hw, ht⟩
  · exact ⟨x, hy, hs⟩
  · cases x with
    | nil => exact ⟨[], by simpa using hw.symm, by simpa using ht.symm⟩
    | cons d x =>
      rw [List.cons_append, List.cons.injEq] at ht
      exact absurd (by simp [hw, ht.1]) hc

theorem exists_append_of_notMem_right (hc : c ∉ w) (h : s ++ w = y ++ c :: t) :
    ∃ x, s = y ++ c :: x ∧ t = x ++ w := by
  rcases List.append_eq_append_iff.mp h with ⟨x, hy, hw⟩ | ⟨x, hs, ht⟩
  · exact absurd (by simp [hw]) hc
  · cases x with
    | nil => exact absurd (by simp [← show c :: t = w from ht]) hc
    | cons d x =>
      rw [List.cons_append, List.cons.injEq] at ht
      exact ⟨x, by rw [hs, ht.1], ht.2⟩

theorem Terminates.notMem {after tail : List Char} (h : Terminates after tail) (hb : c ≠ ' ')
    (ht : c ≠ '\t') (hs : c ≠ ';') : c ∉ tail := by
  cases h with
  | semicolon blank =>
    intro mem
    rcases List.mem_append.mp mem with mem | mem
    · exact (blank c mem).elim hb ht
    · exact hs (List.mem_singleton.mp mem)
  | bare _ => exact List.not_mem_nil

variable {gap argument tail after : List Char}

theorem HideShape.notMem_gap (h : HideShape gap argument tail after) (hc : isSpace c = false) :
    c ∉ gap := by
  intro mem
  have space := h.gap c mem
  rw [hc] at space
  cases space

/-- The first letter of the name occurs nowhere else in a call but in its argument. -/
theorem HideShape.starts_in_argument (h : HideShape gap argument tail after) (start : y ≠ [])
    (cut : hideText gap argument tail = y ++ 'H' :: t) :
    ∃ a b, argument = a ++ b ∧ 'H' :: t = b ++ ')' :: tail := by
  have name : hideName.toList = 'H' :: hideName.toList.tail := by decide
  cases y with
  | nil => exact absurd rfl start
  | cons d y =>
    rw [hideText, name] at cut
    simp only [List.cons_append, List.cons.injEq] at cut
    have head : 'H' ∉ hideName.toList.tail ++ gap ++ ['('] := by
      have gapped := h.notMem_gap (c := 'H') (by decide)
      have named : 'H' ∉ hideName.toList.tail := by decide
      simp [gapped, named]
    have body : (hideName.toList.tail ++ gap ++ ['(']) ++ (argument ++ ')' :: tail) =
        y ++ 'H' :: t := by
      rw [← cut.2]
      simp
    obtain ⟨a, -, inner⟩ := exists_append_of_notMem_left head body
    have foot : 'H' ∉ ')' :: tail := by
      have ends := h.tail.notMem (c := 'H') (by decide) (by decide) (by decide)
      simp [ends]
    obtain ⟨b, argued, rest⟩ := exists_append_of_notMem_right foot inner
    exact ⟨a, 'H' :: b, argued, by rw [rest, List.cons_append]⟩

/-- An argument closes what a call within it has opened. -/
theorem not_closes_past {a x more gap' argument' : List Char} (outer : Closes 0 argument)
    (inner : Closes 0 argument') (space : ')' ∉ gap')
    (within : argument = a ++ (hideName.toList ++ gap' ++ '(' :: x)) :
    argument' ≠ x ++ ')' :: more := by
  intro past
  have first := outer.never_more a ⟨_, within.symm⟩
  have total := outer.total
  have early := inner.never_more (x ++ [')']) ⟨more, by simp [past]⟩
  have named : hideName.toList.count ')' = 0 := by decide
  have spaced : gap'.count ')' = 0 := List.count_eq_zero_of_not_mem space
  rw [within] at total
  simp only [List.count_append, List.count_cons_self, List.count_nil, named, spaced,
    List.count_cons_of_ne (show '(' ≠ ')' by decide),
    List.count_cons_of_ne (show ')' ≠ '(' by decide)] at total early first
  omega

/-- A hide call that starts within another ends within it. -/
theorem HideShape.nested {z gap' argument' tail' after' : List Char}
    (outer : HideShape gap argument tail after) (inner : HideShape gap' argument' tail' after')
    (start : y ≠ []) (inside : z ≠ []) (cut : hideText gap argument tail = y ++ z)
    (text : z ++ after = hideText gap' argument' tail' ++ after') :
    ∃ rest, z = hideText gap' argument' tail' ++ rest := by
  obtain ⟨a, b, argued, foot⟩ : ∃ a b, argument = a ++ b ∧ z = b ++ ')' :: tail := by
    cases z with
    | nil => exact absurd rfl inside
    | cons d z =>
      have name : hideName.toList = 'H' :: hideName.toList.tail := by decide
      rw [hideText, name] at text
      simp only [List.cons_append, List.cons.injEq] at text
      rw [text.1] at cut ⊢
      exact outer.starts_in_argument start cut
  have space : ')' ∉ gap' := inner.notMem_gap (by decide)
  have head : ')' ∉ hideName.toList ++ gap' ++ ['('] := by
    have named : ')' ∉ hideName.toList := by decide
    simp [named, space]
  have body : (hideName.toList ++ gap' ++ ['(']) ++ (argument' ++ ')' :: (tail' ++ after')) =
      b ++ ')' :: (tail ++ after) := by
    rw [foot] at text
    simpa [hideText] using text.symm
  obtain ⟨x, hb, parts⟩ := exists_append_of_notMem_left head body
  have within : argument = a ++ (hideName.toList ++ gap' ++ '(' :: x) := by
    rw [argued, hb]
    simp
  -- The inner argument ends where the outer one does, before it, or past it.
  have same : argument' = x → tail' ++ after' = tail ++ after →
      ∃ rest, z = hideText gap' argument' tail' ++ rest := by
    intro hx hrest
    have tails : tail' = tail := by
      rw [← inner.tail.semicolon_eq, hrest, outer.tail.semicolon_eq]
    refine ⟨[], ?_⟩
    rw [foot, hb, hx, tails]
    simp [hideText]
  rcases List.append_eq_append_iff.mp parts with ⟨more, hx, hrest⟩ | ⟨more, hx, hrest⟩
  · cases more with
    | nil => exact same (by simpa using hx.symm) (by simpa using hrest)
    | cons d more =>
      rw [List.cons_append, List.cons.injEq] at hrest
      obtain ⟨rfl, hrest⟩ := hrest
      have ends : ')' ∉ tail' := inner.tail.notMem (by decide) (by decide) (by decide)
      obtain ⟨rest, hmore, -⟩ := exists_append_of_notMem_left ends hrest
      refine ⟨rest ++ ')' :: tail, ?_⟩
      rw [foot, hb, hx, hmore]
      simp [hideText]
  · cases more with
    | nil => exact same (by simpa using hx) (by simpa using hrest.symm)
    | cons d more =>
      rw [List.cons_append, List.cons.injEq] at hrest
      rw [← hrest.1] at hx
      exact absurd hx (not_closes_past outer.argument inner.argument space within)

end Nesting

/-- A hide call stands between `before` and `after`: it starts a word, and no preprocessor line
holds its start. -/
structure IsHideCall (source before call after : List Char) : Prop where
  text : source = before ++ (call ++ after)
  boundary : atBoundary before.getLast?
  shape : ∃ gap argument tail, HideShape gap argument tail after ∧ call = hideText gap argument tail
  outside : ∀ line ∈ directiveRanges source, ¬line.contains (byteLength before)

/-- A byte offset lies in a hide call. -/
def IsHidden (source : List Char) (offset : Nat) : Prop :=
  ∃ before call after, IsHideCall source before call after ∧
    byteLength before ≤ offset ∧ offset < byteLength before + byteLength call

namespace IsHideCall

variable {source before call after before' call' after' : List Char}

theorem hideCall?_eq {rest : List Char} (h : IsHideCall source before call after)
    (text : source = before ++ rest) : hideCall? before.getLast? rest = some call := by
  have parts : call ++ after = rest := List.append_cancel_left (h.text.symm.trans text)
  obtain ⟨gap, argument, tail, shape, rfl⟩ := h.shape
  rw [← parts]
  exact hideCall?_append h.boundary shape

theorem ne_nil (h : IsHideCall source before call after) : call ≠ [] := by
  obtain ⟨gap, argument, tail, shape, rfl⟩ := h.shape
  simp [hideText]

theorem nested (outer : IsHideCall source before call after)
    (inner : IsHideCall source before' call' after') {c : Char} (later : before ++ [c] <+: before')
    (starts : byteLength before' < byteLength before + byteLength call) :
    byteLength before' + byteLength call' ≤ byteLength before + byteLength call := by
  obtain ⟨y, rfl⟩ := later
  have parts : call ++ after = (c :: y) ++ (call' ++ after') := by
    have text := outer.text.symm.trans inner.text
    simpa using text
  have length : byteLength (before ++ [c] ++ y) = byteLength before + byteLength (c :: y) := by
    simp
  rw [length] at starts ⊢
  rcases List.append_eq_append_iff.mp parts with ⟨x, hy, -⟩ | ⟨z, hcall, text⟩
  · rw [hy, byteLength_append] at starts
    omega
  · have inside : z ≠ [] := by
      rintro rfl
      rw [hcall, List.append_nil] at starts
      omega
    obtain ⟨gap, argument, tail, shape, rfl⟩ := outer.shape
    obtain ⟨gap', argument', tail', shape', rfl⟩ := inner.shape
    obtain ⟨rest, hz⟩ := shape.nested shape' (List.cons_ne_nil c y) inside hcall text.symm
    rw [hcall, hz, byteLength_append, byteLength_append]
    omega

theorem eq_or_later {c : Char} {rest : List Char} (h : IsHideCall source before' call after)
    (text : source = before ++ c :: rest) (later : before <+: before') :
    before' = before ∨ before ++ [c] <+: before' := by
  obtain ⟨y, rfl⟩ := later
  cases y with
  | nil => exact .inl (List.append_nil _)
  | cons d y =>
    have same := h.text.symm.trans text
    simp only [List.append_assoc, List.append_cancel_left_eq, List.cons_append,
      List.cons.injEq] at same
    exact .inr ⟨y, by simp [same.1]⟩

end IsHideCall

/-- What the search does at one character: it takes the hide call that starts there, or goes on
because none starts there or the character lies in the last call found. -/
theorem hiddenFrom_step {source before rest : List Char} {c : Char} (resume : Nat)
    (text : source = before ++ c :: rest) :
    (∃ call after, IsHideCall source before call after ∧
      hiddenFrom (directiveRanges source) before.getLast? (byteLength before) resume (c :: rest) =
        ⟨byteLength before, byteLength before + byteLength call⟩ ::
          hiddenFrom (directiveRanges source) (before ++ [c]).getLast? (byteLength (before ++ [c]))
            (byteLength before + byteLength call) rest) ∨
    ((byteLength before < resume ∨ ∀ call after, ¬IsHideCall source before call after) ∧
      hiddenFrom (directiveRanges source) before.getLast? (byteLength before) resume (c :: rest) =
        hiddenFrom (directiveRanges source) (before ++ [c]).getLast? (byteLength (before ++ [c]))
          resume rest) := by
  have last : (before ++ [c]).getLast? = some c := by simp
  have next : byteLength (before ++ [c]) = byteLength before + c.utf8Size := by simp
  rw [hiddenFrom, last, next]
  by_cases skipped : byteLength before < resume
  · right
    exact ⟨.inl skipped, by simp [skipped]⟩
  by_cases directive : (directiveRanges source).any (·.contains (byteLength before)) = true
  · right
    refine ⟨.inr fun call after h => ?_, by simp only [directive, Bool.or_true, if_true]⟩
    obtain ⟨line, mem, holds⟩ := List.any_eq_true.mp directive
    exact h.outside line mem holds
  rw [if_neg (by simp only [skipped, directive, decide_false]; decide)]
  cases found : hideCall? before.getLast? (c :: rest) with
  | none =>
    right
    refine ⟨.inr fun call after h => ?_, rfl⟩
    have taken := h.hideCall?_eq text
    rw [found] at taken
    cases taken
  | some call =>
    left
    obtain ⟨boundary, gap, argument, tail, after, shape, hcall, hrest⟩ := shape_of_hideCall? found
    refine ⟨call, after, ⟨by rw [text, hrest], boundary, ⟨gap, argument, tail, shape, hcall⟩, ?_⟩,
      rfl⟩
    intro line mem holds
    exact directive (List.any_eq_true.mpr ⟨line, mem, holds⟩)

theorem isHideCall_of_mem_hiddenFrom {source before rest : List Char} {resume : Nat}
    {range : ByteRange} (text : source = before ++ rest)
    (mem : range ∈
      hiddenFrom (directiveRanges source) before.getLast? (byteLength before) resume rest) :
    ∃ start call after, IsHideCall source start call after ∧
      range = ⟨byteLength start, byteLength start + byteLength call⟩ := by
  induction rest generalizing before resume with
  | nil => cases mem
  | cons c rest ih =>
    have next : source = (before ++ [c]) ++ rest := by simp [text]
    rcases hiddenFrom_step resume text with ⟨call, after, found, ranges⟩ | ⟨-, ranges⟩
    · rw [ranges] at mem
      rcases List.mem_cons.mp mem with rfl | mem
      · exact ⟨before, call, after, found, rfl⟩
      · exact ih next mem
    · rw [ranges] at mem
      exact ih next mem

/-- Each hide call from `before` on lies within a range found, or before `resume`. The search keeps
that no call reaches over `resume`, which is the end of a call itself. -/
theorem covered_of_isHideCall {source before rest start call after : List Char} (resume : Nat)
    (text : source = before ++ rest)
    (closed : ∀ start call after, before <+: start → IsHideCall source start call after →
      byteLength start < resume → byteLength start + byteLength call ≤ resume)
    (later : before <+: start) (h : IsHideCall source start call after) :
    byteLength start + byteLength call ≤ resume ∨
      ∃ range ∈ hiddenFrom (directiveRanges source) before.getLast? (byteLength before) resume rest,
        range.start ≤ byteLength start ∧ byteLength start + byteLength call ≤ range.stop := by
  induction rest generalizing before resume with
  | nil =>
    obtain ⟨y, rfl⟩ := later
    have none := h.text.symm.trans text
    simp [h.ne_nil] at none
  | cons c rest ih =>
    have next : source = (before ++ [c]) ++ rest := by simp [text]
    have wider : ∀ {start}, before ++ [c] <+: start → before <+: start :=
      (List.prefix_append before [c]).trans
    rcases hiddenFrom_step resume text with ⟨found, behind, hfound, ranges⟩ | ⟨skip, ranges⟩
    · rw [ranges]
      right
      rcases h.eq_or_later text later with rfl | later
      · have same : call = found :=
          Option.some.inj ((h.hideCall?_eq text).symm.trans (hfound.hideCall?_eq text))
        exact ⟨_, List.mem_cons_self, Nat.le_refl _, Nat.le_of_eq (by rw [same])⟩
      · have inside : ∀ start call after, before ++ [c] <+: start →
            IsHideCall source start call after →
            byteLength start < byteLength before + byteLength found →
            byteLength start + byteLength call ≤ byteLength before + byteLength found := by
          intro start call after later inner lt
          exact hfound.nested inner later lt
        rcases ih _ next inside later with ends | ⟨range, mem, covers⟩
        · obtain ⟨y, hy⟩ := wider later
          have le : byteLength before ≤ byteLength start := by
            rw [← hy, byteLength_append]
            omega
          exact ⟨_, List.mem_cons_self, le, ends⟩
        · exact ⟨range, List.mem_cons_of_mem _ mem, covers⟩
    · rw [ranges]
      rcases h.eq_or_later text later with rfl | later
      · rcases skip with lt | none
        · exact .inl (closed _ call after later h lt)
        · exact absurd h (none call after)
      · exact ih _ next (fun start call after later => closed start call after (wider later)) later

theorem any_hiddenRanges_iff (source : List Char) (offset : Nat) :
    (hiddenRanges (directiveRanges source) source).any (·.contains offset) = true ↔
      IsHidden source offset := by
  simp only [List.any_eq_true, ByteRange.contains, Bool.and_eq_true, decide_eq_true_eq]
  constructor
  · rintro ⟨range, mem, lo, hi⟩
    obtain ⟨start, call, after, h, rfl⟩ :=
      isHideCall_of_mem_hiddenFrom (List.nil_append source).symm mem
    exact ⟨start, call, after, h, lo, hi⟩
  · rintro ⟨start, call, after, h, lo, hi⟩
    have covered := covered_of_isHideCall 0 (List.nil_append source).symm
      (fun _ _ _ _ _ lt => absurd lt (Nat.not_lt_zero _)) (List.nil_prefix) h
    rcases covered with ends | ⟨range, mem, left, right⟩
    · omega
    · exact ⟨range, mem, by omega, by omega⟩

instance (source : List Char) (offset : Nat) : Decidable (IsHidden source offset) :=
  decidable_of_iff _ (any_hiddenRanges_iff source offset)

section Pass

/-- The search goes on behind the last call that it found. -/
theorem resume_le_start {directives : List ByteRange} {before : Option Char} {offset resume : Nat}
    {cs : List Char} {range : ByteRange}
    (h : range ∈ hiddenFrom directives before offset resume cs) : resume ≤ range.start := by
  induction cs generalizing before offset resume with
  | nil => cases h
  | cons c cs ih =>
    rw [hiddenFrom] at h
    split at h
    · exact ih h
    · rename_i onward
      have passed : resume ≤ offset := by
        rw [Bool.or_eq_true, not_or, decide_eq_true_eq] at onward
        exact Nat.not_lt.mp onward.1
      split at h
      · exact ih h
      · rcases List.mem_cons.mp h with rfl | later
        · exact passed
        · have behind := ih later
          omega

theorem pairwise_hiddenFrom (directives : List ByteRange) (before : Option Char)
    (offset resume : Nat) (cs : List Char) :
    (hiddenFrom directives before offset resume cs).Pairwise fun a b => a.stop ≤ b.start := by
  induction cs generalizing before offset resume with
  | nil => exact .nil
  | cons c cs ih =>
    rw [hiddenFrom]
    split
    · exact ih _ _ _
    · split
      · exact ih _ _ _
      · exact .cons (fun range later => resume_le_start later) (ih _ _ _)

/-- Whether the first range that has not ended holds an offset. -/
def hides (ranges : List ByteRange) (offset : Nat) : Bool :=
  (ranges.dropWhile (·.stop ≤ offset)).head?.any (·.contains offset)

/-- Of ranges in order that do not overlap, only the first that has not ended can hold an
offset. -/
theorem hides_eq_any {ranges : List ByteRange}
    (ordered : ranges.Pairwise fun a b => a.stop ≤ b.start) (offset : Nat) :
    hides ranges offset = ranges.any (·.contains offset) := by
  induction ordered with
  | nil => rfl
  | @cons range ranges apart _ ih =>
    rw [List.any_cons, ← ih]
    by_cases ended : range.stop ≤ offset
    · have outside : range.contains offset = false := by
        simp [ByteRange.contains, ended]
      rw [hides, List.dropWhile_cons_of_pos (by simpa using ended), outside, Bool.false_or, hides]
    · have later : ranges.any (·.contains offset) = false := by
        rw [List.any_eq_false]
        intro next mem holds
        have start := apart next mem
        simp only [ByteRange.contains, Bool.and_eq_true, decide_eq_true_eq] at holds
        omega
      rw [ih, later, hides, List.dropWhile_cons_of_neg (by simpa using ended), Bool.or_false]
      rfl

theorem hides_hiddenRanges_iff (source : List Char) (offset : Nat) :
    hides (hiddenRanges (directiveRanges source) source) offset = true ↔
      IsHidden source offset := by
  have ordered := pairwise_hiddenFrom (directiveRanges source) none 0 0 source
  rw [hiddenRanges, hides_eq_any ordered, ← hiddenRanges, any_hiddenRanges_iff]

theorem dropWhile_stop_le {ranges : List ByteRange} {offset later : Nat} (h : offset ≤ later) :
    (ranges.dropWhile (·.stop ≤ offset)).dropWhile (·.stop ≤ later) =
      ranges.dropWhile (·.stop ≤ later) := by
  induction ranges with
  | nil => rfl
  | cons range ranges ih =>
    by_cases ended : range.stop ≤ offset
    · rw [List.dropWhile_cons_of_pos (by simpa using ended), ih,
        List.dropWhile_cons_of_pos (by simpa using Nat.le_trans ended h)]
    · rw [List.dropWhile_cons_of_neg (by simpa using ended)]

/-- The ranges that the pass drops have ended for all that follows. -/
theorem blankFrom_step (ranges : List ByteRange) (offset : Nat) (c : Char) (cs : List Char) :
    blankFrom ranges offset (c :: cs) =
      (if hides ranges offset && c ≠ '\n' then List.replicate c.utf8Size ' ' else [c]) ++
        blankFrom ranges (offset + c.utf8Size) cs := by
  have onward : blankFrom (ranges.dropWhile (·.stop ≤ offset)) (offset + c.utf8Size) cs =
      blankFrom ranges (offset + c.utf8Size) cs := by
    cases cs with
    | nil => rfl
    | cons d cs => rw [blankFrom, blankFrom, dropWhile_stop_le (Nat.le_add_right offset c.utf8Size)]
  rw [blankFrom, onward]
  rfl

end Pass

section Bytes

/-- A line feed is no byte of another character. -/
theorem eq_lineFeed_of_mem {c : Char} (h : 10 ∈ String.utf8EncodeChar c) : c = '\n' := by
  have low : ∀ n : Nat, (10 : UInt8) = UInt8.ofNat n → n % 256 = 10 := by
    intro n hn
    have value := congrArg UInt8.toNat hn
    rw [UInt8.toNat_ofNat'] at value
    exact value.symm
  unfold String.utf8EncodeChar at h
  simp only at h
  split at h
  · have code := low _ (List.mem_singleton.mp h)
    apply Char.ext
    apply UInt32.toNat_inj.mp
    show c.val.toNat = 10
    omega
  -- All bytes of a longer form have the high bit.
  · split at h
    · simp only [List.mem_cons, List.not_mem_nil, or_false] at h
      rcases h with h | h <;> have := low _ h <;> omega
    · split at h <;> simp only [List.mem_cons, List.not_mem_nil, or_false] at h
      · rcases h with h | h | h <;> have := low _ h <;> omega
      · rcases h with h | h | h | h <;> have := low _ h <;> omega

/-- A byte offset that cuts a text between characters cuts no character. -/
theorem byteLength_le_or_ge {x y u v : List Char} {c : Char} (h : x ++ c :: y = u ++ v) :
    byteLength u ≤ byteLength x ∨ byteLength x + c.utf8Size ≤ byteLength u := by
  rcases List.append_eq_append_iff.mp h with ⟨z, hu, hz⟩ | ⟨z, hx, -⟩
  · cases z with
    | nil =>
      left
      exact Nat.le_of_eq (by rw [hu, List.append_nil])
    | cons d z =>
      right
      rw [List.cons_append, List.cons.injEq] at hz
      rw [hu, hz.1, byteLength_append, byteLength_cons]
      omega
  · left
    rw [hx, byteLength_append]
    omega

theorem isHidden_char {source before rest : List Char} {c : Char} {i : Nat}
    (text : source = before ++ c :: rest) (hi : i < c.utf8Size) :
    IsHidden source (byteLength before + i) ↔ IsHidden source (byteLength before) := by
  have cuts : ∀ {start call after}, IsHideCall source start call after →
      ((byteLength start ≤ byteLength before + i ∧
        byteLength before + i < byteLength start + byteLength call) ↔
      (byteLength start ≤ byteLength before ∧
        byteLength before < byteLength start + byteLength call)) := by
    intro start call after h
    have first := byteLength_le_or_ge (text.symm.trans h.text)
    have last := byteLength_le_or_ge
      ((text.symm.trans h.text).trans (List.append_assoc start call after).symm)
    rw [byteLength_append] at last
    omega
  constructor
  · rintro ⟨start, call, after, h, range⟩
    exact ⟨start, call, after, h, (cuts h).mp range⟩
  · rintro ⟨start, call, after, h, range⟩
    exact ⟨start, call, after, h, (cuts h).mpr range⟩

/-- A byte as it is shown. -/
def shownByte (source : List Char) (offset : Nat) (byte : UInt8) : UInt8 :=
  if IsHidden source offset ∧ byte ≠ 10 then 32 else byte

theorem encode_blankChar {source before rest : List Char} {c : Char}
    (text : source = before ++ c :: rest) :
    (if IsHidden source (byteLength before) ∧ c ≠ '\n' then List.replicate c.utf8Size ' '
        else [c]).flatMap String.utf8EncodeChar =
      (String.utf8EncodeChar c).mapIdx fun i => shownByte source (byteLength before + i) := by
  have together : ((String.utf8EncodeChar c).mapIdx fun i =>
      shownByte source (byteLength before + i)) =
        (String.utf8EncodeChar c).map (shownByte source (byteLength before)) := by
    apply List.ext_getElem
    · simp
    · intro i hi _
      rw [List.length_mapIdx, String.length_utf8EncodeChar] at hi
      simp [shownByte, isHidden_char text hi]
  rw [together]
  by_cases blanked : IsHidden source (byteLength before) ∧ c ≠ '\n'
  · have blank : String.utf8EncodeChar ' ' = [32] := rfl
    rw [if_pos blanked, List.flatMap_replicate, blank, List.flatten_replicate_singleton]
    symm
    rw [List.eq_replicate_iff, List.length_map, String.length_utf8EncodeChar]
    refine ⟨rfl, fun shown mem => ?_⟩
    obtain ⟨byte, hbyte, rfl⟩ := List.mem_map.mp mem
    have notFeed : byte ≠ 10 := by
      rintro rfl
      exact blanked.2 (eq_lineFeed_of_mem hbyte)
    exact if_pos ⟨blanked.1, notFeed⟩
  · have kept : ∀ byte ∈ String.utf8EncodeChar c,
        shownByte source (byteLength before) byte = id byte := by
      intro byte mem
      apply if_neg
      rintro ⟨hidden, notFeed⟩
      apply blanked
      refine ⟨hidden, ?_⟩
      rintro rfl
      exact notFeed (List.mem_singleton.mp mem)
    rw [if_neg blanked, List.flatMap_singleton, List.map_congr_left kept, List.map_id]

theorem encode_blankFrom {source before rest : List Char} {ranges : List ByteRange}
    (hidden : ∀ offset, hides ranges offset = true ↔ IsHidden source offset)
    (text : source = before ++ rest) :
    (blankFrom ranges (byteLength before) rest).flatMap String.utf8EncodeChar =
      (rest.flatMap String.utf8EncodeChar).mapIdx fun i =>
        shownByte source (byteLength before + i) := by
  induction rest generalizing before with
  | nil => rfl
  | cons c rest ih =>
    have later := @ih (before ++ [c]) (by simp [text])
    have next : byteLength (before ++ [c]) = byteLength before + c.utf8Size := by simp
    have here := encode_blankChar text
    rw [next] at later
    rw [blankFrom_step, List.flatMap_append, later, List.flatMap_cons, List.mapIdx_append, ← here]
    congr 1
    · simp [hidden]
    · rw [String.length_utf8EncodeChar]
      congr 1
      funext i
      rw [Nat.add_assoc, Nat.add_comm c.utf8Size]

end Bytes

theorem blank_hides_calls (source : List Char) :
    let shown := blank (hiddenRanges (directiveRanges source) source) source
    (encode (String.ofList shown)).length = (encode (String.ofList source)).length ∧
      ∀ (offset : Nat) (byte : UInt8), (encode (String.ofList source))[offset]? = some byte →
        (encode (String.ofList shown))[offset]? =
          some (if IsHidden source offset ∧ byte ≠ 10 then 32 else byte) := by
  have bytes := encode_blankFrom (hides_hiddenRanges_iff source) (List.nil_append source).symm
  simp only [encode_ofList, blank]
  rw [byteLength_nil] at bytes
  rw [bytes]
  refine ⟨List.length_mapIdx, fun offset byte h => ?_⟩
  rw [List.getElem?_mapIdx, h, Nat.zero_add]
  rfl

-- The outer call is never closed; the inner one holds a character of two bytes and a line feed.
example :
    let source := "HIDE_FROM_CODEGEN(HIDE_FROM_CODEGEN(é\n)\t;x".toList
    blank (hiddenRanges (directiveRanges source) source) source =
      "HIDE_FROM_CODEGEN(                    \n   x".toList := by
  decide +kernel

end ReflectGen.Source
