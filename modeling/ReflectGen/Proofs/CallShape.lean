import ReflectGen.Source.Hidden

namespace ReflectGen.Source

open Text

theorem opening?_eq_some_iff {word : String} {before : Option Char} {cs : List Char} {cut : Cut} :
    opening? word before cs = some cut ↔
      atBoundary before ∧ ∃ gap, (∀ c ∈ gap, isSpace c) ∧
        cut.taken = word.toList ++ gap ++ ['('] ∧ cs = cut.taken ++ cut.rest := by
  constructor
  · intro h
    unfold opening? at h
    split at h
    · rename_i boundary
      split at h
      · cases h
      · rename_i rest hrest
        rw [afterLiteral_eq_some_iff] at hrest
        split at h
        · rename_i inner hinner
          cases h
          refine ⟨boundary, rest.takeWhile isSpace,
            List.all_eq_true.mp List.all_takeWhile, rfl, ?_⟩
          have split := rest.takeWhile_append_dropWhile (p := isSpace)
          rw [hinner] at split
          rw [hrest]
          simp [split]
        · cases h
    · cases h
  · rintro ⟨boundary, gap, hgap, htaken, hcs⟩
    obtain ⟨taken, rest⟩ := cut
    subst htaken
    have literal : afterLiteral word.toList cs = some (gap ++ '(' :: rest) := by
      rw [afterLiteral_eq_some_iff, hcs]
      simp
    have paren : isSpace '(' = false := by decide
    have drops : (gap ++ '(' :: rest).dropWhile isSpace = '(' :: rest := by
      rw [List.dropWhile_append_of_pos hgap, List.dropWhile_cons_of_neg (by simp [paren])]
    have takes : (gap ++ '(' :: rest).takeWhile isSpace = gap := by
      rw [List.takeWhile_append_of_pos hgap, List.takeWhile_cons_of_neg (by simp [paren]),
        List.append_nil]
    simp [opening?, boundary, literal, drops, takes]

/-- By counting, a text closes `depth` parentheses more than it opens, and never more than that on
the way. -/
structure Closes (depth : Nat) (text : List Char) : Prop where
  never_more : ∀ start, start <+: text → start.count ')' ≤ start.count '(' + depth
  total : text.count ')' = text.count '(' + depth

namespace Closes

variable {depth : Nat} {text : List Char}

theorem cons_iff {c : Char} : Closes depth (c :: text) ↔
    (∀ start, start <+: text → (c :: start).count ')' ≤ (c :: start).count '(' + depth) ∧
      (c :: text).count ')' = (c :: text).count '(' + depth := by
  constructor
  · intro h
    refine ⟨fun start hs => h.never_more (c :: start) ?_, h.total⟩
    exact List.cons_prefix_cons.mpr ⟨rfl, hs⟩
  · rintro ⟨starts, total⟩
    refine ⟨fun start hs => ?_, total⟩
    rcases List.prefix_cons_iff.mp hs with rfl | ⟨start, rfl, hs⟩
    · simp
    · exact starts start (List.cons_prefix_cons.mp hs).2

theorem nil_iff : Closes depth [] ↔ depth = 0 := by
  constructor
  · intro h
    have total := h.total
    simp only [List.count_nil] at total
    omega
  · rintro rfl
    refine ⟨fun start hs => ?_, rfl⟩
    rw [List.prefix_nil.mp hs]
    exact Nat.zero_le _

theorem cons_close : Closes (depth + 1) (')' :: text) ↔ Closes depth text := by
  have close : ∀ l : List Char, (')' :: l).count ')' = l.count ')' + 1 ∧
      (')' :: l).count '(' = l.count '(' := by simp
  rw [cons_iff]
  simp only [close]
  constructor
  · rintro ⟨starts, total⟩
    refine ⟨fun start hs => ?_, by omega⟩
    have := starts start hs
    omega
  · intro h
    refine ⟨fun start hs => ?_, ?_⟩
    · have := h.never_more start hs
      omega
    · have := h.total
      omega

theorem not_zero_close : ¬Closes 0 (')' :: text) := by
  intro h
  have first := h.never_more [')'] (by simp)
  simp at first

theorem cons_open : Closes depth ('(' :: text) ↔ Closes (depth + 1) text := by
  have opens : ∀ l : List Char, ('(' :: l).count ')' = l.count ')' ∧
      ('(' :: l).count '(' = l.count '(' + 1 := by simp
  rw [cons_iff]
  simp only [opens]
  constructor
  · rintro ⟨starts, total⟩
    refine ⟨fun start hs => ?_, by omega⟩
    have := starts start hs
    omega
  · intro h
    refine ⟨fun start hs => ?_, ?_⟩
    · have := h.never_more start hs
      omega
    · have := h.total
      omega

theorem cons_other {c : Char} (hc : c ≠ ')') (ho : c ≠ '(') :
    Closes depth (c :: text) ↔ Closes depth text := by
  rw [cons_iff]
  simp only [List.count_cons_of_ne hc, List.count_cons_of_ne ho]
  exact ⟨fun h => ⟨h.1, h.2⟩, fun h => ⟨h.1, h.2⟩⟩

end Closes

theorem closing?_append {depth : Nat} {argument : List Char} (h : Closes depth argument)
    (rest : List Char) :
    closing? depth (argument ++ ')' :: rest) = some ⟨argument ++ [')'], rest⟩ := by
  induction argument generalizing depth with
  | nil =>
    obtain rfl := Closes.nil_iff.mp h
    simp [closing?]
  | cons c argument ih =>
    by_cases close : c = ')'
    · subst close
      cases depth with
      | zero => exact absurd h Closes.not_zero_close
      | succ depth => simp [closing?, ih (Closes.cons_close.mp h)]
    · by_cases opens : c = '('
      · subst opens
        simp [closing?, ih (Closes.cons_open.mp h)]
      · simp [closing?, close, opens, ih ((Closes.cons_other close opens).mp h)]

theorem closes_of_closing? {depth : Nat} {cs : List Char} {cut : Cut}
    (h : closing? depth cs = some cut) :
    ∃ argument, Closes depth argument ∧ cut.taken = argument ++ [')'] ∧
      cs = cut.taken ++ cut.rest := by
  induction cs generalizing depth cut with
  | nil => simp [closing?] at h
  | cons c cs ih =>
    -- Past the first character the search goes on, at a depth that this character decides.
    have later : ∀ {d}, (∀ a, Closes d a → Closes depth (c :: a)) →
        (closing? d cs).map (fun cut => (⟨c :: cut.taken, cut.rest⟩ : Cut)) = some cut →
        ∃ argument, Closes depth argument ∧ cut.taken = argument ++ [')'] ∧
          c :: cs = cut.taken ++ cut.rest := by
      intro d deeper found
      obtain ⟨cut', inner, rfl⟩ := Option.map_eq_some_iff.mp found
      obtain ⟨argument, closes, taken, text⟩ := ih inner
      exact ⟨c :: argument, deeper argument closes, congrArg (c :: ·) taken,
        congrArg (c :: ·) text⟩
    by_cases close : c = ')'
    · subst close
      cases depth with
      | zero =>
        simp only [closing?, if_true, Option.some.injEq] at h
        subst h
        exact ⟨[], Closes.nil_iff.mpr rfl, rfl, rfl⟩
      | succ depth =>
        simp only [closing?, if_true] at h
        exact later (fun a => Closes.cons_close.mpr) h
    · simp only [closing?, close, if_false] at h
      by_cases opens : c = '('
      · subst opens
        exact later (fun a => Closes.cons_open.mpr) h
      · rw [if_neg opens] at h
        exact later (fun a => (Closes.cons_other close opens).mpr) h

def BlanksOnly (text : List Char) : Prop := ∀ c ∈ text, c = ' ' ∨ c = '\t'

/-- What belongs to a call behind its parenthesis, in front of `after`: a semicolon, with nothing
but blanks and tabs before it, or nothing if there is none. -/
inductive Terminates (after : List Char) : List Char → Prop
  | semicolon {blanks : List Char} (h : BlanksOnly blanks) : Terminates after (blanks ++ [';'])
  | bare (h : ∀ blanks rest, BlanksOnly blanks → after ≠ blanks ++ ';' :: rest) :
      Terminates after []

theorem semicolon_append {blanks : List Char} (h : BlanksOnly blanks) (rest : List Char) :
    semicolon (blanks ++ ';' :: rest) = blanks ++ [';'] := by
  have gap : ∀ c ∈ blanks, (c == ' ' || c == '\t') = true := by simpa [BlanksOnly] using h
  unfold semicolon
  simp [List.dropWhile_append_of_pos gap, List.takeWhile_append_of_pos gap]

theorem semicolon_eq_nil {cs : List Char}
    (h : ∀ blanks rest, BlanksOnly blanks → cs ≠ blanks ++ ';' :: rest) : semicolon cs = [] := by
  unfold semicolon
  dsimp only
  split
  · rename_i rest hrest
    have blank : BlanksOnly (cs.takeWhile fun c => c == ' ' || c == '\t') := by
      intro c hc
      have gap := List.all_eq_true.mp List.all_takeWhile c hc
      simpa using gap
    refine absurd ?_ (h _ rest blank)
    rw [← hrest, List.takeWhile_append_dropWhile]
  · rfl

theorem terminates_semicolon (cs : List Char) :
    ∃ after, cs = semicolon cs ++ after ∧ Terminates after (semicolon cs) := by
  by_cases h : ∃ blanks rest, BlanksOnly blanks ∧ cs = blanks ++ ';' :: rest
  · obtain ⟨blanks, rest, blank, rfl⟩ := h
    rw [semicolon_append blank]
    exact ⟨rest, by simp, .semicolon blank⟩
  · have bare : ∀ blanks rest, BlanksOnly blanks → cs ≠ blanks ++ ';' :: rest :=
      fun blanks rest blank text => h ⟨blanks, rest, blank, text⟩
    rw [semicolon_eq_nil bare]
    exact ⟨cs, rfl, .bare bare⟩

theorem Terminates.semicolon_eq {tail after : List Char} (h : Terminates after tail) :
    Source.semicolon (tail ++ after) = tail := by
  cases h with
  | semicolon blank =>
    rw [List.append_assoc]
    exact semicolon_append blank after
  | bare none => exact semicolon_eq_nil none

/-- The text of a hide call. -/
def hideText (gap argument tail : List Char) : List Char :=
  hideName.toList ++ gap ++ '(' :: (argument ++ ')' :: tail)

/-- A text that a hide call makes up when `after` stands behind it. -/
structure HideShape (gap argument tail after : List Char) : Prop where
  gap : ∀ c ∈ gap, isSpace c
  argument : Closes 0 argument
  tail : Terminates after tail

theorem hideCall?_append {before : Option Char} {gap argument tail after : List Char}
    (boundary : atBoundary before) (h : HideShape gap argument tail after) :
    hideCall? before (hideText gap argument tail ++ after) = some (hideText gap argument tail) := by
  have head : opening? hideName before (hideText gap argument tail ++ after) =
      some ⟨hideName.toList ++ gap ++ ['('], argument ++ ')' :: (tail ++ after)⟩ := by
    rw [opening?_eq_some_iff]
    exact ⟨boundary, gap, h.gap, rfl, by simp [hideText]⟩
  rw [hideCall?, head]
  simp [closing?_append h.argument, h.tail.semicolon_eq, hideText]

theorem shape_of_hideCall? {before : Option Char} {cs call : List Char}
    (h : hideCall? before cs = some call) :
    atBoundary before ∧ ∃ gap argument tail after, HideShape gap argument tail after ∧
      call = hideText gap argument tail ∧ cs = call ++ after := by
  unfold hideCall? at h
  split at h
  · cases h
  · rename_i head hhead
    split at h
    · cases h
    · rename_i inner hinner
      cases h
      obtain ⟨boundary, gap, space, htaken, text⟩ := opening?_eq_some_iff.mp hhead
      obtain ⟨argument, closes, taken, rest⟩ := closes_of_closing? hinner
      obtain ⟨after, behind, ends⟩ := terminates_semicolon inner.rest
      refine ⟨boundary, gap, argument, semicolon inner.rest, after, ⟨space, closes, ends⟩, ?_, ?_⟩
      · rw [htaken, taken]
        simp [hideText]
      · rw [text, rest, List.append_assoc, List.append_assoc, ← behind]

end ReflectGen.Source
