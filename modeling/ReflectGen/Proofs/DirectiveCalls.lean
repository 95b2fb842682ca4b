import ReflectGen.Proofs.HiddenCalls
import ReflectGen.Source.Prepared

namespace ReflectGen.Source

open Text

/-- The text of a directive call. -/
def callText (d : Directive) (gap inner : List Char) : List Char :=
  d.callName.toList ++ gap ++ '(' :: (inner ++ [')'])

/-- A text that a call of `d` makes up: the name and two parentheses, with nothing but white space
around the first one. -/
def CallShape (d : Directive) (call : List Char) : Prop :=
  ∃ gap inner, (∀ c ∈ gap, isSpace c) ∧ (∀ c ∈ inner, isSpace c) ∧ call = callText d gap inner

/-- A directive call stands between `before` and `after`, and starts a word. -/
structure IsDirectiveCall (whole before : List Char) (d : Directive) (call after : List Char) :
    Prop where
  text : whole = before ++ (call ++ after)
  boundary : atBoundary before.getLast?
  shape : CallShape d call

section Shape

variable {d d' : Directive} {call call' : List Char} {c : Char}

theorem CallShape.ne_nil (h : CallShape d call) : call ≠ [] := by
  obtain ⟨gap, inner, -, -, rfl⟩ := h
  simp [callText]

theorem CallShape.ends (h : CallShape d call) : ∃ body, call = body ++ [')'] := by
  obtain ⟨gap, inner, -, -, rfl⟩ := h
  exact ⟨d.callName.toList ++ gap ++ '(' :: inner, by simp [callText]⟩

/-- A call holds white space, parentheses and letters of its name. -/
theorem CallShape.notMem (h : CallShape d call) (space : isSpace c = false) (opens : c ≠ '(')
    (closes : c ≠ ')') (name : c ∉ d.callName.toList) : c ∉ call := by
  obtain ⟨gap, inner, hgap, hinner, rfl⟩ := h
  have outside : ∀ {gap : List Char}, (∀ c ∈ gap, isSpace c) → c ∉ gap := by
    intro gap spaces mem
    have holds := spaces c mem
    rw [space] at holds
    cases holds
  simp [callText, name, outside hgap, outside hinner, opens, closes]

/-- The names part within their first eleven letters. -/
theorem directive_eq_of_names {x y : List Char}
    (h : d.callName.toList ++ x = d'.callName.toList ++ y) : d = d' := by
  have long : ∀ d : Directive, 11 ≤ d.callName.toList.length := by
    rintro (_ | _ | _) <;> decide
  have starts := congrArg (List.take 11) h
  rw [List.take_append_of_le_length (long d), List.take_append_of_le_length (long d')] at starts
  revert starts
  rcases d with _ | _ | _ <;> rcases d' with _ | _ | _ <;> decide

end Shape

section Search

variable {before : Option Char} {cs : List Char} {d : Directive} {call : List Char}

theorem callOf?_eq_some_iff :
    callOf? d before cs = some call ↔ atBoundary before ∧ CallShape d call ∧ call <+: cs := by
  constructor
  · intro h
    unfold callOf? at h
    split at h
    · cases h
    · rename_i head opened
      obtain ⟨boundary, gap, spaces, taken, text⟩ := opening?_eq_some_iff.mp opened
      split at h
      · rename_i rest closed
        cases h
        have split := head.rest.takeWhile_append_dropWhile (p := isSpace)
        rw [closed] at split
        refine ⟨boundary, ⟨gap, head.rest.takeWhile isSpace, spaces, ?_, ?_⟩, rest, ?_⟩
        · exact List.all_eq_true.mp List.all_takeWhile
        · simp [taken, callText]
        · rw [text]
          simp [split]
      · cases h
  · rintro ⟨boundary, ⟨gap, inner, hgap, hinner, rfl⟩, rest, rfl⟩
    have opened : opening? d.callName before (callText d gap inner ++ rest) =
        some ⟨d.callName.toList ++ gap ++ ['('], inner ++ ')' :: rest⟩ := by
      rw [opening?_eq_some_iff]
      exact ⟨boundary, gap, hgap, rfl, by simp [callText]⟩
    have paren : isSpace ')' = false := by decide
    have drops : (inner ++ ')' :: rest).dropWhile isSpace = ')' :: rest := by
      rw [List.dropWhile_append_of_pos hinner, List.dropWhile_cons_of_neg (by simp [paren])]
    have takes : (inner ++ ')' :: rest).takeWhile isSpace = inner := by
      rw [List.takeWhile_append_of_pos hinner, List.takeWhile_cons_of_neg (by simp [paren]),
        List.append_nil]
    rw [callOf?, opened]
    simp [drops, takes, callText]

theorem directiveCall?_eq_some_iff :
    directiveCall? before cs = some (d, call) ↔
      atBoundary before ∧ CallShape d call ∧ call <+: cs := by
  have sound : ∀ {d call}, directiveCall? before cs = some (d, call) →
      callOf? d before cs = some call := by
    intro d call h
    obtain ⟨d', -, found⟩ := List.exists_of_findSome?_eq_some h
    obtain ⟨call', found, same⟩ := Option.map_eq_some_iff.mp found
    cases same
    exact found
  rw [← callOf?_eq_some_iff]
  constructor
  · exact sound
  · intro here
    cases found : directiveCall? before cs with
    | none =>
      have every := List.findSome?_eq_none_iff.mp found d (by rcases d with _ | _ | _ <;> decide)
      rw [here] at every
      cases every
    | some other =>
      obtain ⟨d', call'⟩ := other
      have there := sound found
      obtain ⟨-, ⟨gap, inner, -, -, rfl⟩, rest, text⟩ := callOf?_eq_some_iff.mp here
      obtain ⟨-, ⟨gap', inner', -, -, rfl⟩, rest', text'⟩ := callOf?_eq_some_iff.mp there
      have same : d = d' := by
        have both := text.trans text'.symm
        simp only [callText, List.append_assoc] at both
        exact directive_eq_of_names both
      subst same
      rw [here, Option.some.injEq] at there
      rw [there]

/-- A call does not take in the line feed behind it. -/
theorem directiveCall?_append_lineFeed (before : Option Char) (cs : List Char) :
    directiveCall? before (cs ++ ['\n']) = directiveCall? before cs := by
  apply Option.ext
  rintro ⟨d, call⟩
  rw [directiveCall?_eq_some_iff, directiveCall?_eq_some_iff]
  apply and_congr_right
  intro _
  apply and_congr_right
  intro shape
  rw [List.prefix_concat_iff]
  apply or_iff_right
  intro same
  obtain ⟨body, rfl⟩ := shape.ends
  have last := congrArg List.getLast? same
  simp at last

end Search

namespace IsDirectiveCall

variable {whole before before' call call' after after' : List Char} {d d' : Directive}

theorem directiveCall?_eq {rest : List Char} (h : IsDirectiveCall whole before d call after)
    (text : whole = before ++ rest) : directiveCall? before.getLast? rest = some (d, call) := by
  have parts : call ++ after = rest := List.append_cancel_left (h.text.symm.trans text)
  rw [directiveCall?_eq_some_iff]
  exact ⟨h.boundary, h.shape, after, parts⟩

/-- Only one call starts at a place. -/
theorem unique (h : IsDirectiveCall whole before d call after)
    (h' : IsDirectiveCall whole before d' call' after') : d = d' ∧ call = call' := by
  have same := (h.directiveCall?_eq h'.text).symm.trans (h'.directiveCall?_eq h'.text)
  rw [Option.some.injEq, Prod.mk.injEq] at same
  exact same

/-- No call starts inside another: the first letter of a name would stand inside the name of the
outer call, behind another letter of it. -/
theorem not_inside {y z : List Char} (outer : IsDirectiveCall whole before d call after)
    (start : y ≠ []) (inside : z ≠ []) (cut : call = y ++ z) :
    ¬IsDirectiveCall whole (before ++ y) d' call' after' := by
  intro inner
  have names : ∀ d : Directive, ∃ name, d.callName.toList = 'S' :: name := by
    rintro (_ | _ | _) <;> exact ⟨_, rfl⟩
  have words : ∀ d : Directive, ∀ c ∈ d.callName.toList, isWord c = true := by
    intro d
    rw [← List.all_eq_true]
    rcases d with _ | _ | _ <;> decide +kernel
  obtain ⟨z, rfl⟩ : ∃ z', z = 'S' :: z' := by
    have text := outer.text.symm.trans inner.text
    rw [cut, List.append_assoc, List.append_assoc, List.append_cancel_left_eq,
      List.append_cancel_left_eq] at text
    obtain ⟨gap', inner', -, -, rfl⟩ := inner.shape
    obtain ⟨name, first⟩ := names d'
    obtain ⟨x, z, rfl⟩ := List.exists_cons_of_ne_nil inside
    rw [callText, first] at text
    simp only [List.cons_append, List.cons.injEq] at text
    exact ⟨z, by rw [text.1]⟩
  obtain ⟨gap, blanks, hgap, hblanks, hcall⟩ := outer.shape
  have foot : 'S' ∉ gap ++ '(' :: (blanks ++ [')']) := by
    have spaces : ∀ {gap : List Char}, (∀ c ∈ gap, isSpace c) → 'S' ∉ gap := by
      intro gap h mem
      exact absurd (h _ mem) (by decide)
    simp [spaces hgap, spaces hblanks]
  have parts : d.callName.toList ++ (gap ++ '(' :: (blanks ++ [')'])) = y ++ 'S' :: z := by
    rw [← cut, hcall, callText, List.append_assoc]
  obtain ⟨x, name, -⟩ := exists_append_of_notMem_right foot parts
  obtain ⟨u, w, rfl⟩ := List.eq_nil_or_concat y |>.resolve_left start
  have word : isWord w = true := by
    apply words d
    simp [name]
  have boundary := inner.boundary
  simp [atBoundary, word] at boundary

end IsDirectiveCall

end ReflectGen.Source
