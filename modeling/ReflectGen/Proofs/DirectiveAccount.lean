import ReflectGen.Proofs.ScanStep
import ReflectGen.Proofs.Traversal

namespace ReflectGen

/-- Faults about a reflect directive that finds no use, the one at the end of a file included. -/
def Fault.refusesReflection : Fault → Bool
  | nestedReflection | danglingReflection => true
  | _ => false

def Fault.refusesMark : Fault → Bool
  | misplacedDirective _ => true
  | _ => false

theorem Fault.kind_eq_structural_iff (f : Fault) :
    f.kind = .structuralDirective ↔ f.refusesReflection ∨ f.refusesMark := by
  cases f <;> simp [kind, refusesReflection, refusesMark]

namespace Scan

open DeclTree (Node)

/-- A call of the visitor: the scan before it, and the declaration it is about. -/
structure Call where
  before : Progress
  next : Node
  above : Node
  deriving DecidableEq

namespace Call

def after (root : Path) (c : Call) : Progress := (step root c.before c.next c.above).1

def directive? (c : Call) : Option Directive := Directive.ofMarker? c.next.decl.spelling

def mark? (c : Call) : Option Mark := c.directive?.bind Directive.mark?

/-- Whether the declaration is spelled as the marker of a directive. -/
def isSpelled (c : Call) (d : Directive) : Bool := c.next.decl.spelling == d.marker

/-- Whether the declaration is spelled as the marker of a directive for members. -/
def isMemberMarker (c : Call) : Bool :=
  c.isSpelled (.member .aliasRef) || c.isSpelled (.member .method)

theorem isSpelled_iff {c : Call} {d : Directive} : c.isSpelled d ↔ c.directive? = some d := by
  rw [isSpelled, beq_iff_eq, directive?, Directive.ofMarker?_eq_some_iff]

theorem isMemberMarker_eq (c : Call) : c.isMemberMarker = c.mark?.isSome := by
  rw [isMemberMarker, Bool.eq_iff_iff, Bool.or_eq_true, isSpelled_iff, isSpelled_iff, mark?]
  cases c.directive? with
  | none => simp
  | some d =>
    cases d with
    | reflectType => simp [Directive.mark?]
    | member mark => cases mark <;> simp [Directive.mark?]

/-- Whether the declaration becomes the open record. -/
def binds (root : Path) (c : Call) : Bool :=
  c.before.state = .awaitingType ∧ (c.after root).state = .inside c.next

/-- The pending mark under which the declaration is accepted as a member. -/
def acceptedUnder? (c : Call) : Option Mark :=
  match c.before.state with
  | .awaitingMember record mark =>
    if record.id = c.above.id ∧ c.directive? = none ∧ (fieldKind? (some mark) c.next.decl).isSome
    then some mark else none
  | _ => none

/-- Whether the declaration is what a directive before it asks for. -/
def fulfils (root : Path) (c : Call) : Directive → Prop
  | .reflectType => c.binds root
  | .member mark => c.acceptedUnder? = some mark

end Call

/-- Every directive takes effect: the declaration visited right after it is what it asks for. -/
def AllTakeEffect (root : Path) : List Call → Prop
  | [] => True
  | c :: rest =>
    (∀ d, c.isSpelled d → ∃ c' ∈ rest.head?, c'.fulfils root d) ∧ AllTakeEffect root rest

/-- The calls of a scan over declarations that are visited one after another. -/
def calls (root : Path) : Progress → List (Node × Node) → List Call
  | _, [] => []
  | p, (next, above) :: rest =>
    ⟨p, next, above⟩ :: calls root (step root p next above).1 rest

def log (root : Path) (t : DeclTree) : List Call :=
  calls root {} ((t.forest 0).visited (step root) t.unit {})

def runCalls (root : Path) (p : Progress) (visits : List (Node × Node)) : Progress :=
  visits.foldl (fun p v => (step root p v.1 v.2).1) p

theorem walk_eq_runCalls (root : Path) (t : DeclTree) :
    walk root t = runCalls root {} ((t.forest 0).visited (step root) t.unit {}) :=
  Forest.visit_eq_foldl ..

/-- What each call keeps in balance is in balance over a whole run. -/
theorem runCalls_balance (root : Path) (paid used : Call → Bool) (debt : Progress → Nat)
    (h : ∀ c : Call, (paid c).toNat + debt c.before = (used c).toNat + debt (c.after root))
    (p : Progress) (visits : List (Node × Node)) :
    (calls root p visits).countP paid + debt p =
      (calls root p visits).countP used + debt (runCalls root p visits) := by
  induction visits generalizing p with
  | nil => simp [calls, runCalls]
  | cons v rest ih =>
    have first := h ⟨p, v.1, v.2⟩
    have later := ih (step root p v.1 v.2).1
    simp only [Call.after] at first
    simp only [calls, runCalls, List.foldl_cons, List.countP_cons]
    simp only [runCalls] at later
    cases hp : paid ⟨p, v.1, v.2⟩ <;> cases hu : used ⟨p, v.1, v.2⟩ <;>
      simp only [hp, hu, Bool.toNat_false, Bool.toNat_true] at first ⊢ <;>
      simp <;> omega

def State.awaitsType : State → Bool
  | .awaitingType => true
  | _ => false

def State.isMarked : State → Bool
  | .awaitingMember _ _ => true
  | _ => false

/-- Reflect directives that a scan has met and has not used: those it reported, and the pending
one. -/
def reflectionDebt (p : Progress) : Nat :=
  p.errors.countP (·.fault.kind = .accessibility) + p.errors.countP (·.fault.refusesReflection) +
    p.state.awaitsType.toNat

def markDebt (p : Progress) : Nat :=
  p.errors.countP (·.fault.kind = .invalidMember) +
    p.errors.countP (·.fault.kind = .incompleteDeclaration) +
    p.errors.countP (·.fault.refusesMark) + p.state.isMarked.toNat

theorem reflectionDebt_fail (p : Progress) (fault : Fault) (l : Location) :
    reflectionDebt (p.fail fault l) =
      reflectionDebt p + (decide (fault.kind = .accessibility)).toNat +
        fault.refusesReflection.toNat := by
  simp only [reflectionDebt, Progress.fail, List.countP_append, List.countP_singleton]
  cases fault.refusesReflection <;> by_cases h : fault.kind = .accessibility <;>
    simp [h] <;> omega

theorem markDebt_fail (p : Progress) (fault : Fault) (l : Location) :
    markDebt (p.fail fault l) =
      markDebt p + (decide (fault.kind = .invalidMember)).toNat +
        (decide (fault.kind = .incompleteDeclaration)).toNat + fault.refusesMark.toNat := by
  simp only [markDebt, Progress.fail, List.countP_append, List.countP_singleton]
  cases fault.refusesMark <;> cases hk : fault.kind <;> simp <;> omega

section Steps

variable {root : Path} {next above : Node} {p q r : Progress}

theorem Leaves.reflection (h : Leaves next above p q) :
    reflectionDebt q = reflectionDebt p ∧ (q.state = .awaitingType ↔ p.state = .awaitingType) := by
  cases h with
  | outside => exact ⟨rfl, Iff.rfl⟩
  | stays => exact ⟨rfl, Iff.rfl⟩
  | ends hs => simp [reflectionDebt, State.awaitsType, hs]
  | cuts hs =>
    rw [reflectionDebt_fail]
    simp [reflectionDebt, State.awaitsType, Progress.fail, hs, Fault.kind, Fault.refusesReflection]

theorem Leaves.mark (h : Leaves next above p q) : markDebt q = markDebt p := by
  cases h with
  | outside => rfl
  | stays => rfl
  | ends hs => simp [markDebt, hs, State.isMarked]
  | cuts hs =>
    rw [markDebt_fail]
    simp [markDebt, hs, State.isMarked, Fault.kind, Fault.refusesMark]

/-- Only a member directive of the record that the declaration stands in can be fulfilled by it. -/
theorem Leaves.acceptedUnder? (h : Leaves next above p q) :
    Call.acceptedUnder? ⟨p, next, above⟩ =
      match q.state with
      | .awaitingMember _ mark =>
        if Directive.ofMarker? next.decl.spelling = none ∧
          (fieldKind? (some mark) next.decl).isSome then some mark else none
      | _ => none := by
  cases h with
  | outside hs => rcases hs with hs | hs <;> simp [Call.acceptedUnder?, hs]
  | stays record mark hs hid => cases mark <;> simp [Call.acceptedUnder?, Call.directive?, hs, hid]
  | ends hs => simp [Call.acceptedUnder?, hs]
  | cuts hs hid => simp [Call.acceptedUnder?, Progress.fail, hs, hid]

theorem Acts.reflection (h : Acts root next q r) :
    (decide (Directive.ofMarker? next.decl.spelling = some .reflectType)).toNat +
        reflectionDebt q =
      (decide (q.state = .awaitingType ∧ r.state = .inside next)).toNat + reflectionDebt r := by
  cases h with
  | begins hd hs => simp [reflectionDebt, State.awaitsType, hd, hs]; omega
  | marks hd hs => simp [reflectionDebt, State.awaitsType, hd, hs]
  | @refuses d hd hb hm =>
    rw [reflectionDebt_fail]
    have unbound : ¬(q.state = .awaitingType ∧ q.state = .inside next) := by
      rintro ⟨h₁, h₂⟩
      simp [h₁] at h₂
    cases d <;>
      simp [hd, Progress.fail, unbound, Directive.rejection, Fault.kind, Fault.refusesReflection]
    omega
  | passes hd hs => simp [hd, hs]
  | binds hd hs hr => simp [reflectionDebt, State.awaitsType, hd, hs]; omega
  | declines hd hs hr =>
    have hf := Fault.kind_eq_structural_iff next.decl.refusal
    simp only [Decl.refusal_kind, reduceCtorEq, false_iff, not_or, Bool.not_eq_true] at hf
    rw [reflectionDebt_fail, Decl.refusal_kind, hf.1]
    simp [reflectionDebt, State.awaitsType, Progress.fail, hd, hs]
  | @captures record mark kind hd hs hk =>
    cases mark <;> simp [reflectionDebt, State.awaitsType, Progress.capture, hd, hs]
  | misfits hd hs hk =>
    rw [reflectionDebt_fail]
    simp [reflectionDebt, State.awaitsType, hd, hs, Fault.kind, Fault.refusesReflection]
  | skips hd hs hk => simp [hd, hs]

theorem Acts.mark (hl : Leaves next above p q) (h : Acts root next q r) :
    ((Directive.ofMarker? next.decl.spelling).bind Directive.mark?).isSome.toNat + markDebt q =
      (Call.acceptedUnder? ⟨p, next, above⟩).isSome.toNat + markDebt r := by
  rw [hl.acceptedUnder?]
  cases h with
  | begins hd hs => simp [markDebt, State.isMarked, hd, hs, Directive.mark?]
  | marks hd hs => simp [markDebt, State.isMarked, hd, hs, Directive.mark?]; omega
  | @refuses d hd hb hm =>
    rw [markDebt_fail]
    cases d <;> cases hs : q.state <;>
      simp [hd, Directive.mark?, Directive.rejection, Fault.kind, Fault.refusesMark]
    all_goals omega
  | passes hd hs => simp [hd, hs]
  | binds hd hs hr => simp [markDebt, State.isMarked, hd, hs]
  | declines hd hs hr =>
    have hf := Fault.kind_eq_structural_iff next.decl.refusal
    simp only [Decl.refusal_kind, reduceCtorEq, false_iff, not_or, Bool.not_eq_true] at hf
    rw [markDebt_fail, Decl.refusal_kind, hf.2]
    simp [markDebt, State.isMarked, hd, hs]
  | @captures record mark kind hd hs hk =>
    cases mark with
    | none => simp [markDebt, State.isMarked, Progress.capture, hd, hs]
    | some mark => simp [markDebt, State.isMarked, Progress.capture, hd, hs, hk]; omega
  | misfits hd hs hk =>
    rw [markDebt_fail]
    simp [markDebt, State.isMarked, hd, hs, hk, Fault.kind, Fault.refusesMark]
  | skips hd hs hk => simp [hd, hs]

theorem Leaves.kind_ne_frontEnd (h : Leaves next above p q)
    (hp : ∀ e ∈ p.errors, e.fault.kind ≠ .frontEnd) : ∀ e ∈ q.errors, e.fault.kind ≠ .frontEnd := by
  cases h with
  | cuts hs => simpa [Progress.fail, or_imp, forall_and, Fault.kind] using hp
  | _ => exact hp

theorem Acts.kind_ne_frontEnd (h : Acts root next q r)
    (hq : ∀ e ∈ q.errors, e.fault.kind ≠ .frontEnd) : ∀ e ∈ r.errors, e.fault.kind ≠ .frontEnd := by
  cases h with
  | refuses => simpa [Progress.fail, or_imp, forall_and, Directive.rejection_kind] using hq
  | declines => simpa [Progress.fail, or_imp, forall_and, Decl.refusal_kind] using hq
  | misfits => simpa [Progress.fail, or_imp, forall_and, Fault.kind] using hq
  | _ => exact hq

end Steps

theorem reflection_balance (root : Path) (c : Call) :
    (decide (c.directive? = some .reflectType)).toNat + reflectionDebt c.before =
      (c.binds root).toNat + reflectionDebt (c.after root) := by
  obtain ⟨q, hl, ha⟩ := step_spec root c.before c.next c.above
  obtain ⟨hdebt, hstate⟩ := hl.reflection
  have bound : decide (q.state = .awaitingType ∧ (c.after root).state = .inside c.next) =
      c.binds root := decide_eq_decide.mpr (and_congr_left' hstate)
  rw [← hdebt, ← bound]
  exact ha.reflection

theorem mark_balance (root : Path) (c : Call) :
    c.mark?.isSome.toNat + markDebt c.before =
      c.acceptedUnder?.isSome.toNat + markDebt (c.after root) := by
  obtain ⟨q, hl, ha⟩ := step_spec root c.before c.next c.above
  rw [← hl.mark]
  exact ha.mark hl

/-- The end of the file reports what is still pending. -/
theorem finish_debt (file : Path) (p : Progress) :
    (finish file p).errors.countP (·.fault.kind = .accessibility) +
        (finish file p).errors.countP (·.fault.refusesReflection) = reflectionDebt p ∧
      (finish file p).errors.countP (·.fault.kind = .invalidMember) +
          (finish file p).errors.countP (·.fault.kind = .incompleteDeclaration) +
          (finish file p).errors.countP (·.fault.refusesMark) = markDebt p := by
  unfold finish reflectionDebt markDebt
  cases hs : p.state <;>
    simp [Progress.fail, State.awaitsType, State.isMarked, Fault.kind, Fault.refusesReflection,
      Fault.refusesMark]
  all_goals omega

def State.awaits? : State → Option Directive
  | .awaitingType => some .reflectType
  | .awaitingMember _ mark => some (.member mark)
  | _ => none

theorem Call.fulfils.awaits? {root : Path} {c : Call} {d : Directive} (h : c.fulfils root d) :
    c.before.state.awaits? = some d := by
  cases d with
  | reflectType =>
    have hs : c.before.state = .awaitingType := (of_decide_eq_true h).1
    rw [hs]
    rfl
  | member mark =>
    simp only [fulfils, acceptedUnder?] at h
    cases hs : c.before.state <;> simp [hs, State.awaits?] at h ⊢
    exact h.2

theorem Call.fulfils.directive? {root : Path} {c : Call} {d : Directive} (h : c.fulfils root d) :
    c.directive? = none := by
  cases d with
  | reflectType =>
    obtain ⟨hs, ha⟩ := of_decide_eq_true h
    cases hd : c.directive? with
    | none => rfl
    | some d =>
      -- A directive leaves a pending reflect directive pending.
      have hd' : Directive.ofMarker? c.next.decl.spelling = some d := hd
      cases d <;>
        simp [Call.after, step, Progress.leave, hs, hd', Progress.direct, Progress.fail] at ha
  | member mark =>
    simp only [fulfils, acceptedUnder?] at h
    cases hs : c.before.state <;> simp [hs] at h
    exact h.1.2.1

section CleanSteps

variable {root : Path} {next above : Node} {p q r : Progress}

theorem Acts.awaits? (h : Acts root next q r) {d : Directive} (hr : r.state.awaits? = some d) :
    ∃ d, Directive.ofMarker? next.decl.spelling = some d := by
  cases h with
  | begins hd => exact ⟨_, hd⟩
  | marks hd => exact ⟨_, hd⟩
  | refuses hd => exact ⟨_, hd⟩
  | passes hd hs => simp [hs, State.awaits?] at hr
  | skips hd hs => simp [hs, State.awaits?] at hr
  | binds => simp [State.awaits?] at hr
  | declines => simp [Progress.fail, State.awaits?] at hr
  | captures => simp [Progress.capture, State.awaits?] at hr
  | misfits => simp [Progress.fail, State.awaits?] at hr

/-- A pending member directive is not dropped in silence. -/
theorem Leaves.clean (h : Leaves next above p q) (hq : q.errors = []) :
    p.errors = [] ∧ (p.state.awaits? = q.state.awaits?) := by
  cases h with
  | outside => exact ⟨hq, rfl⟩
  | stays => exact ⟨hq, rfl⟩
  | ends hs => exact ⟨hq, by simp [hs, State.awaits?]⟩
  | cuts => simp [Progress.fail] at hq

theorem Acts.clean (h : Acts root next q r) (hr : r.errors = []) :
    q.errors = [] ∧ ∀ d, Directive.ofMarker? next.decl.spelling = some d →
      r.state.awaits? = some d := by
  cases h with
  | begins hd hs => exact ⟨hr, by simp [hd, State.awaits?]⟩
  | marks hd hs => exact ⟨hr, by simp [hd, State.awaits?]⟩
  | refuses => simp [Progress.fail] at hr
  | declines => simp [Progress.fail] at hr
  | misfits => simp [Progress.fail] at hr
  | passes hd => exact ⟨hr, by simp [hd]⟩
  | binds hd => exact ⟨hr, by simp [hd]⟩
  | captures hd => exact ⟨hr, by simp [hd]⟩
  | skips hd => exact ⟨hr, by simp [hd]⟩

/-- Without a fault, what is pending is fulfilled. -/
theorem Acts.fulfils (hl : Leaves next above p q) (h : Acts root next q r) (hr : r.errors = [])
    {d : Directive} (hd : p.state.awaits? = some d) :
    d = .reflectType ∧ p.state = .awaitingType ∧ r.state = .inside next ∨
      ∃ mark, d = .member mark ∧ Call.acceptedUnder? ⟨p, next, above⟩ = some mark := by
  have hw := (hl.clean (h.clean hr).1).2
  rw [hd] at hw
  cases h with
  | begins _ hs => simp [hs, State.awaits?] at hw
  | marks _ hs => simp [hs, State.awaits?] at hw
  | passes _ hs => simp [hs, State.awaits?] at hw
  | skips _ hs => simp [hs, State.awaits?] at hw
  | refuses => simp [Progress.fail] at hr
  | declines => simp [Progress.fail] at hr
  | misfits => simp [Progress.fail] at hr
  | binds hm hs =>
    simp only [hs, State.awaits?, Option.some.injEq] at hw
    exact .inl ⟨hw, hl.reflection.2.mp hs, rfl⟩
  | @captures record mark kind hm hs hk =>
    cases mark with
    | none => simp [hs, State.awaits?] at hw
    | some mark =>
      simp only [hs, State.within_some, State.awaits?, Option.some.injEq] at hw
      refine .inr ⟨mark, hw, ?_⟩
      simp [hl.acceptedUnder?, hs, hm, hk]

end CleanSteps

/-- A call adds no fault exactly if it fulfils what is pending and, being a directive, is pending
after it. -/
theorem clean_call_iff (root : Path) (c : Call) :
    (c.after root).errors = [] ↔
      c.before.errors = [] ∧ (∀ d, c.before.state.awaits? = some d → c.fulfils root d) ∧
        ∀ d, c.directive? = some d → (c.after root).state.awaits? = some d := by
  obtain ⟨q, hl, ha⟩ := step_spec root c.before c.next c.above
  constructor
  · intro hc
    have hq := ha.clean hc
    refine ⟨(hl.clean hq.1).1, ?_, hq.2⟩
    intro d hd
    rcases ha.fulfils hl hc hd with ⟨rfl, hb⟩ | ⟨mark, rfl, hm⟩
    · exact decide_eq_true hb
    · exact hm
  · rintro ⟨hp, hfulfils, hdirective⟩
    change Acts root c.next q (c.after root) at ha
    -- Each fault is about a directive that was pending before, or would be pending after.
    have hq : q.errors = [] := by
      cases hl with
      | outside => exact hp
      | stays => exact hp
      | ends => exact hp
      | cuts hs hid =>
        have hf := hfulfils _ (by rw [hs]; rfl)
        simp [Call.fulfils, Call.acceptedUnder?, hs, hid] at hf
    have pending := (hl.clean hq).2
    generalize hr : c.after root = r at ha hdirective
    cases ha with
    | begins => exact hq
    | marks => exact hq
    | passes => exact hq
    | skips => exact hq
    | binds => exact hq
    | captures => exact hq
    | @refuses d hd hb hm =>
      have hf := hfulfils d (pending.trans (hdirective d hd))
      exact absurd hf.directive? (by simp [Call.directive?, hd])
    | declines hd hs =>
      have hf := hfulfils .reflectType (by rw [pending, hs]; rfl)
      simp [Call.fulfils, Call.binds, hr, Progress.fail] at hf
    | @misfits record mark hd hs hk =>
      have hf := hfulfils (.member mark) (by rw [pending, hs]; rfl)
      have hnone := hl.acceptedUnder?
      simp only [hs, hk, Option.isSome_none, Bool.false_eq_true, and_false, if_false] at hnone
      exact absurd (hf.symm.trans hnone) (by simp)

theorem errors_of_clean_run {root : Path} {p : Progress} {visits : List (Node × Node)}
    (h : (runCalls root p visits).errors = []) : p.errors = [] := by
  induction visits generalizing p with
  | nil => exact h
  | cons v rest ih => exact ((clean_call_iff root ⟨p, v.1, v.2⟩).mp (ih h)).1

theorem finish_clean_iff (file : Path) (p : Progress) :
    (finish file p).errors = [] ↔ p.errors = [] ∧ p.state.awaits? = none := by
  unfold finish
  cases hs : p.state <;> simp [Progress.fail, State.awaits?]

/-- A run without faults is one in which every directive takes effect, the one that is pending at
its start included. -/
theorem clean_run_iff (root file : Path) (p : Progress) (visits : List (Node × Node))
    (hp : p.errors = []) :
    (finish file (runCalls root p visits)).errors = [] ↔
      (∀ d, p.state.awaits? = some d → ∃ c ∈ (calls root p visits).head?, c.fulfils root d) ∧
        AllTakeEffect root (calls root p visits) := by
  induction visits generalizing p with
  | nil =>
    simp only [runCalls, List.foldl_nil, finish_clean_iff, hp, calls, AllTakeEffect]
    simp [Option.eq_none_iff_forall_ne_some]
  | cons v rest ih =>
    let c : Call := ⟨p, v.1, v.2⟩
    have hrun : runCalls root p (v :: rest) = runCalls root (c.after root) rest := rfl
    have hcalls : calls root p (v :: rest) = c :: calls root (c.after root) rest := rfl
    -- The next call starts where this one ends.
    have starts : ∀ c' ∈ (calls root (c.after root) rest).head?, c'.before = c.after root := by
      cases rest <;> simp [calls]
    rw [hrun, hcalls]
    simp only [List.head?_cons, Option.mem_some_iff, exists_eq_left', AllTakeEffect]
    constructor
    · intro h
      have hafter := errors_of_clean_run ((finish_clean_iff file _).mp h).1
      obtain ⟨-, hfulfils, hdirective⟩ := (clean_call_iff root c).mp hafter
      obtain ⟨hnext, hrest⟩ := (ih _ hafter).mp h
      exact ⟨hfulfils, fun d hd => hnext d (hdirective d (Call.isSpelled_iff.mp hd)), hrest⟩
    · rintro ⟨hfulfils, htakes, hrest⟩
      have hdirective : ∀ d, c.directive? = some d → (c.after root).state.awaits? = some d := by
        intro d hd
        obtain ⟨c', hc', hf⟩ := htakes d (Call.isSpelled_iff.mpr hd)
        rw [← starts c' hc']
        exact hf.awaits?
      have hafter := (clean_call_iff root c).mpr ⟨hp, hfulfils, hdirective⟩
      refine (ih _ hafter).mpr ⟨?_, hrest⟩
      intro d hd
      obtain ⟨q, -, ha⟩ := step_spec root p v.1 v.2
      obtain ⟨d', hd'⟩ := ha.awaits? hd
      have same : d' = d := Option.some.inj ((hdirective d' hd').symm.trans hd)
      exact htakes d (Call.isSpelled_iff.mpr (same ▸ hd'))

theorem log_balance (root : Path) (t : DeclTree) (paid used : Call → Bool)
    (debt : Progress → Nat)
    (h : ∀ c : Call, (paid c).toNat + debt c.before = (used c).toNat + debt (c.after root)) :
    (log root t).countP paid + debt {} = (log root t).countP used + debt (walk root t) := by
  rw [walk_eq_runCalls]
  exact runCalls_balance root paid used debt h {} _

theorem scan_errors (root : Path) (t : DeclTree) :
    (scan root t).errors = (finish t.file (walk root t)).errors := rfl

theorem scan_kind_ne_frontEnd (root : Path) (t : DeclTree) :
    ∀ e ∈ (scan root t).errors, e.fault.kind ≠ .frontEnd := by
  have walked : ∀ e ∈ (walk root t).errors, e.fault.kind ≠ .frontEnd := by
    apply walk_invariant (fun p => ∀ e ∈ p.errors, e.fault.kind ≠ .frontEnd)
    · simp
    · intro p next above _ hp
      obtain ⟨q, hl, ha⟩ := step_spec root p next above
      exact ha.kind_ne_frontEnd (hl.kind_ne_frontEnd hp)
  rw [scan_errors]
  unfold finish
  split
  · simpa [Progress.fail, or_imp, forall_and, Fault.kind] using walked
  · simpa [Progress.fail, or_imp, forall_and, Fault.kind] using walked
  · exact walked

theorem reflections_accounted (root : Path) (t : DeclTree) :
    (log root t).countP (·.isSpelled .reflectType) =
      (log root t).countP (·.binds root) +
        (scan root t).errors.countP (·.fault.kind = .accessibility) +
        (scan root t).errors.countP (·.fault.refusesReflection) := by
  have spelled : (fun c : Call => c.isSpelled .reflectType) =
      fun c => decide (c.directive? = some .reflectType) := by
    funext c
    rw [Bool.eq_iff_iff, Call.isSpelled_iff, decide_eq_true_eq]
  have run := log_balance root t (·.directive? = some .reflectType) (·.binds root)
    reflectionDebt (reflection_balance root)
  rw [← spelled] at run
  have start : reflectionDebt {} = 0 := rfl
  have atEnd := (finish_debt t.file (walk root t)).1
  rw [← scan_errors] at atEnd
  omega

theorem marks_accounted (root : Path) (t : DeclTree) :
    (log root t).countP (·.isMemberMarker) =
      (log root t).countP (·.acceptedUnder?.isSome) +
        (scan root t).errors.countP (·.fault.kind = .invalidMember) +
        (scan root t).errors.countP (·.fault.kind = .incompleteDeclaration) +
        (scan root t).errors.countP (·.fault.refusesMark) := by
  have run := log_balance root t (·.mark?.isSome) (·.acceptedUnder?.isSome)
    markDebt (mark_balance root)
  simp only [← Call.isMemberMarker_eq] at run
  have start : markDebt {} = 0 := rfl
  have atEnd := (finish_debt t.file (walk root t)).2
  rw [← scan_errors] at atEnd
  omega

/-- Each fault of a scan is counted by one of the two accounts. -/
theorem scan_errors_eq_nil_iff (root : Path) (t : DeclTree) :
    (scan root t).errors = [] ↔
      (log root t).countP (·.isSpelled .reflectType) =
          (log root t).countP (·.binds root) ∧
        (log root t).countP (·.isMemberMarker) = (log root t).countP (·.acceptedUnder?.isSome) := by
  have hr := reflections_accounted root t
  have hm := marks_accounted root t
  constructor
  · intro h
    rw [h] at hr hm
    exact ⟨hr, hm⟩
  · rintro ⟨hr', hm'⟩
    have ha : (scan root t).errors.countP (·.fault.kind = .accessibility) = 0 := by omega
    have hb : (scan root t).errors.countP (·.fault.refusesReflection) = 0 := by omega
    have hc : (scan root t).errors.countP (·.fault.kind = .invalidMember) = 0 := by omega
    have hd : (scan root t).errors.countP (·.fault.kind = .incompleteDeclaration) = 0 := by omega
    have he : (scan root t).errors.countP (·.fault.refusesMark) = 0 := by omega
    rw [List.countP_eq_zero] at ha hb hc hd he
    apply List.eq_nil_iff_forall_not_mem.mpr
    intro e hmem
    cases hk : e.fault.kind with
    | accessibility => exact ha e hmem (decide_eq_true hk)
    | invalidMember => exact hc e hmem (decide_eq_true hk)
    | incompleteDeclaration => exact hd e hmem (decide_eq_true hk)
    | frontEnd => exact scan_kind_ne_frontEnd root t e hmem hk
    | structuralDirective =>
      rcases (Fault.kind_eq_structural_iff e.fault).mp hk with h | h
      · exact hb e hmem h
      · exact he e hmem h

theorem scan_clean_iff (root : Path) (t : DeclTree) :
    (scan root t).errors = [] ↔ AllTakeEffect root (log root t) := by
  rw [scan_errors, walk_eq_runCalls, clean_run_iff root t.file {} _ rfl]
  simp [State.awaits?, log]

/-- Every directive that a scan meets is accounted for once. Hence a scan without faults is one in
which every directive takes effect, and no fault is about the reading of a file. -/
theorem directives_accounted (root : Path) (t : DeclTree) :
    ((log root t).countP (·.isSpelled .reflectType) =
        (log root t).countP (·.binds root) +
          (scan root t).errors.countP (·.fault.kind = .accessibility) +
          (scan root t).errors.countP (·.fault.refusesReflection)) ∧
      ((log root t).countP (·.isMemberMarker) =
        (log root t).countP (·.acceptedUnder?.isSome) +
          (scan root t).errors.countP (·.fault.kind = .invalidMember) +
          (scan root t).errors.countP (·.fault.kind = .incompleteDeclaration) +
          (scan root t).errors.countP (·.fault.refusesMark)) ∧
      ((scan root t).errors = [] ↔
        (log root t).countP (·.isSpelled .reflectType) =
            (log root t).countP (·.binds root) ∧
          (log root t).countP (·.isMemberMarker) =
            (log root t).countP (·.acceptedUnder?.isSome)) ∧
      ((scan root t).errors = [] ↔ AllTakeEffect root (log root t)) ∧
      ∀ e ∈ (scan root t).errors, e.fault.kind ≠ .frontEnd :=
  ⟨reflections_accounted root t, marks_accounted root t, scan_errors_eq_nil_iff root t,
    scan_clean_iff root t, scan_kind_ne_frontEnd root t⟩

end Scan

end ReflectGen
