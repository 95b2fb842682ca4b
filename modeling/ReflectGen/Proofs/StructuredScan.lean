import ReflectGen.Proofs.ScanStep
import ReflectGen.Proofs.Traversal

namespace ReflectGen

namespace StructuredScan

structure Findings where
  metadata : Metadata := {}
  faults : List Fault := []
  deriving DecidableEq

namespace Findings

def report (w : Findings) (faults : List Fault) : Findings :=
  { w with faults := w.faults ++ faults }

def capture (w : Findings) (root : Path) (record d : Decl) (kind : FieldKind) : Findings :=
  let field : Field := ⟨d.spelling, kind, some (relativeInclude root.bytes d.location.file.bytes)⟩
  { w with
    metadata := (w.metadata.addField record.type.canonical field).1.recordType d.type.spelling }

end Findings

/-- The mark that a run of directives leaves on the member after it: that of its first member
directive. -/
def runMark (run : List Directive) : Option Mark := run.findSome? Directive.mark?

/-- All other directives of a run are refused. -/
def runFaults (run : List Directive) : List Fault :=
  (run.eraseP fun d => d.mark?.isSome).map Directive.rejection

/-- What stands directly inside a record: each declaration that is no directive with the run of
directives just before it, and the run after the last one. -/
structure Body where
  members : List (List Directive × Decl) := []
  trailing : List Directive := []
  deriving DecidableEq

namespace Body

def precede (run : List Directive) : Body → Body
  | ⟨[], trailing⟩ => ⟨[], run ++ trailing⟩
  | ⟨(first, d) :: ms, trailing⟩ => ⟨(run ++ first, d) :: ms, trailing⟩

def ofDecls : List Decl → Body
  | [] => {}
  | d :: ds =>
    match Directive.ofMarker? d.spelling with
    | some directive => (ofDecls ds).precede [directive]
    | none => { ofDecls ds with members := ([], d) :: (ofDecls ds).members }

end Body

/-- How a member under a mark is registered, and the kind of declaration it has to be. -/
def expected : Option Mark → FieldKind × DeclKind
  | none => (.plain, .field)
  | some .aliasRef => (.aliasRef, .field)
  | some .method => (.method, .method)

/-- A declaration inside a record, after a run of directives. Nothing below it is looked at. -/
def member (root : Path) (record : Decl) (w : Findings) (m : List Directive × Decl) : Findings :=
  let w := w.report (runFaults m.1)
  let mark := runMark m.1
  if m.2.access = .publicMember ∧ m.2.kind = (expected mark).2 then
    w.capture root record m.2 (expected mark).1
  else w.report (mark.toList.map fun mark => .unfitMember mark m.2.spelling)

/-- A reflected record as one unit. A member directive that no member follows is one fault. -/
def body (root : Path) (record : Decl) (b : Body) (w : Findings) : Findings :=
  (b.members.foldl (member root record) w).report <|
    runFaults b.trailing ++
      (runMark b.trailing).toList.map fun _ => .unfinishedType record.spelling

/-- The declaration after a reflect directive, with what stands directly inside it. -/
def bindRecord (root : Path) (d : Decl) (inside : List Decl) (w : Findings) : Findings :=
  if d.Reflectable then body root d (Body.ofDecls inside) w else w.report [d.refusal]

/-- Declarations outside reflected types, from left to right. The flag tells whether a reflect
directive is pending. -/
def siblings (root : Path) : Forest Decl → Bool × Findings → Bool × Findings
  | .nil, s => s
  | .cons d kids rest, (pending, w) =>
    match Directive.ofMarker? d.spelling, pending with
    | some .reflectType, false => siblings root rest (true, w)
    | some directive, pending => siblings root rest (pending, w.report [directive.rejection])
    | none, false => siblings root rest (siblings root kids (false, w))
    | none, true => siblings root rest (false, bindRecord root d kids.roots w)

/-- A whole file. A reflect directive that nothing follows is one fault. -/
def scanDecls (root : Path) (decls : Forest Decl) : Findings :=
  match siblings root decls (false, {}) with
  | (false, w) => w
  | (true, w) => w.report [.danglingReflection]

theorem runMark_append (run : List Directive) (d : Directive) :
    runMark (run ++ [d]) = (runMark run).or d.mark? := by
  rw [runMark, List.findSome?_append]
  cases h : d.mark? <;> simp [runMark, h]

/-- A directive at the end of a run is refused unless it is the first member directive of it. -/
theorem runFaults_append (run : List Directive) (d : Directive) :
    runFaults (run ++ [d]) =
      if runMark run = none ∧ d.mark?.isSome then runFaults run
      else runFaults run ++ [d.rejection] := by
  cases hr : runMark run with
  | none =>
    have unmarked : ∀ x ∈ run, ¬x.mark?.isSome := by
      intro x hx
      rw [List.findSome?_eq_none_iff.mp hr x hx]
      decide
    have before : runFaults run = run.map Directive.rejection := by
      rw [runFaults, List.eraseP_of_forall_not unmarked]
    rw [before, runFaults, List.eraseP_append_right _ unmarked]
    cases hd : d.mark? <;> simp [hd]
  | some mark =>
    obtain ⟨x, hx, hs⟩ := List.exists_of_findSome?_eq_some hr
    have marked : x.mark?.isSome := by rw [hs]; rfl
    rw [runFaults, List.eraseP_append_left (p := fun d => d.mark?.isSome) marked _ hx,
      List.map_append]
    simp [runFaults]

theorem Body.precede_precede (r₁ r₂ : List Directive) (b : Body) :
    (b.precede r₂).precede r₁ = b.precede (r₁ ++ r₂) := by
  rcases b with ⟨_ | ⟨⟨first, d⟩, ms⟩, trailing⟩ <;> simp [precede]

theorem Body.precede_nil (b : Body) : b.precede [] = b := by
  rcases b with ⟨_ | ⟨⟨first, d⟩, ms⟩, trailing⟩ <;> simp [precede]

open Scan DeclTree

/-- The state of a scan inside a record, after a run of directives. -/
def runState (record : Node) (run : List Directive) : State := .within record (runMark run)

/-- The fault that an open record will have when it ends without a further member. -/
def unfinished : State → List Fault
  | .awaitingMember record _ => [.unfinishedType record.decl.spelling]
  | _ => []

/-- What a scan has found, its open record taken as ended. -/
def findings (p : Progress) : Findings :=
  ⟨p.metadata, p.errors.map (·.fault) ++ unfinished p.state⟩

/-- A scan as it is seen from outside its open record. -/
def view (p : Progress) : Bool × Findings := (decide (p.state = .awaitingType), findings p)

theorem unfinished_runState (record : Node) (run : List Directive) :
    unfinished (runState record run) =
      (runMark run).toList.map fun _ => .unfinishedType record.decl.spelling := by
  unfold runState
  cases runMark run <;> rfl

theorem leave_runState {p : Progress} {record : Node} {run : List Directive} (next : Node)
    (h : p.state = runState record run) : p.leave next record = p := by
  unfold Progress.leave
  cases hr : runMark run <;> simp [h, runState, hr]

/-- A directive inside a record extends the run before the next member. -/
theorem step_directive_inside (root : Path) {p : Progress} {record next : Node}
    {run : List Directive} {d : Directive} (h : p.state = runState record run)
    (hd : Directive.ofMarker? next.decl.spelling = some d) :
    ∃ q, step root p next record = (q, .skip) ∧ q.state = runState record (run ++ [d]) ∧
      q.metadata = p.metadata ∧
      ∀ w, p.errors.map (·.fault) = w ++ runFaults run →
        q.errors.map (·.fault) = w ++ runFaults (run ++ [d]) := by
  refine ⟨p.direct d next.decl.location, ?_, ?_, ?_, ?_⟩
  · simp only [step, leave_runState next h, hd]
  all_goals
    cases hr : runMark run <;> cases d <;>
      simp_all [Progress.direct, Progress.fail, runState, runMark_append, runFaults_append,
        Directive.mark?, Directive.rejection]

theorem fieldKind?_eq (mark : Option Mark) (d : Decl) :
    fieldKind? mark d =
      if d.access = .publicMember ∧ d.kind = (expected mark).2 then some (expected mark).1
      else none := by
  unfold fieldKind?
  by_cases ha : d.access = .publicMember
  · rcases mark with _ | _ | _ <;> cases hk : d.kind <;> simp [ha, expected]
  · simp [ha]

/-- Any other declaration inside a record is read under the mark of the run before it. -/
theorem step_member_inside (root : Path) {p : Progress} {record next : Node}
    {run : List Directive} (h : p.state = runState record run)
    (hd : Directive.ofMarker? next.decl.spelling = none) :
    ∃ q, step root p next record = (q, .skip) ∧ q.state = runState record [] ∧
      ∀ w : Findings, p.metadata = w.metadata → p.errors.map (·.fault) = w.faults ++ runFaults run →
        (⟨q.metadata, q.errors.map (·.fault)⟩ : Findings) =
          member root record.decl w (run, next.decl) := by
  refine ⟨visitMember root p record (runMark run) next.decl, ?_, ?_, ?_⟩
  · cases hr : runMark run <;> simp [step, leave_runState next h, hd, h, runState, hr]
  · unfold visitMember
    split <;> rfl
  · intro w hm hf
    by_cases fits : next.decl.access = .publicMember ∧ next.decl.kind = (expected (runMark run)).2
    · simp [visitMember, member, fieldKind?_eq, fits, Progress.capture, Findings.capture,
        Findings.report, hm, hf]
    · cases hr : runMark run <;> rw [hr] at fits <;>
        simp [visitMember, member, fieldKind?_eq, fits, hr, Progress.fail, Findings.report, hm, hf]

theorem visit_body (root : Path) (record : Node) (kids : Forest Node) (run : List Directive)
    (p : Progress) (w : Findings) (hs : p.state = runState record run)
    (hm : p.metadata = w.metadata) (hf : p.errors.map (·.fault) = w.faults ++ runFaults run) :
    ∃ q, kids.visit (step root) record p = (q, true) ∧
      findings q =
        body root record.decl ((Body.ofDecls (kids.map Node.decl).roots).precede run) w ∧
      ∃ run, q.state = runState record run := by
  induction kids generalizing p run w with
  | nil =>
    refine ⟨p, rfl, ?_, run, hs⟩
    simp [Forest.map, Forest.roots, findings, hs, hm, hf, unfinished_runState,
      Body.ofDecls, Body.precede, body, Findings.report]
  | cons n kids rest _ ih =>
    simp only [Forest.visit, Forest.map, Forest.roots, Body.ofDecls]
    cases hd : Directive.ofMarker? n.decl.spelling with
    | some d =>
      obtain ⟨q, hq, hqs, hqm, hqf⟩ := step_directive_inside root hs hd
      rw [hq]
      have h := ih (run ++ [d]) q w hqs (hqm.trans hm) (hqf w.faults hf)
      simpa only [Body.precede_precede] using h
    | none =>
      obtain ⟨q, hq, hqs, hqw⟩ := step_member_inside root hs hd
      rw [hq]
      have h := ih [] q _ hqs (congrArg Findings.metadata (hqw w hm hf))
        (by simpa [runFaults] using congrArg Findings.faults (hqw w hm hf))
      rw [Body.precede_nil] at h
      simpa [Body.precede, body] using h

/-- The open record, if there is one, stands strictly below `above`: no declaration directly under
`above` is taken for one of its members. -/
def Outside (above : Nat) : State → Prop
  | .inside record | .awaitingMember record _ => above < record.id
  | _ => True

theorem outside_runState {above : Nat} {record : Node} (run : List Directive)
    (h : above < record.id) : Outside above (runState record run) := by
  unfold runState
  cases runMark run <;> exact h

theorem Outside.of_lt {above lower : Nat} {s : State} (h : Outside lower s) (hl : above < lower) :
    Outside above s := by
  cases s with
  | inside record => exact Nat.lt_trans hl h
  | awaitingMember record mark => exact Nat.lt_trans hl h
  | _ => trivial

/-- Leaving a record neither adds to the findings nor takes from them: the fault of a pending member
directive is reported now instead of at the end. -/
theorem leave_outside {p : Progress} {above : Node} (next : Node) (h : Outside above.id p.state) :
    ∃ q, p.leave next above = q ∧ findings q = findings p ∧
      (q.state = .scanning ∧ p.state ≠ .awaitingType ∨
        q.state = .awaitingType ∧ p.state = .awaitingType) := by
  refine ⟨p.leave next above, rfl, ?_⟩
  cases hs : p.state with
  | scanning => simp [Progress.leave, hs]
  | awaitingType => simp [Progress.leave, hs]
  | inside record =>
    have hne : record.id ≠ above.id := by rw [hs] at h; exact Nat.ne_of_gt h
    simp [Progress.leave, hs, hne, findings, unfinished]
  | awaitingMember record mark =>
    have hne : record.id ≠ above.id := by rw [hs] at h; exact Nat.ne_of_gt h
    simp [Progress.leave, Progress.fail, hs, hne, findings, unfinished]

theorem findings_fail {p : Progress} (fault : Fault) (l : Location)
    (h : unfinished p.state = []) :
    findings (p.fail fault l) = (findings p).report [fault] := by
  simp [findings, Progress.fail, Findings.report, h]

theorem step_directive_outside (root : Path) {p : Progress} {next above : Node} {d : Directive}
    (h : Outside above.id p.state) (hd : Directive.ofMarker? next.decl.spelling = some d) :
    ∃ q, step root p next above = (q, .skip) ∧ Outside above.id q.state ∧
      view q =
        if d = .reflectType ∧ p.state ≠ .awaitingType then (true, findings p)
        else (decide (p.state = .awaitingType), (findings p).report [d.rejection]) := by
  obtain ⟨q, hq, hw, hst⟩ := leave_outside next h
  refine ⟨q.direct d next.decl.location, by simp only [step, hq, hd], ?_⟩
  have quiet : unfinished q.state = [] := by
    rcases hst with ⟨hqs, -⟩ | ⟨hqs, -⟩ <;> rw [hqs] <;> rfl
  -- A refused directive leaves the state as it is.
  have refused : ∀ l, Outside above.id (q.fail d.rejection l).state ∧
      view (q.fail d.rejection l) =
        (decide (q.state = .awaitingType), (findings p).report [d.rejection]) := by
    intro l
    refine ⟨?_, by rw [view, findings_fail _ _ quiet, hw]; rfl⟩
    rcases hst with ⟨hqs, -⟩ | ⟨hqs, -⟩ <;> simp [Progress.fail, hqs, Outside]
  rcases hst with ⟨hqs, hps⟩ | ⟨hqs, hps⟩
  · cases d with
    | reflectType =>
      simp [Progress.direct, hqs, hps, Outside, view, ← hw]
      simp [findings, unfinished, hqs]
    | member mark => simpa [Progress.direct, hqs, hps] using! refused next.decl.location
  · cases d with
    | reflectType => simpa [Progress.direct, hqs, hps] using! refused next.decl.location
    | member mark => simpa [Progress.direct, hqs, hps] using! refused next.decl.location

/-- The walk into a record that a pending reflect directive applies to. -/
theorem visit_bound (root : Path) {p : Progress} {next : Node} (above : Node) (kids : Forest Node)
    (hs : p.state = .awaitingType) (ha : above.id < next.id) :
    ∃ q, kids.visit (step root) next { p with state := .inside next } = (q, true) ∧
      Outside above.id q.state ∧
      view q =
        (false, body root next.decl (Body.ofDecls (kids.map Node.decl).roots) (findings p)) := by
  have hf : p.errors.map (·.fault) = (findings p).faults ++ runFaults [] := by
    simp [findings, hs, unfinished, runFaults]
  obtain ⟨q, hq, hw, run, hrun⟩ :=
    visit_body root next kids [] { p with state := .inside next } (findings p) rfl rfl hf
  refine ⟨q, hq, ?_, ?_⟩
  · rw [hrun]
    exact outside_runState run ha
  · rw [Body.precede_nil] at hw
    have hne : q.state ≠ .awaitingType := by
      rw [hrun, runState]
      cases runMark run <;> simp
    simp [view, hw, hne]

/-- The walk of a scan over siblings, and over all that stands below them, from outside records. -/
theorem visit_siblings (root : Path) (decls : Forest Node) (above : Node) (p : Progress)
    (ha : Ascends above.id decls) (h : Outside above.id p.state) :
    ∃ q, decls.visit (step root) above p = (q, true) ∧ Outside above.id q.state ∧
      view q = siblings root (decls.map Node.decl) (view p) := by
  induction decls generalizing above p with
  | nil => exact ⟨p, rfl, h, rfl⟩
  | cons n kids rest ihk ihr =>
    obtain ⟨hn, hkids, hrest⟩ := ha
    simp only [Forest.visit, Forest.map]
    cases hd : Directive.ofMarker? n.decl.spelling with
    | some d =>
      obtain ⟨q, hq, hout, hv⟩ := step_directive_outside root h hd
      obtain ⟨r, hr, hrout, hrv⟩ := ihr above q hrest hout
      refine ⟨r, by rw [hq]; exact hr, hrout, ?_⟩
      rw [hrv, hv]
      cases d <;> by_cases hp : p.state = .awaitingType <;> simp [siblings, view, hd, hp]
    | none =>
      obtain ⟨q, hq, hw, hst⟩ := leave_outside n h
      rcases hst with ⟨hqs, hps⟩ | ⟨hqs, hps⟩
      · -- Nothing is pending: the walk goes down, and comes back from outside records.
        obtain ⟨r, hr, hrout, hrv⟩ := ihk n q hkids (by rw [hqs]; trivial)
        obtain ⟨u, hu, huout, huv⟩ := ihr above r hrest (hrout.of_lt hn)
        refine ⟨u, by simp only [step, hq, hd, hqs, hr, hu], huout, ?_⟩
        rw [huv, hrv]
        simp [siblings, view, hd, hqs, hps, hw]
      · by_cases hb : n.decl.Reflectable
        · obtain ⟨r, hr, hrout, hrv⟩ := visit_bound root above kids hqs hn
          obtain ⟨u, hu, huout, huv⟩ := ihr above r hrest hrout
          refine ⟨u, by simp only [step, hq, hd, hqs, bind_of_reflectable q hb, hr, hu], huout, ?_⟩
          rw [huv, hrv]
          simp [siblings, view, hd, hps, hw, bindRecord, hb]
        · obtain ⟨u, hu, huout, huv⟩ :=
            ihr above ({ q with state := .scanning }.fail n.decl.refusal n.decl.location) hrest
              (by simp [Progress.fail, Outside])
          refine ⟨u, by simp only [step, hq, hd, hqs, bind_of_not_reflectable q hb, hu], huout, ?_⟩
          have quiet : findings { q with state := .scanning } = findings q := by
            simp [findings, hqs, unfinished]
          rw [huv, view, findings_fail _ _ rfl, quiet]
          simp [Progress.fail, siblings, view, hd, hps, hw, bindRecord, hb]

/-- The end of the file ends the open record and shows a directive that is still pending. -/
theorem finish_eq (file : Path) (p : Progress) :
    (⟨(finish file p).metadata, (finish file p).errors.map (·.fault)⟩ : Findings) =
      if p.state = .awaitingType then (findings p).report [.danglingReflection]
      else findings p := by
  unfold finish
  cases hs : p.state <;> simp [findings, hs, unfinished, Progress.fail, Findings.report]

/-- A scan finds what the structured scan finds, fault by fault. -/
theorem scan_eq_scanDecls (root : Path) (t : DeclTree) :
    (⟨(scan root t).metadata, (scan root t).errors.map (·.fault)⟩ : Findings) =
      scanDecls root ((t.forest 0).map Node.decl) := by
  obtain ⟨q, hq, -, hv⟩ :=
    visit_siblings root (t.forest 0) t.unit {} (ascends_forest t) (by simp [Outside])
  have start : view {} = (false, {}) := rfl
  have walked : walk root t = q := by rw [walk, hq]
  rw [start] at hv
  simp only [scan, walked, finish_eq, scanDecls, ← hv, view]
  by_cases hs : q.state = .awaitingType <;> simp [hs]

/-- A scan refines the structured one: the same metadata, and the same kinds of faults in the same
order. -/
theorem scan_refines_structured (root : Path) (t : DeclTree) :
    (scan root t).metadata = (scanDecls root ((t.forest 0).map Node.decl)).metadata ∧
      (scan root t).errors.map (·.fault.kind) =
        (scanDecls root ((t.forest 0).map Node.decl)).faults.map Fault.kind := by
  rw [← scan_eq_scanDecls]
  exact ⟨rfl, by rw [List.map_map]; rfl⟩

end StructuredScan

end ReflectGen
