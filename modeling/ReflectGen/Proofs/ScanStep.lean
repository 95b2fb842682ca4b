import ReflectGen.Proofs.FieldStore
import ReflectGen.Proofs.Traversal
import ReflectGen.Scan

namespace ReflectGen

/-- Whether a reflect directive may apply to a declaration. -/
def Decl.Reflectable (d : Decl) : Prop :=
  d.kind.isRecord ∧ (d.access = .publicMember ∨ d.access = .nonMember)

instance (d : Decl) : Decidable d.Reflectable := by unfold Decl.Reflectable; infer_instance

/-- Why a reflect directive does not apply to a declaration. -/
def Decl.refusal (d : Decl) : Fault :=
  if d.kind.isRecord then .inaccessibleType d.spelling else .unreflectable d.spelling

theorem Decl.refusal_kind (d : Decl) : d.refusal.kind = .accessibility := by
  unfold Decl.refusal
  split <;> rfl

namespace Directive

def mark? : Directive → Option Mark
  | reflectType => none
  | member mark => some mark

/-- The fault of a directive that stands where it has no use. -/
def rejection : Directive → Fault
  | reflectType => .nestedReflection
  | member mark => .misplacedDirective mark

theorem rejection_kind (d : Directive) : d.rejection.kind = .structuralDirective := by
  cases d <;> rfl

end Directive

namespace Scan

open DeclTree (Node)

/-- The state inside a record, under the mark of a pending member directive. -/
def State.within (record : Node) (mark : Option Mark) : State :=
  mark.elim (.inside record) (.awaitingMember record)

@[simp] theorem State.within_none (record : Node) : State.within record none = .inside record := rfl

@[simp] theorem State.within_some (record : Node) (mark : Mark) :
    State.within record (some mark) = .awaitingMember record mark := rfl

/-- What happens to the open record when a scan turns to `next`, which stands under `above`. -/
inductive Leaves (next above : Node) (p : Progress) : Progress → Prop
  | outside (h : p.state = .scanning ∨ p.state = .awaitingType) : Leaves next above p p
  | stays (record : Node) (mark : Option Mark) (hs : p.state = .within record mark)
      (h : record.id = above.id) : Leaves next above p p
  | ends {record} (hs : p.state = .inside record) (h : record.id ≠ above.id) :
      Leaves next above p { p with state := .scanning }
  | cuts {record mark} (hs : p.state = .awaitingMember record mark) (h : record.id ≠ above.id) :
      Leaves next above p
        ({ p with state := .scanning }.fail (.unfinishedType record.decl.spelling)
          next.decl.location)

/-- What a scan does with `next`, once it has left a record that `next` does not stand in. -/
inductive Acts (root : Path) (next : Node) (p : Progress) : Progress → Prop
  | begins (hd : Directive.ofMarker? next.decl.spelling = some .reflectType)
      (hs : p.state = .scanning) : Acts root next p { p with state := .awaitingType }
  | marks {mark record} (hd : Directive.ofMarker? next.decl.spelling = some (.member mark))
      (hs : p.state = .inside record) :
      Acts root next p { p with state := .awaitingMember record mark }
  | refuses {d} (hd : Directive.ofMarker? next.decl.spelling = some d)
      (hb : d = .reflectType → p.state ≠ .scanning)
      (hm : ∀ mark record, d = .member mark → p.state ≠ .inside record) :
      Acts root next p (p.fail d.rejection next.decl.location)
  | passes (hd : Directive.ofMarker? next.decl.spelling = none) (hs : p.state = .scanning) :
      Acts root next p p
  | binds (hd : Directive.ofMarker? next.decl.spelling = none) (hs : p.state = .awaitingType)
      (hr : next.decl.Reflectable) : Acts root next p { p with state := .inside next }
  | declines (hd : Directive.ofMarker? next.decl.spelling = none) (hs : p.state = .awaitingType)
      (hr : ¬next.decl.Reflectable) :
      Acts root next p
        ({ p with state := .scanning }.fail next.decl.refusal next.decl.location)
  | captures {record mark kind} (hd : Directive.ofMarker? next.decl.spelling = none)
      (hs : p.state = .within record mark) (hk : fieldKind? mark next.decl = some kind) :
      Acts root next p ({ p with state := .inside record }.capture root record next.decl kind)
  | misfits {record mark} (hd : Directive.ofMarker? next.decl.spelling = none)
      (hs : p.state = .awaitingMember record mark)
      (hk : fieldKind? (some mark) next.decl = none) :
      Acts root next p
        ({ p with state := .inside record }.fail (.unfitMember mark next.decl.spelling)
          next.decl.location)
  | skips {record} (hd : Directive.ofMarker? next.decl.spelling = none)
      (hs : p.state = .inside record) (hk : fieldKind? none next.decl = none) :
      Acts root next p p

theorem bind_of_reflectable (p : Progress) {next : Node} (h : next.decl.Reflectable) :
    p.bind next = ({ p with state := .inside next }, .descend) := by
  simp [Progress.bind, h.1, h.2]

theorem bind_of_not_reflectable (p : Progress) {next : Node} (h : ¬next.decl.Reflectable) :
    p.bind next =
      ({ p with state := .scanning }.fail next.decl.refusal next.decl.location, .skip) := by
  unfold Progress.bind Decl.refusal
  by_cases hr : next.decl.kind.isRecord
  · have ha : ¬(next.decl.access = .publicMember ∨ next.decl.access = .nonMember) :=
      fun ha => h ⟨hr, ha⟩
    simp [hr, ha]
  · simp [hr]

theorem leave_spec (p : Progress) (next above : Node) :
    Leaves next above p (p.leave next above) := by
  unfold Progress.leave
  cases hs : p.state with
  | scanning => exact .outside (.inl hs)
  | awaitingType => exact .outside (.inr hs)
  | inside record =>
    by_cases h : record.id = above.id
    · simpa only [h, if_true] using .stays record none hs h
    · simpa only [h, if_false] using .ends hs h
  | awaitingMember record mark =>
    by_cases h : record.id = above.id
    · simpa only [h, if_true] using .stays record (some mark) hs h
    · simpa only [h, if_false] using .cuts hs h

theorem direct_spec (root : Path) (p : Progress) {next : Node} {d : Directive}
    (hd : Directive.ofMarker? next.decl.spelling = some d) :
    Acts root next p (p.direct d next.decl.location) := by
  cases d with
  | reflectType =>
    cases hs : p.state with
    | scanning => simpa only [Progress.direct, hs] using .begins hd hs
    | _ => simpa only [Progress.direct, hs] using .refuses hd (by simp [hs]) (by simp)
  | member mark =>
    cases hs : p.state with
    | inside record => simpa only [Progress.direct, hs] using .marks hd hs
    | _ => simpa only [Progress.direct, hs] using .refuses hd (by simp) (by simp [hs])

theorem visitMember_spec (root : Path) (p : Progress) {next record : Node} (mark : Option Mark)
    (hd : Directive.ofMarker? next.decl.spelling = none) (hs : p.state = .within record mark) :
    Acts root next p (visitMember root p record mark next.decl) := by
  unfold visitMember
  cases hk : fieldKind? mark next.decl with
  | some kind => exact .captures hd hs hk
  | none =>
    cases mark with
    | some mark => exact .misfits hd hs hk
    | none =>
      have same : { p with state := .inside record } = p := by
        rw [show State.inside record = p.state from hs.symm]
      simpa only [same] using .skips hd hs hk

/-- A step leaves the open record if it has to, and then acts. -/
theorem step_spec (root : Path) (p : Progress) (next above : Node) :
    ∃ q, Leaves next above p q ∧ Acts root next q (step root p next above).1 := by
  refine ⟨p.leave next above, leave_spec p next above, ?_⟩
  unfold step
  cases hd : Directive.ofMarker? next.decl.spelling with
  | some d => exact direct_spec root _ hd
  | none =>
    cases hs : (p.leave next above).state with
    | scanning => simpa only [hs] using .passes hd hs
    | awaitingType =>
      by_cases hr : next.decl.Reflectable
      · simpa only [hs, bind_of_reflectable _ hr] using .binds hd hs hr
      · simpa only [hs, bind_of_not_reflectable _ hr] using .declines hd hs hr
    | inside record => simpa only [hs] using visitMember_spec root _ none hd hs
    | awaitingMember record mark =>
      simpa only [hs] using visitMember_spec root _ (some mark) hd hs

/-- What the first step finds and each later one keeps holds at the end of a scan. -/
theorem walk_invariant {root : Path} {t : DeclTree} (holds : Progress → Prop) (start : holds {})
    (keeps : ∀ p next above, (next, above) ∈ (t.forest 0).edges t.unit → holds p →
      holds (step root p next above).1) : holds (walk root t) := by
  unfold walk
  rw [Forest.visit_eq_foldl]
  refine List.foldlRecOn _ _ start fun p hp visit hv => ?_
  exact keeps p visit.1 visit.2 (Forest.visited_subset_edges _ _ _ _ hv) hp

theorem metadata_finish (file : Path) (p : Progress) : (finish file p).metadata = p.metadata := by
  unfold finish
  split <;> rfl

theorem Leaves.metadata_eq {next above : Node} {p q : Progress} (h : Leaves next above p q) :
    q.metadata = p.metadata := by
  cases h <;> rfl

def captured (root : Path) (d : Decl) (kind : FieldKind) : Field :=
  ⟨d.spelling, kind, some (relativeInclude root.bytes d.location.file.bytes)⟩

/-- Only the capture of a member changes what is registered. -/
theorem Acts.metadata_eq {root : Path} {next : Node} {p r : Progress} (h : Acts root next p r) :
    r.metadata = p.metadata ∨
      ∃ record mark kind, p.state = .within record mark ∧ fieldKind? mark next.decl = some kind ∧
        r.metadata =
          (p.metadata.addField record.decl.type.canonical
            (captured root next.decl kind)).1.recordType next.decl.type.spelling := by
  cases h with
  | captures hd hs hk => exact .inr ⟨_, _, _, hs, hk, rfl⟩
  | _ => exact .inl rfl

theorem step_sound (root : Path) (p : Progress) (next above : Node) (hp : p.metadata.Sound) :
    (step root p next above).1.metadata.Sound := by
  obtain ⟨q, hl, ha⟩ := step_spec root p next above
  rw [← hl.metadata_eq] at hp
  rcases ha.metadata_eq with same | ⟨record, mark, kind, -, -, added⟩
  · rw [same]
    exact hp
  · rw [added]
    exact (hp.addField _ _).recordType _

theorem walk_sound (root : Path) (t : DeclTree) : (walk root t).metadata.Sound :=
  walk_invariant (·.metadata.Sound) Metadata.sound_empty fun p next above _ =>
    step_sound root p next above

end Scan

theorem metadata_scan (root : Path) (t : DeclTree) :
    (scan root t).metadata = (Scan.walk root t).metadata :=
  Scan.metadata_finish t.file _

theorem scan_sound (root : Path) (t : DeclTree) : (scan root t).metadata.Sound := by
  rw [metadata_scan]
  exact Scan.walk_sound root t

end ReflectGen
