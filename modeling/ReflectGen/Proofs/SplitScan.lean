import ReflectGen.Proofs.StoreViews
import ReflectGen.Proofs.StructuredScan

namespace ReflectGen

namespace Forest

variable {α β σ : Type}

theorem exists_append_of_map_eq_append (g : α → β) {f : Forest α} {s t : Forest β}
    (h : f.map g = s ++ t) : ∃ f₁ f₂, f = f₁ ++ f₂ ∧ f₁.map g = s ∧ f₂.map g = t := by
  induction s generalizing f with
  | nil => exact ⟨nil, f, rfl, rfl, h⟩
  | cons b kids rest _ ih =>
    cases f with
    | nil => cases h
    | cons a kids' rest' =>
      rw [map, cons_append, cons.injEq] at h
      obtain ⟨ha, hk, hr⟩ := h
      obtain ⟨f₁, f₂, rfl, h₁, h₂⟩ := ih hr
      exact ⟨cons a kids' f₁, f₂, rfl, by rw [map, ha, hk, h₁], h₂⟩

/-- A walk that ran through the first trees goes on with those after them. -/
theorem visit_append (f : σ → α → α → σ × Visit) (above : α) {t₁ : Forest α} (t₂ : Forest α)
    {s s' : σ} (h : t₁.visit f above s = (s', true)) :
    (t₁ ++ t₂).visit f above s = t₂.visit f above s' := by
  induction t₁ generalizing s with
  | nil =>
    cases h
    rfl
  | cons a kids rest _ ih =>
    rw [cons_append, visit]
    rw [visit] at h
    rcases hf : f s a above with ⟨u, v⟩
    rw [hf] at h
    cases v with
    | stop => cases h
    | skip => exact ih h
    | descend =>
      simp only at h ⊢
      rcases hk : kids.visit f a u with ⟨w, done⟩
      rw [hk] at h
      cases done with
      | false => cases h
      | true => exact ih h

/-- A change of the state that every call commutes with commutes with the whole walk. -/
theorem visit_commutes (f : σ → α → α → σ × Visit) (g : σ → σ) (holds : σ → Prop)
    (keeps : ∀ s a above, holds s → holds (f s a above).1)
    (commutes : ∀ s a above, holds s → f (g s) a above = (g (f s a above).1, (f s a above).2))
    (t : Forest α) (above : α) {s : σ} (h : holds s) :
    t.visit f above (g s) = (g (t.visit f above s).1, (t.visit f above s).2) := by
  induction t generalizing above s with
  | nil => rfl
  | cons a kids rest ihk ihr =>
    have kept := keeps s a above h
    rw [visit, visit, commutes s a above h]
    rcases hf : f s a above with ⟨u, v⟩
    rw [hf] at kept
    cases v with
    | stop => rfl
    | skip => exact ihr above kept
    | descend =>
      have below : holds (kids.visit f a u).1 := by
        rw [visit_eq_foldl]
        exact List.foldlRecOn _ _ kept fun s hs e _ => keeps s e.1 e.2 hs
      simp only [ihk a kept]
      rcases hk : kids.visit f a u with ⟨w, done⟩
      rw [hk] at below
      cases done with
      | false => rfl
      | true => exact ihr above below

end Forest

namespace DeclTree

theorem ascends_append {above : Nat} {s t : Forest Node} (h : Ascends above (s ++ t)) :
    Ascends above s ∧ Ascends above t := by
  induction s with
  | nil => exact ⟨trivial, h⟩
  | cons n kids rest _ ih =>
    obtain ⟨hn, hk, hr⟩ := h
    obtain ⟨hs, ht⟩ := ih hr
    exact ⟨⟨hn, hk, hs⟩, ht⟩

/-- The declarations of a file without their numbers. -/
def decls (t : DeclTree) : Forest Decl := (t.forest 0).map Node.decl

end DeclTree

namespace Scan

open DeclTree
open Forest (Visit)

/-- A scan that goes on from what an earlier one found. -/
def Progress.onto (p earlier : Progress) : Progress :=
  ⟨p.state, earlier.metadata.merge p.metadata, earlier.errors ++ p.errors⟩

section Onto

variable {root : Path} {p earlier : Progress}

theorem fail_onto (fault : Fault) (l : Location) :
    (p.onto earlier).fail fault l = (p.fail fault l).onto earlier := by
  simp [Progress.fail, Progress.onto]

theorem leave_onto (next above : Node) :
    (p.onto earlier).leave next above = (p.leave next above).onto earlier := by
  have state : (p.onto earlier).state = p.state := rfl
  unfold Progress.leave
  rw [state]
  cases p.state with
  | inside record => simp only; split <;> rfl
  | awaitingMember record mark =>
    simp only
    split
    · rfl
    · exact fail_onto (p := { p with state := .scanning }) ..
  | _ => rfl

theorem direct_onto (d : Directive) (l : Location) :
    (p.onto earlier).direct d l = (p.direct d l).onto earlier := by
  have state : (p.onto earlier).state = p.state := rfl
  unfold Progress.direct
  rw [state]
  cases d <;> cases p.state <;> first | rfl | exact fail_onto ..

theorem bind_onto (next : Node) :
    (p.onto earlier).bind next = ((p.bind next).1.onto earlier, (p.bind next).2) := by
  by_cases hr : next.decl.Reflectable
  · rw [bind_of_reflectable _ hr, bind_of_reflectable _ hr]
    rfl
  · rw [bind_of_not_reflectable _ hr, bind_of_not_reflectable _ hr]
    exact Prod.ext (fail_onto (p := { p with state := .scanning }) ..) rfl

theorem capture_onto (he : earlier.metadata.Sound) (hp : p.metadata.Sound) (record : Node)
    (d : Decl) (kind : FieldKind) :
    (p.onto earlier).capture root record d kind = (p.capture root record d kind).onto earlier := by
  unfold Progress.capture Progress.onto
  simp only [Metadata.merge_recordType, Metadata.merge_addField he hp]

theorem visitMember_onto (he : earlier.metadata.Sound) (hp : p.metadata.Sound) (record : Node)
    (mark : Option Mark) (d : Decl) :
    visitMember root (p.onto earlier) record mark d =
      (visitMember root p record mark d).onto earlier := by
  unfold visitMember
  cases fieldKind? mark d with
  | some kind =>
    exact capture_onto (p := { p with state := .inside record }) he hp record d kind
  | none =>
    cases mark with
    | none => rfl
    | some mark => exact fail_onto (p := { p with state := .inside record }) ..

/-- What a step finds does not depend on what was found before. -/
theorem step_onto (he : earlier.metadata.Sound) (hp : p.metadata.Sound) (next above : Node) :
    step root (p.onto earlier) next above =
      ((step root p next above).1.onto earlier, (step root p next above).2) := by
  have left : (p.leave next above).metadata.Sound := by
    rw [(leave_spec p next above).metadata_eq]
    exact hp
  unfold step
  rw [leave_onto]
  generalize p.leave next above = q at left ⊢
  have state : (q.onto earlier).state = q.state := rfl
  cases Directive.ofMarker? next.decl.spelling with
  | some d => exact Prod.ext (direct_onto ..) rfl
  | none =>
    simp only [state]
    cases q.state with
    | scanning => rfl
    | awaitingType => exact bind_onto next
    | inside record => exact Prod.ext (visitMember_onto he left ..) rfl
    | awaitingMember record mark => exact Prod.ext (visitMember_onto he left ..) rfl

theorem visit_onto (he : earlier.metadata.Sound) (hp : p.metadata.Sound) (decls : Forest Node)
    (above : Node) :
    decls.visit (step root) above (p.onto earlier) =
      ((decls.visit (step root) above p).1.onto earlier,
        (decls.visit (step root) above p).2) := by
  apply Forest.visit_commutes (step root) (·.onto earlier) (·.metadata.Sound)
  · intro s a above hs
    exact step_sound root s a above hs
  · intro s a above hs
    exact step_onto he hs a above
  · exact hp

theorem finish_onto (file : Path) :
    finish file (p.onto earlier) = (finish file p).onto earlier := by
  have state : (p.onto earlier).state = p.state := rfl
  unfold finish
  rw [state]
  cases p.state <;> first | rfl | exact fail_onto ..

end Onto

/-- The states of two scans that differ in the numbers of the declarations. An open record is the
one that the next declaration stands in for both scans or for neither. -/
inductive Alike (above above' : Node) : State → State → Prop
  | scanning : Alike above above' .scanning .scanning
  | awaiting : Alike above above' .awaitingType .awaitingType
  | within {record record' : Node} (mark : Option Mark) (decl : record.decl = record'.decl)
      (lower : above.id ≤ record.id) (lower' : above'.id ≤ record'.id)
      (here : record.id = above.id ↔ record'.id = above'.id) :
      Alike above above' (.within record mark) (.within record' mark)

structure Matches (above above' : Node) (p p' : Progress) : Prop where
  state : Alike above above' p.state p'.state
  metadata : p.metadata = p'.metadata
  errors : p.errors = p'.errors

/-- Matching steps take the same turn. -/
inductive StepMatches (above above' next next' : Node) : Progress × Visit → Progress × Visit → Prop
  | skip {q q' : Progress} (h : Matches above above' q q') :
      StepMatches above above' next next' (q, .skip) (q', .skip)
  | descend {q q' : Progress} (h : Matches next next' q q') :
      StepMatches above above' next next' (q, .descend) (q', .descend)

section Renumbering

variable {root : Path} {above above' next next' : Node} {p p' : Progress}

theorem Matches.fail (h : Matches above above' p p') (fault : Fault) (l : Location) :
    Matches above above' (p.fail fault l) (p'.fail fault l) := by
  refine ⟨h.state, h.metadata, ?_⟩
  rw [Progress.fail, Progress.fail, h.errors]

theorem Matches.withState (h : Matches above above' p p') {low low' : Node} {s s' : State}
    (hs : Alike low low' s s') : Matches low low' { p with state := s } { p' with state := s' } :=
  ⟨hs, h.metadata, h.errors⟩

/-- What is open below a declaration is not open right below the one above it. -/
theorem Matches.up (h : Matches next next' p p') (lt : above.id < next.id)
    (lt' : above'.id < next'.id) : Matches above above' p p' := by
  refine ⟨?_, h.metadata, h.errors⟩
  have hs := h.state
  revert hs
  generalize p.state = s
  generalize p'.state = s'
  intro hs
  cases hs with
  | scanning => exact .scanning
  | awaiting => exact .awaiting
  | within mark decl lower lower' here =>
    exact .within mark decl (by omega) (by omega) (by constructor <;> intro <;> omega)

theorem leave_matches (h : Matches above above' p p') (decl : next.decl = next'.decl) :
    Matches above above' (p.leave next above) (p'.leave next' above') := by
  obtain ⟨s, m, e⟩ := p
  obtain ⟨s', m', e'⟩ := p'
  obtain ⟨hs, rfl, rfl⟩ := h
  cases hs with
  | scanning => exact ⟨.scanning, rfl, rfl⟩
  | awaiting => exact ⟨.awaiting, rfl, rfl⟩
  | @within record record' mark hd lower lower' here =>
    by_cases hid : record.id = above.id
    · have hid' := here.mp hid
      have open_ := Alike.within mark hd lower lower' here
      cases mark <;> simpa [Progress.leave, hid, hid'] using ⟨open_, rfl, rfl⟩
    · have hid' : record'.id ≠ above'.id := fun h => hid (here.mpr h)
      cases mark with
      | none => simpa [Progress.leave, hid, hid'] using ⟨.scanning, rfl, rfl⟩
      | some mark =>
        simpa [Progress.leave, Progress.fail, hid, hid', hd, decl] using ⟨.scanning, rfl, rfl⟩

theorem direct_matches (h : Matches above above' p p') (d : Directive) (l : Location) :
    Matches above above' (p.direct d l) (p'.direct d l) := by
  have refused := h.fail
  obtain ⟨s, m, e⟩ := p
  obtain ⟨s', m', e'⟩ := p'
  obtain ⟨hs, rfl, rfl⟩ := h
  cases hs with
  | scanning =>
    cases d with
    | reflectType => exact ⟨.awaiting, rfl, rfl⟩
    | member mark => exact refused ..
  | awaiting => cases d <;> exact refused ..
  | within mark decl lower lower' here =>
    cases mark with
    | some mark => cases d <;> exact refused ..
    | none =>
      cases d with
      | reflectType => exact refused ..
      | member mark => exact ⟨.within (some mark) decl lower lower' here, rfl, rfl⟩

theorem bind_matches (h : Matches above above' p p') (decl : next.decl = next'.decl) :
    StepMatches above above' next next' (p.bind next) (p'.bind next') := by
  by_cases hr : next.decl.Reflectable
  · have hr' : next'.decl.Reflectable := decl ▸ hr
    rw [bind_of_reflectable p hr, bind_of_reflectable p' hr']
    have here : next.id = next.id ↔ next'.id = next'.id := iff_of_true rfl rfl
    exact .descend (h.withState (.within none decl (Nat.le_refl _) (Nat.le_refl _) here))
  · have hr' : ¬next'.decl.Reflectable := decl ▸ hr
    rw [bind_of_not_reflectable p hr, bind_of_not_reflectable p' hr', decl]
    exact .skip ((h.withState .scanning).fail _ _)

theorem visitMember_matches {record record' : Node} (h : Matches above above' p p')
    (same : record.decl = record'.decl)
    (hs : Alike above above' (.inside record) (.inside record')) (mark : Option Mark) (d : Decl) :
    Matches above above' (visitMember root p record mark d)
      (visitMember root p' record' mark d) := by
  have inside := h.withState hs
  unfold visitMember
  cases fieldKind? mark d with
  | some kind =>
    refine ⟨hs, ?_, h.errors⟩
    simp only [Progress.capture, same, h.metadata]
  | none =>
    cases mark with
    | none => exact inside
    | some mark => exact inside.fail _ _

theorem step_matches (root : Path) (h : Matches above above' p p') (decl : next.decl = next'.decl) :
    StepMatches above above' next next' (step root p next above) (step root p' next' above') := by
  have left := leave_matches h decl
  unfold step
  generalize p.leave next above = q at left ⊢
  generalize p'.leave next' above' = q' at left ⊢
  rw [← decl]
  cases Directive.ofMarker? next.decl.spelling with
  | some d => exact .skip (direct_matches left d _)
  | none =>
    have hs := left.state
    simp only
    generalize hq : q.state = s at hs
    generalize hq' : q'.state = s' at hs
    cases hs with
    | scanning =>
      refine .descend ⟨?_, left.metadata, left.errors⟩
      rw [hq, hq']
      exact .scanning
    | awaiting => exact bind_matches left decl
    | within mark same lower lower' here =>
      have hs := Alike.within none same lower lower' here
      cases mark with
      | none => exact .skip (visitMember_matches left same hs none _)
      | some mark => exact .skip (visitMember_matches left same hs (some mark) _)

/-- The numbers of the declarations do not show in the walk of a scan. -/
theorem visit_matches (root : Path) {decls decls' : Forest Node}
    (same : decls.map Node.decl = decls'.map Node.decl) (ha : Ascends above.id decls)
    (ha' : Ascends above'.id decls') (h : Matches above above' p p') :
    ∃ q q', decls.visit (step root) above p = (q, true) ∧
      decls'.visit (step root) above' p' = (q', true) ∧ Matches above above' q q' := by
  induction decls generalizing decls' above above' p p' with
  | nil =>
    cases decls' with
    | nil => exact ⟨p, p', rfl, rfl, h⟩
    | cons n kids rest => cases same
  | cons n kids rest ihk ihr =>
    cases decls' with
    | nil => cases same
    | cons n' kids' rest' =>
      rw [Forest.map, Forest.map, Forest.cons.injEq] at same
      obtain ⟨decl, skids, srest⟩ := same
      obtain ⟨lt, akids, arest⟩ := ha
      obtain ⟨lt', akids', arest'⟩ := ha'
      have stepped := step_matches root h decl
      rw [Forest.visit, Forest.visit]
      generalize step root p n above = r at stepped
      generalize step root p' n' above' = r' at stepped
      cases stepped with
      | skip hq => exact ihr srest arest arest' hq
      | descend hq =>
        obtain ⟨u, u', hu, hu', hk⟩ := ihk skids akids akids' hq
        simp only [hu, hu']
        exact ihr srest arest arest' (hk.up lt lt')

theorem finish_matches (file : Path) (h : Matches above above' p p') :
    (finish file p).metadata = (finish file p').metadata ∧
      (finish file p).errors = (finish file p').errors := by
  obtain ⟨s, m, e⟩ := p
  obtain ⟨s', m', e'⟩ := p'
  obtain ⟨hs, rfl, rfl⟩ := h
  cases hs with
  | scanning => exact ⟨rfl, rfl⟩
  | awaiting => exact ⟨rfl, rfl⟩
  | within mark decl =>
    cases mark with
    | none => exact ⟨rfl, rfl⟩
    | some mark => simp [finish, Progress.fail, decl]

end Renumbering

/-- Nothing is pending: a scan may end here without a fault. -/
def State.IsQuiet (s : State) : Prop := s = .scanning ∨ ∃ record, s = .inside record

theorem Alike.quiet {above above' : Node} {s s' : State} (h : Alike above above' s s')
    (hs : s'.IsQuiet) : s.IsQuiet := by
  cases h with
  | scanning => exact .inl rfl
  | awaiting => exact hs
  | @within record record' mark =>
    cases mark with
    | none => exact .inr ⟨record, rfl⟩
    | some mark => rcases hs with hs | ⟨_, hs⟩ <;> cases hs

section Seam

variable {root : Path} {p : Progress} {above : Node}

theorem finish_quiet (file : Path) (h : p.state.IsQuiet) : finish file p = p := by
  unfold finish
  rcases h with h | ⟨record, h⟩ <;> rw [h]

theorem step_quiet (next : Node) (h : p.state.IsQuiet)
    (out : StructuredScan.Outside above.id p.state) :
    step root p next above = step root { p with state := .scanning } next above := by
  have closed : p.leave next above = { p with state := .scanning } := by
    obtain ⟨s, m, e⟩ := p
    rcases h with rfl | ⟨record, rfl⟩
    · rfl
    · have hne : record.id ≠ above.id := Nat.ne_of_gt out
      simp only [Progress.leave, hne, if_false]
  have still : ({ p with state := .scanning } : Progress).leave next above =
      { p with state := .scanning } := rfl
  unfold step
  rw [closed, still]

/-- A scan that goes on after a record was open finds the same as if the record had ended. -/
theorem finish_visit_quiet (root : Path) (file : Path) (decls : Forest Node) (h : p.state.IsQuiet)
    (out : StructuredScan.Outside above.id p.state) :
    (finish file (decls.visit (step root) above p).1).metadata =
        (finish file
          (decls.visit (step root) above { p with state := .scanning }).1).metadata ∧
      (finish file (decls.visit (step root) above p).1).errors =
        (finish file
          (decls.visit (step root) above { p with state := .scanning }).1).errors := by
  cases decls with
  | nil =>
    simp only [Forest.visit]
    rw [finish_quiet file h, finish_quiet file (.inl rfl)]
    exact ⟨rfl, rfl⟩
  | cons n kids rest =>
    rw [Forest.visit, Forest.visit, step_quiet n h out]
    exact ⟨rfl, rfl⟩

end Seam

end Scan

open DeclTree Scan

/-- A file whose first part leaves nothing pending gives what its two parts give, merged. -/
theorem scan_append (root : Path) {t a b : DeclTree} (file : b.file = t.file)
    (parts : t.decls = a.decls ++ b.decls) (quiet : (walk root a).state.IsQuiet) :
    (scan root t).metadata = (scan root a).metadata.merge (scan root b).metadata ∧
      (scan root t).errors = (scan root a).errors ++ (scan root b).errors := by
  obtain ⟨first, second, hforest, hfirst, hsecond⟩ :=
    Forest.exists_append_of_map_eq_append Node.decl parts
  have ascends := ascends_forest t
  rw [hforest] at ascends
  obtain ⟨afirst, asecond⟩ := ascends_append ascends
  have start : ∀ above above' : Node, Matches above above' {} {} :=
    fun _ _ => ⟨.scanning, rfl, rfl⟩
  obtain ⟨p, p', hp, hp', hm⟩ :=
    visit_matches root hfirst afirst (ascends_forest a) (start t.unit a.unit)
  obtain ⟨q, q', hq, hq', hn⟩ :=
    visit_matches root hsecond asecond (ascends_forest b) (start t.unit b.unit)
  have walkA : walk root a = p' := congrArg Prod.fst hp'
  have walkB : walk root b = q' := congrArg Prod.fst hq'
  have walkT : walk root t = (second.visit (step root) t.unit p).1 := by
    rw [walk, hforest, Forest.visit_append _ _ _ hp]
  have sound : p.metadata.Sound := by
    rw [hm.metadata, ← walkA]
    exact walk_sound root a
  have outside : StructuredScan.Outside t.unit.id p.state := by
    obtain ⟨u, hu, hout, -⟩ :=
      StructuredScan.visit_siblings root first t.unit {} afirst trivial
    have same : u = p := congrArg Prod.fst (hu.symm.trans hp)
    rw [← same]
    exact hout
  rw [walkA] at quiet
  -- The second part goes on from the findings of the first as if nothing were open.
  have seam := finish_visit_quiet root t.file second (hm.state.quiet quiet) outside
  have restart : { p with state := .scanning } = ({} : Progress).onto p := by
    simp [Progress.onto, Metadata.merge_empty]
  rw [restart, visit_onto sound Metadata.sound_empty, hq, finish_onto, ← walkT] at seam
  have second' := finish_matches t.file hn
  have scanA : finish a.file (walk root a) = p' := by rw [walkA, finish_quiet a.file quiet]
  have scanB : finish b.file (walk root b) = finish t.file q' := by rw [walkB, file]
  simp only [scan, scanA, scanB]
  rw [seam.1, seam.2, ← hm.metadata, ← hm.errors, ← second'.1, ← second'.2]
  exact ⟨rfl, rfl⟩

section Reopened

def headerDecl (kind : DeclKind) (spelling type : String) (access : Access) : Decl :=
  ⟨kind, spelling, ⟨⟨"p/a.h"⟩, 1, 1⟩, .plain type, access⟩

def beginMarker : Decl := headerDecl .function Directive.reflectType.marker "" .nonMember

def openedType : Decl := headerDecl .structDef "A" "A" .nonMember

def idMember : Decl := headerDecl .field "id" "int" .publicMember

/-- A second member of the name, which is not captured, though its capacity is. -/
def idAgain : Decl := headerDecl .field "id" "SerializedString<32>" .publicMember

def tagMember : Decl := headerDecl .field "tag" "int" .publicMember

/-- A type that is reflected twice, the members numbered after both records. -/
def reopened : DeclTree where
  file := ⟨"p/a.h"⟩
  entries := [⟨0, beginMarker⟩, ⟨0, openedType⟩, ⟨0, beginMarker⟩, ⟨0, openedType⟩, ⟨2, idMember⟩,
    ⟨4, idAgain⟩, ⟨4, tagMember⟩]
  parent_le := by
    intro i e h
    rcases i with _ | _ | _ | _ | _ | _ | _ | i <;> simp at h <;> subst h <;> simp

def openingPart : DeclTree :=
  .ofForest ⟨"p/a.h"⟩ (.cons beginMarker .nil (.cons openedType (.leaves [idMember]) .nil))

def closingPart : DeclTree :=
  .ofForest ⟨"p/a.h"⟩
    (.cons beginMarker .nil (.cons openedType (.leaves [idAgain, tagMember]) .nil))

theorem scan_reopened_append :
    (scan ⟨"p"⟩ reopened).metadata.types =
        [⟨"A", [⟨"id", .plain, some "a.h"⟩, ⟨"tag", .plain, some "a.h"⟩]⟩] ∧
      (scan ⟨"p"⟩ reopened).metadata =
        (scan ⟨"p"⟩ openingPart).metadata.merge (scan ⟨"p"⟩ closingPart).metadata ∧
      (scan ⟨"p"⟩ reopened).errors =
        (scan ⟨"p"⟩ openingPart).errors ++ (scan ⟨"p"⟩ closingPart).errors := by
  have parts : reopened.decls = openingPart.decls ++ closingPart.decls := by decide +kernel
  have quiet : (walk ⟨"p"⟩ openingPart).state = .inside ⟨2, openedType⟩ := by decide +kernel
  refine ⟨by decide +kernel, ?_⟩
  exact scan_append ⟨"p"⟩ rfl parts (.inr ⟨⟨2, openedType⟩, quiet⟩)

end Reopened

end ReflectGen
