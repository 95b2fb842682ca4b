import ReflectGen.Proofs.AcceptedCapacities
import ReflectGen.Proofs.MarkerScope

namespace ReflectGen

namespace Scan

open DeclTree (Node)

/-- Two declarations that a scan treats alike up to what it writes down. -/
structure Counterpart (next next' : Node) : Prop where
  kind : next'.decl.kind = next.decl.kind
  access : next'.decl.access = next.decl.access
  type : next'.decl.type = next.decl.type
  location : next'.decl.location = next.decl.location
  directive : Directive.ofMarker? next'.decl.spelling = Directive.ofMarker? next.decl.spelling
  record : next.decl.Reflectable → next' = next

section Step

variable {root : Path} {p p' : Progress} {next next' above above' : Node}

theorem leave_state (hs : p'.state = p.state) (hid : above'.id = above.id) :
    (p'.leave next' above').state = (p.leave next above).state := by
  unfold Progress.leave
  rw [hs, hid]
  split
  · split
    · exact hs
    · rfl
  · split
    · exact hs
    · rfl
  · exact hs

theorem direct_counterpart (d : Directive) (l l' : Location) (hs : p'.state = p.state) :
    (p'.direct d l').state = (p.direct d l).state ∧ (p.direct d l).metadata = p.metadata := by
  unfold Progress.direct
  rw [hs]
  cases d <;> cases p.state <;> simp [Progress.fail, hs]

theorem bind_counterpart (p p' : Progress) (like : Counterpart next next') :
    (p'.bind next').2 = (p.bind next).2 ∧ (p'.bind next').1.state = (p.bind next).1.state ∧
      (p.bind next).1.metadata = p.metadata ∧ (p'.bind next').1.metadata = p'.metadata := by
  by_cases hr : next.decl.Reflectable
  · rw [like.record hr, bind_of_reflectable _ hr, bind_of_reflectable _ hr]
    exact ⟨rfl, rfl, rfl, rfl⟩
  · have hr' : ¬next'.decl.Reflectable := by
      rw [Decl.Reflectable, like.kind, like.access]
      exact hr
    rw [bind_of_not_reflectable _ hr, bind_of_not_reflectable _ hr']
    exact ⟨rfl, rfl, rfl, rfl⟩

/-- Two scans register two members alike, under the same kind. -/
def CapturesBoth (root : Path) (record next next' : Node) (kind : FieldKind)
    (m m' r r' : Metadata) : Prop :=
  r = (m.addField record.decl.type.canonical (captured root next.decl kind)).1.recordType
      next.decl.type.spelling ∧
    r' = (m'.addField record.decl.type.canonical (captured root next'.decl kind)).1.recordType
      next.decl.type.spelling

theorem visitMember_counterpart (root : Path) (p p' : Progress) (record : Node) (mark : Option Mark)
    (like : Counterpart next next') :
    (visitMember root p' record mark next'.decl).state =
        (visitMember root p record mark next.decl).state ∧
      ((visitMember root p record mark next.decl).metadata = p.metadata ∧
          (visitMember root p' record mark next'.decl).metadata = p'.metadata ∨
        ∃ kind, fieldKind? mark next.decl = some kind ∧
          CapturesBoth root record next next' kind p.metadata p'.metadata
            (visitMember root p record mark next.decl).metadata
            (visitMember root p' record mark next'.decl).metadata) := by
  have fits : fieldKind? mark next'.decl = fieldKind? mark next.decl := by
    unfold fieldKind?
    rw [like.kind, like.access]
  unfold visitMember
  rw [fits]
  cases fieldKind? mark next.decl with
  | some kind =>
    refine ⟨rfl, .inr ⟨kind, rfl, rfl, ?_⟩⟩
    rw [← like.type]
    rfl
  | none => cases mark <;> exact ⟨rfl, .inl ⟨rfl, rfl⟩⟩

/-- What two scans in the same state make of declarations that they treat alike: both go on in the
same way, and both capture a member or none does. -/
theorem step_counterpart (root : Path) (hs : p'.state = p.state) (hid : above'.id = above.id)
    (like : Counterpart next next') :
    (step root p' next' above').2 = (step root p next above).2 ∧
      (step root p' next' above').1.state = (step root p next above).1.state ∧
      ((step root p next above).1.metadata = p.metadata ∧
          (step root p' next' above').1.metadata = p'.metadata ∨
        ∃ record mark kind, p.state = .within record mark ∧ record.id = above.id ∧
          Call.Accepts ⟨p, next, above⟩ ∧
          CapturesBoth root record next next' kind p.metadata p'.metadata
            (step root p next above).1.metadata (step root p' next' above').1.metadata) := by
  have left : (p'.leave next' above').state = (p.leave next above).state := leave_state hs hid
  have leaves := leave_spec p next above
  have keeps' := (leave_spec p' next' above').metadata_eq
  rw [← leaves.metadata_eq, ← keeps']
  unfold step
  rw [like.directive]
  generalize p'.leave next' above' = q' at left
  generalize hq : p.leave next above = q at left leaves
  cases hd : Directive.ofMarker? next.decl.spelling with
  | some d =>
    have here := direct_counterpart d next.decl.location next'.decl.location left
    have there := direct_counterpart d next'.decl.location next'.decl.location
      (rfl : q'.state = q'.state)
    exact ⟨rfl, here.1, .inl ⟨here.2, there.2⟩⟩
  | none =>
    have member {record : Node} {mark : Option Mark} (inside : q.state = .within record mark) :
        ((visitMember root q record mark next.decl).metadata = q.metadata ∧
            (visitMember root q' record mark next'.decl).metadata = q'.metadata ∨
          ∃ record' mark' kind, p.state = .within record' mark' ∧ record'.id = above.id ∧
            Call.Accepts ⟨p, next, above⟩ ∧
            CapturesBoth root record' next next' kind q.metadata q'.metadata
              (visitMember root q record mark next.decl).metadata
              (visitMember root q' record mark next'.decl).metadata) := by
      rcases (visitMember_counterpart root q q' record mark like).2 with same | ⟨kind, hk, both⟩
      · exact .inl same
      · obtain ⟨before, hid⟩ := leaves.within inside
        have accepts : Call.Accepts ⟨p, next, above⟩ :=
          ⟨hd, record, mark, before, hid, by rw [hk]; rfl⟩
        exact .inr ⟨record, mark, kind, before, hid, accepts, both⟩
    simp only [left]
    cases at_ : q.state with
    | scanning => exact ⟨rfl, left, .inl ⟨rfl, rfl⟩⟩
    | awaitingType =>
      obtain ⟨visit, state, here, there⟩ := bind_counterpart q q' like
      exact ⟨visit, state, .inl ⟨here, there⟩⟩
    | inside record =>
      have inside : q.state = .within record none := at_
      exact ⟨rfl, (visitMember_counterpart root q q' record none like).1, member inside⟩
    | awaitingMember record mark =>
      have inside : q.state = .within record (some mark) := at_
      exact ⟨rfl, (visitMember_counterpart root q q' record (some mark) like).1, member inside⟩

end Step

section Run

variable {root : Path} {t : DeclTree} {c d : Call}

theorem runCalls_cons (p : Progress) (next above : Node) (visits : List (Node × Node)) :
    runCalls root p ((next, above) :: visits) =
      runCalls root (step root p next above).1 visits := rfl

theorem runCalls_append (p : Progress) (xs ys : List (Node × Node)) :
    runCalls root p (xs ++ ys) = runCalls root (runCalls root p xs) ys := List.foldl_append

/-- Two runs, one over a forest and one over the same forest with other labels, stay in a relation
that each call of the first run keeps. -/
theorem runCalls_map {g : Node → Node} {related : Progress → Progress → Prop} {f : Forest Node}
    {above : Node} {p p' : Progress} (start : related p p')
    (keeps : ∀ c ∈ calls root p (f.visited (step root) above p), ∀ q, related c.before q →
      (step root q (g c.next) (g c.above)).2 = (step root c.before c.next c.above).2 ∧
        related (c.after root) (step root q (g c.next) (g c.above)).1) :
    related (runCalls root p (f.visited (step root) above p))
      (runCalls root p' ((f.map g).visited (step root) (g above) p')) := by
  induction f generalizing above p p' with
  | nil => exact start
  | cons n kids rest ihk ihr =>
    rw [visited_cons, calls] at keeps
    rw [visited_cons, Forest.map, visited_cons]
    obtain ⟨visit, first⟩ := keeps ⟨p, n, above⟩ List.mem_cons_self p' start
    simp only at visit first
    rw [visit]
    -- Both runs take the same turn here, so the calls below and after this one are about the same
    -- declarations.
    by_cases skips : (step root p n above).2 = .skip
    · rw [if_pos skips] at keeps
      rw [if_pos skips, if_pos skips]
      exact ihr first fun c hc => keeps c (List.mem_cons_of_mem _ hc)
    · rw [if_neg skips, calls_append] at keeps
      rw [if_neg skips, if_neg skips]
      have down := ihk first fun c hc =>
        keeps c (List.mem_cons_of_mem _ (List.mem_append_left _ hc))
      rw [runCalls_cons, runCalls_append, runCalls_cons, runCalls_append]
      exact ihr down fun c hc => keeps c (List.mem_cons_of_mem _ (List.mem_append_right _ hc))

theorem before_of_mem_calls {holds : Progress → Prop} {p : Progress} {visits : List (Node × Node)}
    (start : holds p)
    (keeps : ∀ p, ∀ v ∈ visits, holds p → holds (step root p v.1 v.2).1) :
    ∀ c ∈ calls root p visits, holds c.before := by
  induction visits generalizing p with
  | nil => simp [calls]
  | cons v visits ih =>
    intro c hc
    rw [calls] at hc
    rcases List.mem_cons.mp hc with rfl | hc
    · exact start
    · exact ih (keeps p v List.mem_cons_self start)
        (fun q u hu => keeps q u (List.mem_cons_of_mem v hu)) c hc

theorem mem_edges_of_mem_log {c : Call} (h : c ∈ log root t) :
    (c.next, c.above) ∈ (t.forest 0).edges t.unit :=
  mem_edges_of_mem_calls h

theorem tracks_of_mem_log (h : c ∈ log root t) : Tracks t c.before :=
  before_of_mem_calls (tracks_start t)
    (fun _ _ hv => tracks_after (Forest.visited_subset_edges _ _ _ _ hv)) c h

/-- The open record is the declaration right above the one that the scan is at. -/
theorem Tracks.record_eq {p : Progress} {next above record : Node} {mark : Option Mark}
    (h : Tracks t p) (he : (next, above) ∈ (t.forest 0).edges t.unit)
    (hs : p.state = .within record mark) (hid : record.id = above.id) :
    record.decl = above.decl := by
  have found := (h.opened record mark hs).2
  rw [hid, (DeclTree.edge_spec he).2.1] at found
  exact (Option.some.inj found).symm

/-- A declaration is met in one place. -/
theorem decl_eq_of_id_eq (hc : c ∈ log root t) (hd : d ∈ log root t)
    (hid : d.next.id = c.next.id) : d.next = c.next ∧ d.above = c.above := by
  obtain ⟨next, above, parent⟩ := DeclTree.edge_spec (mem_edges_of_mem_log hc)
  obtain ⟨next', above', parent'⟩ := DeclTree.edge_spec (mem_edges_of_mem_log hd)
  have up : d.above.id = c.above.id := by
    rw [hid, parent] at parent'
    exact (Option.some.inj parent').symm
  rw [hid, next] at next'
  rw [up, above] at above'
  obtain ⟨before, ⟨id, decl⟩, ⟨upId, upDecl⟩⟩ := c
  obtain ⟨before', ⟨id', decl'⟩, ⟨upId', upDecl'⟩⟩ := d
  simp only [Option.some.injEq] at *
  subst hid up next' above'
  exact ⟨rfl, rfl⟩

/-- What a call brings about and no call undoes holds at the end of the run. -/
theorem runCalls_of_after {holds : Progress → Prop} {p : Progress} {visits : List (Node × Node)}
    (keeps : ∀ p next above, holds p → holds (step root p next above).1)
    (hc : c ∈ calls root p visits) (h : holds (c.after root)) :
    holds (runCalls root p visits) := by
  induction visits generalizing p with
  | nil => cases hc
  | cons v visits ih =>
    rw [calls] at hc
    rw [runCalls_cons]
    rcases List.mem_cons.mp hc with rfl | hc
    · exact List.foldlRecOn _ _ h fun q hq u _ => keeps q u.1 u.2 hq
    · exact ih hc

theorem isSome_field?_step {p : Progress} {next above : Node} {type name : String}
    (h : (p.metadata.field? type name).isSome) :
    ((step root p next above).1.metadata.field? type name).isSome := by
  obtain ⟨q, leaves, acts⟩ := step_spec root p next above
  rw [← leaves.metadata_eq] at h
  rcases acts.metadata_eq with same | ⟨record, mark, kind, -, -, added⟩
  · rw [same]
    exact h
  · rw [added, Metadata.field?_recordType, Metadata.field?_addField, Option.isSome_or, h]
    rfl

theorem Acts.metadata_of_takes {next : Node} {q r : Progress} (h : Acts root next q r)
    (takes : q.state.Takes next.decl) :
    ∃ record mark kind, q.state = .within record mark ∧
      r.metadata =
        (q.metadata.addField record.decl.type.canonical
          (captured root next.decl kind)).1.recordType next.decl.type.spelling := by
  cases h with
  | begins hd => exact absurd takes (not_takes_of_directive hd)
  | marks hd => exact absurd takes (not_takes_of_directive hd)
  | refuses hd => exact absurd takes (not_takes_of_directive hd)
  | passes _ hs => exact absurd takes (not_takes_outside (.inl hs))
  | binds _ hs => exact absurd takes (not_takes_outside (.inr hs))
  | declines _ hs => exact absurd takes (not_takes_outside (.inr hs))
  | captures _ hs => exact ⟨_, _, _, hs, rfl⟩
  | @misfits record mark _ hs hk =>
    have within : q.state = .within record (some mark) := hs
    exact absurd takes (not_takes_of_unfit within hk)
  | @skips record _ hs hk =>
    have within : q.state = .within record none := hs
    exact absurd takes (not_takes_of_unfit within hk)

/-- An accepted member is registered under the type right above it. -/
theorem Call.Accepts.isSome_field? (hc : c ∈ log root t) (h : c.Accepts) :
    ((scan root t).metadata.field? c.above.decl.type.canonical c.next.decl.spelling).isSome := by
  rw [ReflectGen.metadata_scan, walk_eq_runCalls]
  have captured : ((c.after root).metadata.field? c.above.decl.type.canonical
      c.next.decl.spelling).isSome := by
    obtain ⟨q, leaves, acts⟩ := step_spec root c.before c.next c.above
    obtain ⟨record, mark, kind, hs, added⟩ := acts.metadata_of_takes (leaves.accepts_iff.mp h)
    obtain ⟨before, hid⟩ := leaves.within hs
    have inside := (tracks_of_mem_log hc).record_eq (mem_edges_of_mem_log hc) before hid
    rw [Call.after, added, Metadata.field?_recordType, Metadata.field?_addField, inside,
      Option.isSome_or]
    simp [Scan.captured]
  have kept : ∀ p next above,
      (p.metadata.field? c.above.decl.type.canonical c.next.decl.spelling).isSome →
      ((step root p next above).1.metadata.field? c.above.decl.type.canonical
        c.next.decl.spelling).isSome := fun _ _ _ => isSome_field?_step
  exact runCalls_of_after kept hc captured

end Run

end Scan

end ReflectGen
