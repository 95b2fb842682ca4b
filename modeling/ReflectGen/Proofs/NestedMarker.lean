import Mathlib.Data.List.Nodup
import ReflectGen.Proofs.MarkerScope
import ReflectGen.Proofs.SplitScan

namespace ReflectGen

namespace Forest

variable {α : Type}

/-- A forest with one more leaf: the tree at place `k`, or the last one. -/
def insertLeaf (a : α) : Nat → Forest α → Forest α
  | 0, f => cons a nil f
  | _ + 1, nil => cons a nil nil
  | k + 1, cons b kids rest => cons b kids (insertLeaf a k rest)

end Forest

namespace DeclTree

/-- A forest with one more leaf at place `k` directly below number `id`. -/
def withLeaf (id k : Nat) (leaf : Node) : Forest Node → Forest Node
  | .nil => .nil
  | .cons n kids rest =>
    .cons n (if n.id = id then kids.insertLeaf leaf k else withLeaf id k leaf kids)
      (withLeaf id k leaf rest)

/-- One tree is another with one more declaration, a leaf at place `k` among those directly below
number `id`. The two trees may be numbered each in its own way. -/
structure Gains (t t' : DeclTree) (id k : Nat) (d : Decl) : Prop where
  file : t'.file = t.file
  decls : t'.decls = (withLeaf id k ⟨t.size, d⟩ (t.forest 0)).map Node.decl

/-- Such a tree exists for each place. -/
theorem gains_ofForest (t : DeclTree) (id k : Nat) (d : Decl) :
    t.Gains (.ofForest t.file ((withLeaf id k ⟨t.size, d⟩ (t.forest 0)).map Node.decl)) id k d :=
  ⟨rfl, map_forest_ofForest ..⟩

section Numbers

theorem le_id_of_mem_below {next above : Nat} {es : List Entry} {n : Node}
    (h : n ∈ (below next es above).preorder) : next ≤ n.id := by
  induction es generalizing next above with
  | nil => cases h
  | cons e es ih =>
    have later {above : Nat} (h : n ∈ (below (next + 1) es above).preorder) : next ≤ n.id :=
      Nat.le_of_succ_le (ih h)
    rw [below] at h
    split at h
    · rw [Forest.preorder, List.mem_cons, List.mem_append] at h
      rcases h with rfl | h | h
      · exact Nat.le_refl _
      · exact later h
      · exact later h
    · exact later h

/-- What stands below one number does not stand below another one that comes before all of it. -/
theorem id_ne_of_mem_below {next a b : Nat} {es : List Entry} (ne : a ≠ b) (ha : a < next)
    (hb : b < next) {m n : Node} (hm : m ∈ (below next es a).preorder)
    (hn : n ∈ (below next es b).preorder) : m.id ≠ n.id := by
  induction es generalizing next a b m n with
  | nil => cases hm
  | cons e es ih =>
    -- The first entry stands below one of the two at most, with all that stands below itself.
    have first {a b : Nat} (here : e.parent = a) (ne : a ≠ b) (ha : a < next) (hb : b < next)
        {m n : Node} (hm : m ∈ (below next (e :: es) a).preorder)
        (hn : n ∈ (below next (e :: es) b).preorder) : m.id ≠ n.id := by
      rw [below, if_neg (here ▸ ne)] at hn
      rw [below, if_pos here, Forest.preorder, List.mem_cons, List.mem_append] at hm
      rcases hm with rfl | hm | hm
      · have := le_id_of_mem_below hn
        exact Nat.ne_of_lt this
      · exact ih (Nat.ne_of_gt hb) (Nat.lt_succ_self _) (by omega) hm hn
      · exact ih ne (by omega) (by omega) hm hn
    by_cases here : e.parent = a
    · exact first here ne ha hb hm hn
    · by_cases there : e.parent = b
      · exact (first there ne.symm hb ha hn hm).symm
      · rw [below, if_neg here] at hm
        rw [below, if_neg there] at hn
        exact ih ne (by omega) (by omega) hm hn

theorem notMem_map_id_below {next above low : Nat} (es : List Entry) (h : low < next) :
    low ∉ (below next es above).preorder.map Node.id := by
  intro mem
  obtain ⟨n, hn, rfl⟩ := List.mem_map.mp mem
  exact absurd (le_id_of_mem_below hn) (Nat.not_le_of_lt h)

theorem nodup_below {next above : Nat} (es : List Entry) (h : above < next) :
    ((below next es above).preorder.map Node.id).Nodup := by
  induction es generalizing next above with
  | nil => exact List.nodup_nil
  | cons e es ih =>
    rw [below]
    split
    · have inside := ih (Nat.lt_succ_self next)
      have after := ih (Nat.lt_succ_of_lt h)
      rw [Forest.preorder, List.map_cons, List.map_append]
      refine List.nodup_cons.mpr ⟨?_, List.nodup_append.mpr ⟨inside, after, ?_⟩⟩
      · intro mem
        rcases List.mem_append.mp mem with mem | mem
        · exact notMem_map_id_below es (Nat.lt_succ_self next) mem
        · exact notMem_map_id_below es (Nat.lt_succ_self next) mem
      · intro a ha b hb
        obtain ⟨m, hm, rfl⟩ := List.mem_map.mp ha
        obtain ⟨n, hn, rfl⟩ := List.mem_map.mp hb
        exact id_ne_of_mem_below (Nat.ne_of_gt h) (Nat.lt_succ_self _) (Nat.lt_succ_of_lt h) hm hn
    · exact ih (Nat.lt_succ_of_lt h)

/-- A walk meets each number once. -/
theorem nodup_forest (t : DeclTree) : ((t.forest 0).preorder.map Node.id).Nodup :=
  nodup_below t.entries Nat.zero_lt_one

theorem lt_size_of_get? {t : DeclTree} {id : Nat} {d : Decl} (h : t.get? id = some d) :
    id < t.size := by
  cases id with
  | zero => exact Nat.succ_pos _
  | succ i =>
    obtain ⟨e, found, -⟩ := Option.map_eq_some_iff.mp h
    exact Nat.succ_lt_succ (List.getElem?_eq_some_iff.mp found).1

end Numbers

section Leaf

variable {id k : Nat} {leaf : Node}

theorem withLeaf_of_notMem {f : Forest Node} (h : id ∉ f.preorder.map Node.id) :
    withLeaf id k leaf f = f := by
  induction f with
  | nil => rfl
  | cons n kids rest ihk ihr =>
    simp only [Forest.preorder, List.map_cons, List.map_append, List.mem_cons, List.mem_append,
      not_or] at h
    rw [withLeaf, if_neg (Ne.symm h.1), ihk h.2.1, ihr h.2.2]

theorem ascends_insertLeaf {above : Nat} {f : Forest Node} (h : Ascends above f)
    (hl : above < leaf.id) : Ascends above (f.insertLeaf leaf k) := by
  induction f generalizing k with
  | nil => cases k <;> exact ⟨hl, trivial, trivial⟩
  | cons n kids rest _ ih =>
    cases k with
    | zero => exact ⟨hl, trivial, h⟩
    | succ k => exact ⟨h.1, h.2.1, ih h.2.2⟩

theorem ascends_withLeaf {above : Nat} {f : Forest Node} (h : Ascends above f)
    (hl : id < leaf.id) : Ascends above (withLeaf id k leaf f) := by
  induction f generalizing above with
  | nil => trivial
  | cons n kids rest ihk ihr =>
    obtain ⟨lt, below, after⟩ := h
    refine ⟨lt, ?_, ihr after⟩
    split
    · rename_i here
      exact ascends_insertLeaf below (here ▸ hl)
    · exact ihk below

end Leaf

end DeclTree

namespace Scan

open DeclTree

/-- A scan with one more fault among those it has found, at place `n`. -/
def Progress.withFault (e : ScanError) (n : Nat) (p : Progress) : Progress :=
  { p with errors := p.errors.take n ++ e :: p.errors.drop n }

section Additional

variable {root : Path} {p p' : Progress} {e : ScanError} {n : Nat}

/-- A scan is one that has found nothing yet, going on from its findings. -/
theorem restart_onto (p : Progress) : ({ state := p.state } : Progress).onto p = p := by
  simp [Progress.onto, Metadata.merge_empty]

/-- What is found later comes behind the additional fault. -/
theorem withFault_onto (q : Progress) (h : n ≤ p.errors.length) :
    (q.onto p).withFault e n = q.onto (p.withFault e n) := by
  simp only [Progress.withFault, Progress.onto, List.take_append_of_le_length h,
    List.drop_append_of_le_length h, List.append_assoc, List.cons_append]

/-- A walk finds what one that starts with nothing finds, behind what was found before. -/
theorem visit_eq_onto (sound : p.metadata.Sound) (decls : Forest Node) (above : Node) :
    decls.visit (step root) above p =
      ((decls.visit (step root) above { state := p.state }).1.onto p,
        (decls.visit (step root) above { state := p.state }).2) := by
  rw [← visit_onto sound Metadata.sound_empty, restart_onto]

theorem finish_eq_onto (file : Path) (p : Progress) :
    finish file p = (finish file { state := p.state }).onto p := by
  rw [← finish_onto, restart_onto]

/-- One scan has found all that another one has, and one fault more somewhere in between. -/
def Admits (e : ScanError) (p q : Progress) : Prop := ∃ n ≤ p.errors.length, q = p.withFault e n

theorem admits_fail (p : Progress) (fault : Fault) (l : Location) :
    Admits ⟨fault, l⟩ p (p.fail fault l) := by
  refine ⟨p.errors.length, Nat.le_refl _, ?_⟩
  simp [Progress.fail, Progress.withFault]

theorem Admits.onto (h : Admits e p p') (q : Progress) : Admits e (q.onto p) (q.onto p') := by
  obtain ⟨n, le, rfl⟩ := h
  refine ⟨n, ?_, (withFault_onto q le).symm⟩
  rw [Progress.onto, List.length_append]
  exact Nat.le_add_right_of_le le

theorem Admits.state_eq (h : Admits e p p') : p'.state = p.state := by
  obtain ⟨n, -, rfl⟩ := h
  rfl

theorem Admits.metadata_eq (h : Admits e p p') : p'.metadata = p.metadata := by
  obtain ⟨n, -, rfl⟩ := h
  rfl

theorem Admits.exists_errors (h : Admits e p p') :
    ∃ before after, p.errors = before ++ after ∧ p'.errors = before ++ e :: after := by
  obtain ⟨n, -, rfl⟩ := h
  exact ⟨p.errors.take n, p.errors.drop n, (List.take_append_drop n _).symm, rfl⟩

/-- The additional fault has no effect on what a scan does later. -/
theorem Admits.visit (h : Admits e p p') (sound : p.metadata.Sound) (decls : Forest Node)
    (above : Node) :
    Admits e (decls.visit (step root) above p).1 (decls.visit (step root) above p').1 := by
  have sound' : p'.metadata.Sound := by
    rw [h.metadata_eq]
    exact sound
  rw [visit_eq_onto sound, visit_eq_onto sound', h.state_eq]
  exact h.onto _

theorem Admits.finish (h : Admits e p p') (file : Path) :
    Admits e (finish file p) (finish file p') := by
  rw [finish_eq_onto file p, finish_eq_onto file p', h.state_eq]
  exact h.onto _

end Additional

section Walk

theorem visit_cons (root : Path) (above n : Node) (kids rest : Forest Node) (p : Progress) :
    (Forest.cons n kids rest).visit (step root) above p =
      if (step root p n above).2 = .skip then
        rest.visit (step root) above (step root p n above).1
      else
        rest.visit (step root) above
          (kids.visit (step root) n (step root p n above).1).1 := by
  have go := step_ne_stop root p n above
  rw [Forest.visit]
  rcases hs : step root p n above with ⟨q, v⟩
  rw [hs] at go
  cases v with
  | stop => exact absurd rfl go
  | skip => rfl
  | descend =>
    have down := visit_to_end root n kids q
    rcases hk : kids.visit (step root) n q with ⟨r, b⟩
    rw [hk] at down
    simp only at down
    subst down
    simp only [hk, reduceCtorEq, if_false]

theorem visit_sound (root : Path) {p : Progress} (sound : p.metadata.Sound)
    (decls : Forest Node) (above : Node) :
    (decls.visit (step root) above p).1.metadata.Sound := by
  rw [Forest.visit_eq_foldl]
  refine List.foldlRecOn (motive := fun q : Progress => q.metadata.Sound) _ _ sound ?_
  intro q hq e _
  exact step_sound root q e.1 e.2 hq

end Walk

section Inside

open StructuredScan

variable {p : Progress} {record leaf : Node} {run : List Directive}

/-- No member of an open record is entered, and the record stays open. -/
theorem step_inside (root : Path) (hs : p.state = runState record run) (next : Node) :
    ∃ q run', step root p next record = (q, .skip) ∧ q.state = runState record run' := by
  cases hd : Directive.ofMarker? next.decl.spelling with
  | some d =>
    obtain ⟨q, stepped, inside, -⟩ := step_directive_inside root hs hd
    exact ⟨q, run ++ [d], stepped, inside⟩
  | none =>
    obtain ⟨q, stepped, inside, -⟩ := step_member_inside root hs hd
    exact ⟨q, [], stepped, inside⟩

/-- A reflect directive inside an open record is refused, and the scan goes on as before it. -/
theorem step_marker_inside (root : Path) (hs : p.state = runState record run)
    (marker : leaf.decl.spelling = Directive.reflectType.marker) :
    step root p leaf record = (p.fail .nestedReflection leaf.decl.location, .skip) := by
  unfold step
  rw [leave_runState leaf hs, marker, Directive.ofMarker?_marker]
  cases hr : runMark run <;> simp [Progress.direct, hs, runState, hr]

theorem visit_marker_first (root : Path)
    (marker : leaf.decl.spelling = Directive.reflectType.marker) (members : Forest Node)
    (hs : p.state = runState record run) (sound : p.metadata.Sound) :
    Admits ⟨.nestedReflection, leaf.decl.location⟩ (members.visit (step root) record p).1
      ((Forest.cons leaf .nil members).visit (step root) record p).1 := by
  rw [visit_cons, step_marker_inside root hs marker, if_pos rfl]
  exact (admits_fail p _ _).visit sound members record

/-- The walk through the members of an open record, with a reflect directive put among them. -/
theorem visit_insertLeaf (root : Path)
    (marker : leaf.decl.spelling = Directive.reflectType.marker) (members : Forest Node) (k : Nat)
    (hs : p.state = runState record run) (sound : p.metadata.Sound) :
    Admits ⟨.nestedReflection, leaf.decl.location⟩ (members.visit (step root) record p).1
      ((members.insertLeaf leaf k).visit (step root) record p).1 := by
  induction members generalizing p k run with
  | nil => cases k <;> exact visit_marker_first root marker .nil hs sound
  | cons n kids rest _ ih =>
    cases k with
    | zero => exact visit_marker_first root marker (.cons n kids rest) hs sound
    | succ k =>
      obtain ⟨q, run', stepped, inside⟩ := step_inside root hs n
      have sound' := step_sound root p n record sound
      rw [stepped] at sound'
      rw [Forest.insertLeaf, visit_cons, visit_cons, stepped, if_pos rfl, if_pos rfl]
      exact ih k inside sound'

end Inside

section Insertion

variable {root : Path} {p : Progress} {c : Call}

theorem step_of_binds (binds : c.binds root = true) :
    step root c.before c.next c.above = ({ c.before with state := .inside c.next }, .descend) := by
  obtain ⟨waits, opened⟩ := of_decide_eq_true binds
  rw [Call.after] at opened
  have stays : c.before.leave c.next c.above = c.before := by simp [Progress.leave, waits]
  unfold step at opened ⊢
  rw [stays] at opened ⊢
  cases hd : Directive.ofMarker? c.next.decl.spelling with
  | some d => cases d <;> simp [hd, Progress.direct, waits, Progress.fail] at opened
  | none =>
    simp only [hd, waits] at opened ⊢
    by_cases hr : c.next.decl.Reflectable
    · exact bind_of_reflectable c.before hr
    · simp [bind_of_not_reflectable c.before hr, Progress.fail] at opened

theorem id_mem_of_mem_calls {f : Forest Node} {above : Node}
    (h : c ∈ calls root p (f.visited (step root) above p)) :
    c.next.id ∈ f.preorder.map Node.id :=
  List.mem_map_of_mem (Forest.mem_preorder_of_mem_edges (mem_edges_of_mem_calls h))

/-- A walk that binds a record, with a reflect directive put among the members of that record. -/
theorem visit_withLeaf {above : Node} {f : Forest Node} (k : Nat) (leaf : Node)
    (marker : leaf.decl.spelling = Directive.reflectType.marker)
    (distinct : (f.preorder.map Node.id).Nodup) (sound : p.metadata.Sound)
    (hc : c ∈ calls root p (f.visited (step root) above p)) (binds : c.binds root = true) :
    Admits ⟨.nestedReflection, leaf.decl.location⟩ (f.visit (step root) above p).1
      ((withLeaf c.next.id k leaf f).visit (step root) above p).1 := by
  induction f generalizing above p with
  | nil => cases hc
  | cons n kids rest ihk ihr =>
    rw [Forest.preorder, List.map_cons, List.map_append, List.nodup_cons, List.nodup_append,
      List.mem_append, not_or] at distinct
    obtain ⟨⟨notKid, notRest⟩, distinctKids, distinctRest, apart⟩ := distinct
    have sound' := step_sound root p n above sound
    rw [visited_cons, calls] at hc
    rw [withLeaf, visit_cons, visit_cons]
    rcases List.mem_cons.mp hc with rfl | hc
    · -- The record is bound here: its members change, what comes after it does not.
      have descends := step_of_binds binds
      dsimp only at descends notRest
      rw [if_pos rfl, withLeaf_of_notMem notRest, descends]
      simp only [reduceCtorEq, if_false]
      have opened : ({ p with state := .inside n } : Progress).state =
          StructuredScan.runState n [] := rfl
      have soundInside := visit_sound root (p := { p with state := .inside n }) sound kids n
      exact (visit_insertLeaf root marker kids k opened sound).visit soundInside rest above
    · split at hc
      · rename_i skips
        rw [if_pos skips, if_pos skips]
        exact ihr distinctRest sound' hc
      · rename_i descends
        rw [if_neg descends, if_neg descends]
        rw [calls_append] at hc
        rcases List.mem_append.mp hc with hc | hc
        · have inKids := id_mem_of_mem_calls hc
          have elsewhere : n.id ≠ c.next.id := fun same => notKid (same ▸ inKids)
          have untouched : c.next.id ∉ rest.preorder.map Node.id :=
            fun after => apart _ inKids _ after rfl
          rw [if_neg elsewhere, withLeaf_of_notMem untouched]
          exact (ihk distinctKids sound' hc).visit (visit_sound root sound' kids n) rest above
        · have run : runCalls root (step root p n above).1
              (kids.visited (step root) n (step root p n above).1) =
                (kids.visit (step root) n (step root p n above).1).1 :=
            (Forest.visit_eq_foldl ..).symm
          rw [run] at hc
          have later := id_mem_of_mem_calls hc
          have elsewhere : n.id ≠ c.next.id := fun same => notRest (same ▸ later)
          have untouched : c.next.id ∉ kids.preorder.map Node.id :=
            fun below => apart _ below _ later rfl
          rw [if_neg elsewhere, withLeaf_of_notMem untouched]
          exact ihr distinctRest (visit_sound root sound' kids n) hc

end Insertion

/-- A reflect directive inside a bound record does nothing but add its own fault. It may stand
anywhere among the members and the member directives, also between a directive and its member. -/
theorem nested_marker_inert (root : Path) {t t' : DeclTree} {c : Call} {k : Nat} {d : Decl}
    (hc : c ∈ log root t) (binds : c.binds root = true)
    (marker : d.spelling = Directive.reflectType.marker) (gains : t.Gains t' c.next.id k d) :
    (scan root t').metadata = (scan root t).metadata ∧
      ∃ e : ScanError, e.fault = .nestedReflection ∧ e.fault.kind = .structuralDirective ∧
        e.location = d.location ∧
        ∃ before after, (scan root t).errors = before ++ after ∧
          (scan root t').errors = before ++ e :: after := by
  have fresh : c.next.id < t.size := lt_size_of_get? (edge_spec (mem_edges_of_mem_calls hc)).1
  have ascends : Ascends t.unit.id (withLeaf c.next.id k ⟨t.size, d⟩ (t.forest 0)) :=
    ascends_withLeaf (ascends_forest t) fresh
  have start : Matches t'.unit t.unit {} {} := ⟨.scanning, rfl, rfl⟩
  -- In the larger tree the declarations have other numbers, which do not show.
  obtain ⟨q, q', walked, walked', alike⟩ :=
    visit_matches root gains.decls (ascends_forest t') ascends start
  have admits : Admits ⟨.nestedReflection, d.location⟩ (walk root t) q' := by
    have walks :=
      visit_withLeaf k ⟨t.size, d⟩ marker (nodup_forest t) Metadata.sound_empty hc binds
    rw [walked'] at walks
    exact walks
  have ended := admits.finish t.file
  have same := finish_matches t.file alike
  have scanned : scan root t' = ⟨t.file, (finish t.file q).metadata, (finish t.file q).errors⟩ := by
    rw [scan, walk, walked, gains.file]
  rw [scanned, same.1, same.2]
  refine ⟨ended.metadata_eq, ⟨.nestedReflection, d.location⟩, rfl, rfl, rfl, ?_⟩
  exact ended.exists_errors

section Interrupted

def methodDirective : Decl :=
  ⟨.function, (Directive.member .method).marker, ⟨⟨"/p/a.h"⟩, 3, 1⟩, {}, .publicMember⟩

def markedMethod : Decl :=
  ⟨.method, "m", ⟨⟨"/p/a.h"⟩, 5, 1⟩, .plain "void ()", .publicMember⟩

def nestedMarker : Decl :=
  ⟨.function, Directive.reflectType.marker, ⟨⟨"/p/a.h"⟩, 4, 1⟩, {}, .publicMember⟩

/-- A reflected record with a method that a directive asks for. -/
def askedMethod : DeclTree :=
  .ofForest ⟨"/p/a.h"⟩
    (.cons trailingMarker .nil
      (.cons outerRecord (.leaves [methodDirective, markedMethod, outerMember]) .nil))

/-- The same with a reflect directive between the member directive and its method. -/
def interrupted : DeclTree :=
  .ofForest ⟨"/p/a.h"⟩
    (.cons trailingMarker .nil
      (.cons outerRecord (.leaves [methodDirective, nestedMarker, markedMethod, outerMember]) .nil))

theorem gains_interrupted : askedMethod.Gains interrupted 2 1 nestedMarker :=
  gains_ofForest askedMethod 2 1 nestedMarker

def openingCall : Call := ⟨{ state := .awaitingType }, ⟨2, outerRecord⟩, askedMethod.unit⟩

theorem interrupted_inert :
    openingCall ∈ log ⟨"/p"⟩ askedMethod ∧ openingCall.binds ⟨"/p"⟩ = true ∧
    (scan ⟨"/p"⟩ interrupted).metadata.types =
      [⟨"Foo", [⟨"m", .method, some "a.h"⟩, ⟨"a", .plain, some "a.h"⟩]⟩] ∧
    (scan ⟨"/p"⟩ interrupted).metadata = (scan ⟨"/p"⟩ askedMethod).metadata ∧
      ∃ e : ScanError, e.fault = .nestedReflection ∧ e.fault.kind = .structuralDirective ∧
        e.location = nestedMarker.location ∧
        ∃ before after, (scan ⟨"/p"⟩ askedMethod).errors = before ++ after ∧
          (scan ⟨"/p"⟩ interrupted).errors = before ++ e :: after := by
  have met : openingCall ∈ log ⟨"/p"⟩ askedMethod := by decide +kernel
  have binds : openingCall.binds ⟨"/p"⟩ = true := by decide +kernel
  have types : (scan ⟨"/p"⟩ interrupted).metadata.types =
      [⟨"Foo", [⟨"m", .method, some "a.h"⟩, ⟨"a", .plain, some "a.h"⟩]⟩] := by decide +kernel
  exact ⟨met, binds, types, nested_marker_inert ⟨"/p"⟩ met binds rfl gains_interrupted⟩

end Interrupted

end Scan

end ReflectGen
