import ReflectGen.Proofs.DirectiveAccount
import ReflectGen.Proofs.Numbering

namespace ReflectGen

namespace DeclTree

/-- The declaration numbered `inner` is the one numbered `outer` or stands below it. -/
inductive Encloses (t : DeclTree) (outer : Nat) : Nat → Prop
  | self : Encloses t outer outer
  | inside {inner up : Nat} (parent : t.parent? inner = some up) (h : Encloses t outer up) :
      Encloses t outer inner

theorem Encloses.trans {t : DeclTree} {a b c : Nat} (hab : t.Encloses a b) (hbc : t.Encloses b c) :
    t.Encloses a c := by
  induction hbc with
  | self => exact hab
  | inside parent _ ih => exact .inside parent ih

theorem parent?_lt {t : DeclTree} {n up : Nat} (h : t.parent? n = some up) : up < n := by
  cases n with
  | zero => cases h
  | succ i =>
    obtain ⟨e, he, rfl⟩ := Option.map_eq_some_iff.mp h
    exact Nat.lt_succ_of_le (t.parent_le i e he)

theorem Encloses.le {t : DeclTree} {a b : Nat} (h : t.Encloses a b) : a ≤ b := by
  induction h with
  | self => exact Nat.le_refl a
  | inside parent _ ih => exact Nat.le_trans ih (Nat.le_of_lt (parent?_lt parent))

theorem encloses_of_mem_edges {t : DeclTree} {f : Forest Node} {above n up : Node}
    (parents : ∀ e ∈ f.edges above, t.parent? e.1.id = some e.2.id)
    (h : (n, up) ∈ f.edges above) : t.Encloses above.id up.id := by
  induction f generalizing above with
  | nil => simp [Forest.edges] at h
  | cons m kids rest ihk ihr =>
    simp only [Forest.edges, List.mem_cons, List.mem_append, Prod.mk.injEq] at h parents
    rcases h with ⟨rfl, rfl⟩ | h | h
    · exact .self
    · have first : t.Encloses above.id m.id := .inside (parents _ (.inl rfl)) .self
      exact first.trans (ihk (fun e he => parents e (.inr (.inl he))) h)
    · exact ihr (fun e he => parents e (.inr (.inr he))) h

def Node.isPlain (n : Node) : Bool := (Directive.ofMarker? n.decl.spelling).isNone

end DeclTree

namespace Scan

open DeclTree (Node)

/-- Whether a call makes the scan wait for a record. -/
def Call.begins (root : Path) (c : Call) : Prop :=
  c.before.state ≠ .awaitingType ∧ (c.after root).state = .awaitingType

theorem Call.begins.directive? {root : Path} {c : Call} (h : c.begins root) :
    c.directive? = some .reflectType := by
  obtain ⟨before, after⟩ := h
  obtain ⟨q, hl, ha⟩ := step_spec root c.before c.next c.above
  have fresh : q.state ≠ .awaitingType := fun hq => before (hl.reflection.2.mp hq)
  change Acts root c.next q (c.after root) at ha
  generalize c.after root = r at after ha
  cases ha with
  | begins hd => exact hd
  | refuses => exact absurd after fresh
  | passes => exact absurd after fresh
  | skips => exact absurd after fresh
  | marks => cases after
  | binds => cases after
  | declines => cases after
  | captures => cases after
  | misfits => cases after

section Steps

variable {root : Path} {p : Progress} {next above : Node}

theorem step_directive (h : next.isPlain = false) : (step root p next above).2 = .skip := by
  obtain ⟨d, hd⟩ := Option.isSome_iff_exists.mp (Option.isNone_eq_false_iff.mp h)
  simp [step, hd]

theorem not_isPlain_of_awaiting (h : (step root p next above).1.state = .awaitingType) :
    next.isPlain = false := by
  obtain ⟨q, -, ha⟩ := step_spec root p next above
  obtain ⟨d, hd⟩ := ha.awaits? (d := .reflectType) (by rw [h]; rfl)
  simp [Node.isPlain, hd]

theorem awaiting_of_directive (hs : p.state = .awaitingType) (h : next.isPlain = false) :
    (step root p next above).1.state = .awaitingType := by
  obtain ⟨d, hd⟩ := Option.isSome_iff_exists.mp (Option.isNone_eq_false_iff.mp h)
  have stays : p.leave next above = p := by simp [Progress.leave, hs]
  cases d <;> simp [step, stays, hd, Progress.direct, hs, Progress.fail]

theorem step_ne_stop (root : Path) (p : Progress) (next above : Node) :
    (step root p next above).2 ≠ .stop := by
  unfold step
  cases Directive.ofMarker? next.decl.spelling with
  | some d => simp
  | none =>
    cases hs : (p.leave next above).state with
    | awaitingType =>
      by_cases hr : next.decl.Reflectable
      · simp [hs, bind_of_reflectable _ hr]
      · simp [hs, bind_of_not_reflectable _ hr]
    | _ => simp [hs]

theorem visit_to_end (root : Path) (above : Node) (f : Forest Node) (p : Progress) :
    (f.visit (step root) above p).2 = true := by
  induction f generalizing above p with
  | nil => rfl
  | cons n kids rest ihk ihr =>
    have go := step_ne_stop root p n above
    rw [Forest.visit]
    rcases hs : step root p n above with ⟨q, v⟩
    rw [hs] at go
    cases v with
    | stop => exact absurd rfl go
    | skip => exact ihr above q
    | descend =>
      have down := ihk n q
      rcases hk : kids.visit (step root) n q with ⟨r, b⟩
      rw [hk] at down
      simp only at down
      subst down
      simp only [hk]
      exact ihr above r

end Steps

section Runs

variable {root : Path} {p : Progress}

theorem calls_append (root : Path) (p : Progress) (xs ys : List (Node × Node)) :
    calls root p (xs ++ ys) = calls root p xs ++ calls root (runCalls root p xs) ys := by
  induction xs generalizing p with
  | nil => rfl
  | cons v xs ih => rw [List.cons_append, calls, ih, calls, List.cons_append]; rfl

theorem mem_of_mem_calls {visits : List (Node × Node)} {c : Call} (h : c ∈ calls root p visits) :
    (c.next, c.above) ∈ visits := by
  induction visits generalizing p with
  | nil => cases h
  | cons v visits ih =>
    rw [calls] at h
    rcases List.mem_cons.mp h with rfl | h
    · exact List.mem_cons_self
    · exact List.mem_cons_of_mem v (ih h)

theorem mem_edges_of_mem_calls {f : Forest Node} {above : Node} {c : Call}
    (h : c ∈ calls root p (f.visited (step root) above p)) : (c.next, c.above) ∈ f.edges above :=
  Forest.visited_subset_edges _ _ _ _ (mem_of_mem_calls h)

/-- The calls at a declaration and below it come before those at its siblings. -/
theorem visited_cons (root : Path) (above n : Node) (kids rest : Forest Node) (p : Progress) :
    (.cons n kids rest : Forest Node).visited (step root) above p =
      (n, above) ::
        if (step root p n above).2 = .skip then
          rest.visited (step root) above (step root p n above).1
        else
          kids.visited (step root) n (step root p n above).1 ++
            rest.visited (step root) above
              (runCalls root (step root p n above).1
                (kids.visited (step root) n (step root p n above).1)) := by
  have go := step_ne_stop root p n above
  rw [Forest.visited]
  rcases hs : step root p n above with ⟨q, v⟩
  rw [hs] at go
  cases v with
  | stop => exact absurd rfl go
  | skip => rfl
  | descend =>
    have down := visit_to_end root n kids q
    have run : (kids.visit (step root) n q).1 = runCalls root q (kids.visited (step root) n q) :=
      Forest.visit_eq_foldl ..
    rcases hk : kids.visit (step root) n q with ⟨r, b⟩
    rw [hk] at down run
    simp only at down run
    subst down run
    simp only [hk, reduceCtorEq, if_false]

/-- A scan that waits for a record keeps waiting while it meets nothing but directives. -/
theorem awaiting_of_directives {visits : List (Node × Node)} (hs : p.state = .awaitingType)
    (h : ∀ c ∈ calls root p visits, c.next.isPlain = false) :
    (runCalls root p visits).state = .awaitingType := by
  induction visits generalizing p with
  | nil => exact hs
  | cons v visits ih =>
    have first := h ⟨p, v.1, v.2⟩ List.mem_cons_self
    exact ih (awaiting_of_directive hs first) fun c hc => h c (List.mem_cons_of_mem _ hc)

theorem awaiting_since {visits : List (Node × Node)} {pre mid : List Call} {marker : Call}
    (run : calls root p visits = pre ++ marker :: mid)
    (waits : (marker.after root).state = .awaitingType)
    (directives : ∀ m ∈ mid, m.next.isPlain = false) :
    (runCalls root p visits).state = .awaitingType := by
  induction visits generalizing p pre with
  | nil => simp [calls] at run
  | cons v visits ih =>
    rw [calls] at run
    cases pre with
    | nil =>
      simp only [List.nil_append, List.cons.injEq] at run
      obtain ⟨rfl, rfl⟩ := run
      exact awaiting_of_directives (p := Call.after root ⟨p, v.1, v.2⟩) waits directives
    | cons first pre =>
      simp only [List.cons_append, List.cons.injEq] at run
      exact ih run.2

/-- While a scan waits for a record, the first declaration it meets that is no directive is the
first one of the forest it walks. -/
theorem find?_isPlain_of_awaiting (root : Path) (above : Node) (f : Forest Node)
    (hs : p.state = .awaitingType) :
    ((calls root p (f.visited (step root) above p)).find? (·.next.isPlain)).map
        (fun c => (c.next, c.above)) =
      (f.roots.find? Node.isPlain).map fun n => (n, above) := by
  induction f generalizing p with
  | nil => rfl
  | cons n kids rest _ ihr =>
    rw [visited_cons, calls, Forest.roots]
    cases hn : n.isPlain with
    | true => simp [hn]
    | false =>
      rw [if_pos (step_directive hn), List.find?_cons_of_neg (by simp [hn]),
        List.find?_cons_of_neg (by simp [hn])]
      exact ihr (awaiting_of_directive hs hn)

/-- A scan waits for a record since the last call that began to, and has met nothing but directives
since. -/
theorem exists_begins {visits : List (Node × Node)} {pre post : List Call} {c : Call}
    (run : calls root p visits = pre ++ c :: post) (hc : c.before.state = .awaitingType) :
    (p.state = .awaitingType ∧ ∀ m ∈ pre, m.next.isPlain = false) ∨
      ∃ early marker mid, pre = early ++ marker :: mid ∧ marker.begins root ∧
        ∀ m ∈ mid, m.next.isPlain = false := by
  induction visits generalizing p pre with
  | nil => simp [calls] at run
  | cons v visits ih =>
    rw [calls] at run
    cases pre with
    | nil =>
      simp only [List.nil_append, List.cons.injEq] at run
      rw [← run.1] at hc
      exact .inl ⟨hc, by simp⟩
    | cons first pre =>
      simp only [List.cons_append, List.cons.injEq] at run
      obtain ⟨rfl, run⟩ := run
      rcases ih run with ⟨waits, directives⟩ | ⟨early, marker, mid, rfl, begins, directives⟩
      · by_cases hp : p.state = .awaitingType
        · left
          refine ⟨hp, fun m hm => ?_⟩
          rcases List.mem_cons.mp hm with rfl | hm
          · exact not_isPlain_of_awaiting waits
          · exact directives m hm
        · exact .inr ⟨[], _, pre, rfl, ⟨hp, waits⟩, directives⟩
      · exact .inr ⟨_ :: early, marker, mid, rfl, begins, directives⟩

end Runs

/-- What becomes of a reflect directive that has `later` after it in its scope, when `found` is the
first declaration met after it that is no directive. -/
def Call.Resolves (t : DeclTree) (marker : Call) (later : Forest Node) (found : Option Call) :
    Prop :=
  match later.roots.find? Node.isPlain with
  | some n => found.map (fun c => (c.next, c.above)) = some (n, marker.above)
  | none => ∀ c, found = some c →
      ∃ scope, t.parent? scope = some c.above.id ∧ t.Encloses scope marker.above.id

/-- A reflect directive stands somewhere in a forest below `above`, and becomes what the rest of
its scope there makes of it. -/
def Call.ResolvesIn (t : DeclTree) (marker : Call) (above : Node) (f : Forest Node)
    (found : Option Call) : Prop :=
  ∃ earlier kids later,
    (marker.above = above ∧ f = earlier ++ .cons marker.next kids later ∨
      f.HasTree marker.above (earlier ++ .cons marker.next kids later)) ∧
    marker.Resolves t later found

section Resolution

variable {t : DeclTree} {marker : Call} {above n : Node} {kids siblings later : Forest Node}
  {found more : Option Call}

theorem Call.Resolves.or (h : marker.Resolves t later found)
    (climbs : found = none → ∀ c, more = some c →
      ∃ scope, t.parent? scope = some c.above.id ∧ t.Encloses scope marker.above.id) :
    marker.Resolves t later (found.or more) := by
  unfold Call.Resolves at h ⊢
  cases found with
  | some c => exact h
  | none =>
    cases hn : later.roots.find? Node.isPlain with
    | some n => simp [hn] at h
    | none => exact climbs rfl

theorem Call.ResolvesIn.of_siblings (h : marker.ResolvesIn t above siblings found) :
    marker.ResolvesIn t above (.cons n kids siblings) found := by
  obtain ⟨earlier, inner, later, ⟨scope, split⟩ | tree, resolves⟩ := h
  · exact ⟨.cons n kids earlier, inner, later, .inl ⟨scope, by rw [split]; rfl⟩, resolves⟩
  · exact ⟨earlier, inner, later, .inr (.inr (.inr tree)), resolves⟩

theorem Call.ResolvesIn.of_kids (h : marker.ResolvesIn t n kids found)
    (climbs : found = none → ∀ c, more = some c →
      ∃ scope, t.parent? scope = some c.above.id ∧ t.Encloses scope marker.above.id) :
    marker.ResolvesIn t above (.cons n kids siblings) (found.or more) := by
  obtain ⟨earlier, inner, later, ⟨scope, split⟩ | tree, resolves⟩ := h
  · exact ⟨earlier, inner, later, .inr (.inl ⟨scope.symm, split⟩), resolves.or climbs⟩
  · exact ⟨earlier, inner, later, .inr (.inr (.inl tree)), resolves.or climbs⟩

end Resolution

/-- After a directive come the declarations of its own scope. -/
theorem resolves_among {root : Path} {t : DeclTree} {marker : Call} (siblings : Forest Node)
    (waits : (marker.after root).state = .awaitingType) :
    marker.Resolves t siblings
      ((calls root (marker.after root)
        (siblings.visited (step root) marker.above (marker.after root))).find?
          (·.next.isPlain)) := by
  have found := find?_isPlain_of_awaiting root marker.above siblings waits
  unfold Call.Resolves
  cases hn : siblings.roots.find? Node.isPlain with
  | some m =>
    rw [hn] at found
    exact found
  | none =>
    rw [hn, Option.map_none, Option.map_eq_none_iff] at found
    intro c hc
    rw [found] at hc
    cases hc

/-- A directive that is still pending at the end of what stands below `n` goes on to the siblings
of `n`. -/
theorem climbs_to_siblings {root : Path} {t : DeclTree} {n above : Node}
    {kids siblings : Forest Node} {q : Progress} {pre mid : List Call} {marker c : Call}
    (parent : t.parent? n.id = some above.id)
    (parents : ∀ e ∈ kids.edges n, t.parent? e.1.id = some e.2.id)
    (run : calls root q (kids.visited (step root) n q) = pre ++ marker :: mid)
    (waits : (marker.after root).state = .awaitingType)
    (directives : ∀ m ∈ mid, m.next.isPlain = false)
    (found : (calls root (runCalls root q (kids.visited (step root) n q))
      (siblings.visited (step root) above
        (runCalls root q (kids.visited (step root) n q)))).find? (·.next.isPlain) = some c) :
    ∃ scope, t.parent? scope = some c.above.id ∧ t.Encloses scope marker.above.id := by
  have first := find?_isPlain_of_awaiting root above siblings (awaiting_since run waits directives)
  rw [found] at first
  obtain ⟨m, -, climbed⟩ := Option.map_eq_some_iff.mp first.symm
  have called : marker ∈ calls root q (kids.visited (step root) n q) := by
    rw [run]
    exact List.mem_append_right _ List.mem_cons_self
  have edge := mem_edges_of_mem_calls called
  refine ⟨n.id, ?_, DeclTree.encloses_of_mem_edges parents edge⟩
  rw [← (Prod.mk.inj climbed).2]
  exact parent

theorem resolves_of_awaiting {root : Path} {t : DeclTree} {f : Forest Node} {above : Node}
    {p : Progress} {pre rest : List Call} {marker : Call}
    (parents : ∀ e ∈ f.edges above, t.parent? e.1.id = some e.2.id)
    (run : calls root p (f.visited (step root) above p) = pre ++ marker :: rest)
    (waits : (marker.after root).state = .awaitingType) :
    marker.ResolvesIn t above f (rest.find? (·.next.isPlain)) := by
  induction f generalizing above p pre rest with
  | nil => simp [Forest.visited, calls] at run
  | cons n kids siblings ihk ihr =>
    simp only [Forest.edges, List.mem_cons, List.mem_append] at parents
    have inKids : ∀ e ∈ kids.edges n, t.parent? e.1.id = some e.2.id :=
      fun e he => parents e (.inr (.inl he))
    have inSiblings : ∀ e ∈ siblings.edges above, t.parent? e.1.id = some e.2.id :=
      fun e he => parents e (.inr (.inr he))
    rw [visited_cons, calls] at run
    cases pre with
    | nil =>
      simp only [List.nil_append, List.cons.injEq] at run
      obtain ⟨rfl, rfl⟩ := run
      rw [if_pos (step_directive (not_isPlain_of_awaiting waits))]
      exact ⟨.nil, kids, siblings, .inl ⟨rfl, rfl⟩, resolves_among siblings waits⟩
    | cons first pre =>
      simp only [List.cons_append, List.cons.injEq] at run
      obtain ⟨-, run⟩ := run
      split at run
      · exact (ihr inSiblings run).of_siblings
      · rw [calls_append] at run
        generalize (step root p n above).1 = q at run
        -- The directive is met below `n`, or after it.
        rcases List.append_eq_append_iff.mp run with ⟨mid, -, later⟩ | ⟨mid, here, after⟩
        · exact (ihr inSiblings later).of_siblings
        · cases mid with
          | nil => exact (@ihr above _ [] rest inSiblings after.symm).of_siblings
          | cons c mid =>
            simp only [List.cons_append, List.cons.injEq] at after
            obtain ⟨rfl, rfl⟩ := after
            rw [List.find?_append]
            refine (ihk inKids here).of_kids fun none c found => ?_
            have directives : ∀ m ∈ mid, m.next.isPlain = false := by simpa using none
            exact climbs_to_siblings (parents (n, above) (.inl rfl)) inKids here waits directives
              found

/-- A record is bound by the reflect directive before it, with nothing but directives met between
the two. It is the first other declaration after the directive in the directive's scope; if the
scope has none, it comes after a declaration that the scope belongs to. -/
theorem bound_record_scope {root : Path} {t : DeclTree} {pre post : List Call} {c : Call}
    (run : log root t = pre ++ c :: post) (binds : c.binds root = true) :
    ∃ early marker mid earlier kids later,
      pre = early ++ marker :: mid ∧ marker.begins root ∧
      marker.directive? = some .reflectType ∧ (∀ m ∈ mid, m.next.isPlain = false) ∧
      t.forest marker.above.id = earlier ++ .cons marker.next kids later ∧
      (later.roots.find? Node.isPlain = some c.next ∧ c.above = marker.above ∨
        later.roots.find? Node.isPlain = none ∧ c.above.id < marker.above.id ∧
          ∃ scope, t.parent? scope = some c.above.id ∧ t.Encloses scope marker.above.id) := by
  have waits : c.before.state = .awaitingType := (of_decide_eq_true binds).1
  have plain : c.next.isPlain = true := by
    have fulfils : c.fulfils root .reflectType := binds
    exact Option.isNone_iff_eq_none.mpr fulfils.directive?
  rcases exists_begins run waits with ⟨start, -⟩ | ⟨early, marker, mid, rfl, begins, directives⟩
  · cases start
  have parents : ∀ e ∈ (t.forest 0).edges t.unit, t.parent? e.1.id = some e.2.id :=
    fun e he => (DeclTree.edge_spec he).2.2
  rw [List.append_assoc, List.cons_append] at run
  obtain ⟨earlier, kids, later, place, resolves⟩ := resolves_of_awaiting parents run begins.2
  have scope : t.forest marker.above.id = earlier ++ .cons marker.next kids later := by
    rcases place with ⟨top, split⟩ | tree
    · rw [top]
      exact split
    · exact DeclTree.forest_of_hasTree tree
  have found : (mid ++ c :: post).find? (·.next.isPlain) = some c := by
    rw [List.find?_append, List.find?_eq_none.mpr (by simpa using directives)]
    simp [plain]
  refine ⟨early, marker, mid, earlier, kids, later, rfl, begins, begins.directive?, directives,
    scope, ?_⟩
  rw [found] at resolves
  unfold Call.Resolves at resolves
  cases hn : later.roots.find? Node.isPlain with
  | some n =>
    rw [hn] at resolves
    obtain ⟨next, above⟩ := Prod.mk.inj (Option.some.inj resolves)
    exact .inl ⟨by rw [next], above⟩
  | none =>
    rw [hn] at resolves
    obtain ⟨scope, parent, encloses⟩ := resolves c rfl
    have lower := DeclTree.parent?_lt parent
    exact .inr ⟨rfl, Nat.lt_of_lt_of_le lower encloses.le, scope, parent, encloses⟩

section Trailing

def namedScope : Decl := ⟨.nameSpace, "n", ⟨⟨"/p/a.h"⟩, 1, 1⟩, {}, .nonMember⟩

def trailingMarker : Decl :=
  ⟨.function, Directive.reflectType.marker, ⟨⟨"/p/a.h"⟩, 1, 1⟩, {}, .nonMember⟩

def outerRecord : Decl := ⟨.structDef, "Foo", ⟨⟨"/p/a.h"⟩, 1, 1⟩, .plain "Foo", .nonMember⟩

def outerMember : Decl := ⟨.field, "a", ⟨⟨"/p/a.h"⟩, 1, 1⟩, .plain "int", .publicMember⟩

/-- A namespace that ends with a reflect directive, and a record after it. -/
def trailing : DeclTree :=
  .ofForest ⟨"/p/a.h"⟩
    (.cons namedScope (.leaves [trailingMarker]) (.cons outerRecord (.leaves [outerMember]) .nil))

theorem log_trailing :
    log ⟨"/p"⟩ trailing =
      [⟨{}, ⟨1, namedScope⟩, trailing.unit⟩, ⟨{}, ⟨2, trailingMarker⟩, ⟨1, namedScope⟩⟩] ++
        ⟨{ state := .awaitingType }, ⟨3, outerRecord⟩, trailing.unit⟩ ::
          [⟨{ state := .inside ⟨3, outerRecord⟩ }, ⟨4, outerMember⟩, ⟨3, outerRecord⟩⟩] := by
  decide +kernel

/-- The directive at the end of the namespace binds the record outside it. -/
theorem trailing_marker_binds_outside :
    (∃ early marker mid c post,
      log ⟨"/p"⟩ trailing = early ++ marker :: (mid ++ c :: post) ∧ marker.begins ⟨"/p"⟩ ∧
        (∀ m ∈ mid, ¬m.begins ⟨"/p"⟩) ∧ c.binds ⟨"/p"⟩ = true ∧
        marker.above = ⟨1, namedScope⟩ ∧ c.above = trailing.unit ∧ marker.above ≠ c.above) ∧
      (scan ⟨"/p"⟩ trailing).metadata.types = [⟨"Foo", [⟨"a", .plain, some "a.h"⟩]⟩] ∧
      (scan ⟨"/p"⟩ trailing).errors = [] := by
  refine ⟨⟨[⟨{}, ⟨1, namedScope⟩, trailing.unit⟩], _, [], _, _, log_trailing, ?_, ?_, ?_, rfl, rfl,
    ?_⟩, ?_, ?_⟩
  · exact ⟨by decide, by decide +kernel⟩
  · simp
  · decide +kernel
  · decide +kernel
  · decide +kernel
  · decide +kernel

theorem trailing_bound_record :
    Call.binds ⟨"/p"⟩ ⟨{ state := .awaitingType }, ⟨3, outerRecord⟩, trailing.unit⟩ = true ∧
    ∃ early marker mid earlier kids later,
      [(⟨{}, ⟨1, namedScope⟩, trailing.unit⟩ : Call),
          ⟨{}, ⟨2, trailingMarker⟩, ⟨1, namedScope⟩⟩] = early ++ marker :: mid ∧
      marker.begins ⟨"/p"⟩ ∧ marker.directive? = some .reflectType ∧
      (∀ m ∈ mid, m.next.isPlain = false) ∧
      trailing.forest marker.above.id = earlier ++ .cons marker.next kids later ∧
      (later.roots.find? Node.isPlain = some ⟨3, outerRecord⟩ ∧ trailing.unit = marker.above ∨
        later.roots.find? Node.isPlain = none ∧ trailing.unit.id < marker.above.id ∧
          ∃ scope, trailing.parent? scope = some trailing.unit.id ∧
            trailing.Encloses scope marker.above.id) :=
  ⟨by decide +kernel, bound_record_scope log_trailing (by decide +kernel)⟩

end Trailing

end Scan

end ReflectGen
