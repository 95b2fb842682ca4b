import ReflectGen.Proofs.CapacityLines
import ReflectGen.Proofs.DirectiveAccount
import ReflectGen.Proofs.IntendedMembers
import ReflectGen.Proofs.StoreViews
import ReflectGen.Proofs.StringInstances

namespace ReflectGen

namespace Scan

open DeclTree (Node)

/-- The scan accepts the declaration as a member of the record it stands in. -/
def Call.Accepts (c : Call) : Prop :=
  c.directive? = none ∧ ∃ record mark, c.before.state = .within record mark ∧
    record.id = c.above.id ∧ (fieldKind? mark c.next.decl).isSome

/-- A declaration fits as a member of the open record. -/
def State.Takes (s : State) (d : Decl) : Prop :=
  Directive.ofMarker? d.spelling = none ∧
    ∃ record mark, s = .within record mark ∧ (fieldKind? mark d).isSome

section Step

variable {root : Path} {next above record : Node} {mark : Option Mark} {p q r : Progress}

theorem Leaves.eq_of_within (h : Leaves next above p q) (hs : p.state = .within record mark)
    (hid : record.id = above.id) : q = p := by
  cases h with
  | outside => rfl
  | stays => rfl
  | @ends record' hp other =>
    have inside : p.state = .within record' none := hp
    obtain ⟨rfl, -⟩ := State.within_inj (inside.symm.trans hs)
    exact absurd hid other
  | @cuts record' mark' hp other =>
    have inside : p.state = .within record' (some mark') := hp
    obtain ⟨rfl, -⟩ := State.within_inj (inside.symm.trans hs)
    exact absurd hid other

/-- Once a record is left that the declaration does not stand in, the state tells acceptance. -/
theorem Leaves.accepts_iff (h : Leaves next above p q) :
    Call.Accepts ⟨p, next, above⟩ ↔ q.state.Takes next.decl := by
  constructor
  · rintro ⟨plain, record, mark, hs, hid, fits⟩
    rw [← h.eq_of_within hs hid] at hs
    exact ⟨plain, record, mark, hs, fits⟩
  · rintro ⟨plain, record, mark, hs, fits⟩
    obtain ⟨before, hid⟩ := h.within hs
    exact ⟨plain, record, mark, before, hid, fits⟩

theorem not_takes_of_directive {d : Directive}
    (hd : Directive.ofMarker? next.decl.spelling = some d) : ¬q.state.Takes next.decl := by
  rintro ⟨plain, -⟩
  rw [hd] at plain
  cases plain

theorem not_takes_outside (hs : q.state = .scanning ∨ q.state = .awaitingType) :
    ¬q.state.Takes next.decl := by
  rintro ⟨-, record, mark, within, -⟩
  rcases hs with hs | hs <;> cases mark <;> simp [hs] at within

theorem not_takes_of_unfit (hs : q.state = .within record mark)
    (hk : fieldKind? mark next.decl = none) : ¬q.state.Takes next.decl := by
  rintro ⟨-, record', mark', within, fits⟩
  obtain ⟨rfl, rfl⟩ := State.within_inj (hs.symm.trans within)
  simp [hk] at fits

/-- A declaration that fits is captured, and brings the first capacity of its type. -/
theorem Acts.mem_capacities (h : Acts root next q r) (n : Nat) :
    n ∈ r.metadata.capacities.elems ↔
      n ∈ q.metadata.capacities.elems ∨
        q.state.Takes next.decl ∧ TypePattern.MentionsFirst next.decl.type.spelling n := by
  have nothing (refused : ¬q.state.Takes next.decl) :
      n ∈ q.metadata.capacities.elems ↔ n ∈ q.metadata.capacities.elems ∨
        q.state.Takes next.decl ∧ TypePattern.MentionsFirst next.decl.type.spelling n :=
    (or_iff_left fun taken => refused taken.1).symm
  cases h with
  | begins hd => exact nothing (not_takes_of_directive hd)
  | marks hd => exact nothing (not_takes_of_directive hd)
  | refuses hd => exact nothing (not_takes_of_directive hd)
  | passes _ hs => exact nothing (not_takes_outside (.inl hs))
  | binds _ hs => exact nothing (not_takes_outside (.inr hs))
  | declines _ hs => exact nothing (not_takes_outside (.inr hs))
  | captures hd hs hk =>
    have taken : q.state.Takes next.decl := ⟨hd, _, _, hs, by rw [hk]; rfl⟩
    simp only [taken, true_and, Progress.capture]
    rw [Metadata.mem_capacities_recordType, (Metadata.instances_addField _ _ _).1]
  | @misfits record mark _ hs hk =>
    have within : q.state = .within record (some mark) := hs
    exact nothing (not_takes_of_unfit within hk)
  | @skips record _ hs hk =>
    have within : q.state = .within record none := hs
    exact nothing (not_takes_of_unfit within hk)

end Step

theorem Call.mem_capacities_after (root : Path) (c : Call) (n : Nat) :
    n ∈ (c.after root).metadata.capacities.elems ↔
      n ∈ c.before.metadata.capacities.elems ∨
        c.Accepts ∧ TypePattern.MentionsFirst c.next.decl.type.spelling n := by
  obtain ⟨q, leaves, acts⟩ := step_spec root c.before c.next c.above
  rw [leaves.accepts_iff, ← leaves.metadata_eq]
  exact acts.mem_capacities n

theorem mem_capacities_runCalls (root : Path) (p : Progress) (visits : List (Node × Node))
    (n : Nat) :
    n ∈ (runCalls root p visits).metadata.capacities.elems ↔
      n ∈ p.metadata.capacities.elems ∨ ∃ c ∈ calls root p visits,
        c.Accepts ∧ TypePattern.MentionsFirst c.next.decl.type.spelling n := by
  induction visits generalizing p with
  | nil => simp [runCalls, calls]
  | cons v visits ih =>
    have first := Call.mem_capacities_after root ⟨p, v.1, v.2⟩ n
    have rest := ih (step root p v.1 v.2).1
    rw [calls, List.exists_mem_cons_iff, ← or_assoc, ← first]
    exact rest

/-- The capacities of a file are those that its accepted members bring. -/
theorem mem_capacities_scan (root : Path) (t : DeclTree) (n : Nat) :
    n ∈ (scan root t).metadata.capacities.elems ↔
      ∃ c ∈ log root t, c.Accepts ∧ TypePattern.MentionsFirst c.next.decl.type.spelling n := by
  rw [metadata_scan, walk_eq_runCalls, mem_capacities_runCalls]
  exact or_iff_right List.not_mem_nil

end Scan

/-- A file registers a capacity: that of data paths, or one that an accepted member brings. -/
def BringsCapacity (root : Path) (t : DeclTree) (n : Nat) : Prop :=
  n = 64 ∨ ∃ c ∈ Scan.log root t, c.Accepts ∧
    TypePattern.MentionsFirst c.next.decl.type.spelling n

section Written

variable (root : Path) (t : DeclTree) (n : Nat)

theorem bringsCapacity_iff :
    BringsCapacity root t n ↔ n = 64 ∨ n ∈ (scan root t).metadata.capacities.elems := by
  rw [BringsCapacity, Scan.mem_capacities_scan]

/-- The registration file of a scan has the two lines of each capacity that an accepted member has
in the first string instance of its type. Where no name holds a line feed they stand once, and those
of any other capacity do not stand there. -/
theorem accepted_capacities_written :
    (BringsCapacity root t n →
      1 ≤ Emit.lineCount (Emit.render (scan root t).metadata) (Emit.openingLine n) ∧
        1 ≤ Emit.lineCount (Emit.render (scan root t).metadata) (Emit.conversionLine n)) ∧
    ((scan root t).metadata.OneLine →
      (BringsCapacity root t n →
        Emit.lineCount (Emit.render (scan root t).metadata) (Emit.openingLine n) = 1 ∧
          Emit.lineCount (Emit.render (scan root t).metadata) (Emit.conversionLine n) = 1) ∧
      (¬BringsCapacity root t n →
        Emit.lineCount (Emit.render (scan root t).metadata) (Emit.openingLine n) = 0 ∧
          Emit.lineCount (Emit.render (scan root t).metadata) (Emit.conversionLine n) = 0)) := by
  rw [bringsCapacity_iff]
  refine ⟨Emit.one_le_lineCount, fun oneLine => ⟨fun brings => ?_, fun others => ?_⟩⟩
  · have lines := Emit.lineCount_capacity n oneLine
    rw [if_pos brings] at lines
    exact lines
  · have lines := Emit.lineCount_capacity n oneLine
    rw [if_neg others] at lines
    exact lines

end Written

section StringPair

def pairDirective : Decl :=
  ⟨.function, Directive.reflectType.marker, ⟨⟨"/p/a.h"⟩, 1, 1⟩, {}, .nonMember⟩

def pairRecord : Decl := ⟨.structDef, "Foo", ⟨⟨"/p/a.h"⟩, 1, 1⟩, .plain "Foo", .nonMember⟩

def pairMember : Decl :=
  ⟨.field, "a", ⟨⟨"/p/a.h"⟩, 1, 1⟩, .plain "std::pair<SerializedString<8>, SerializedString<16>>",
    .publicMember⟩

/-- A record with one member, whose type holds two string instances. -/
def stringPair : DeclTree :=
  .ofForest ⟨"/p/a.h"⟩ (.cons pairDirective .nil (.cons pairRecord (.leaves [pairMember]) .nil))

theorem stringPair_call_mem :
    ⟨{ state := .inside ⟨2, pairRecord⟩ }, ⟨3, pairMember⟩, ⟨2, pairRecord⟩⟩ ∈
      Scan.log ⟨"/p"⟩ stringPair := by
  decide

theorem stringPair_call_accepts :
    Scan.Call.Accepts
      ⟨{ state := .inside ⟨2, pairRecord⟩ }, ⟨3, pairMember⟩, ⟨2, pairRecord⟩⟩ :=
  ⟨by decide, ⟨2, pairRecord⟩, none, rfl, rfl, rfl⟩

theorem stringPair_oneLine : (scan ⟨"/p"⟩ stringPair).metadata.OneLine :=
  ⟨by decide, by decide +kernel, by decide +kernel, by decide +kernel⟩

/-- Of the two capacities in the type of an accepted member, the second is not written. -/
theorem stringPair_second_unwritten :
    (∃ c ∈ Scan.log ⟨"/p"⟩ stringPair, c.Accepts ∧
      TypePattern.Mentions c.next.decl.type.spelling 16) ∧
    (scan ⟨"/p"⟩ stringPair).errors = [] ∧
    Emit.lineCount (Emit.render (scan ⟨"/p"⟩ stringPair).metadata) (Emit.openingLine 16) = 0 ∧
    Emit.lineCount (Emit.render (scan ⟨"/p"⟩ stringPair).metadata) (Emit.conversionLine 16) =
      0 := by
  have mentions : TypePattern.Mentions pairMember.type.spelling 16 := by
    refine ⟨"std::pair<SerializedString<8>, ".toList, "SerializedString<16>>".toList, "16".toList,
      ?_, TypePattern.capacityDigits?_eq_some_iff.mp ?_, TypePattern.capacity?_eq_some_iff.mp ?_⟩
    · decide
    · decide
    · decide
  have unregistered :
      ¬(16 = 64 ∨ 16 ∈ (scan ⟨"/p"⟩ stringPair).metadata.capacities.elems) := by
    decide
  have lines := Emit.lineCount_capacity 16 stringPair_oneLine
  rw [if_neg unregistered] at lines
  exact ⟨⟨_, stringPair_call_mem, stringPair_call_accepts, mentions⟩, by decide, lines⟩

theorem stringPair_first_written :
    BringsCapacity ⟨"/p"⟩ stringPair 8 ∧ (scan ⟨"/p"⟩ stringPair).metadata.OneLine ∧
    Emit.lineCount (Emit.render (scan ⟨"/p"⟩ stringPair).metadata) (Emit.openingLine 8) = 1 ∧
    Emit.lineCount (Emit.render (scan ⟨"/p"⟩ stringPair).metadata) (Emit.conversionLine 8) = 1 := by
  have first : TypePattern.MentionsFirst pairMember.type.spelling 8 := by
    rw [← TypePattern.fixedString_mem_classify]
    decide
  have brings : BringsCapacity ⟨"/p"⟩ stringPair 8 :=
    .inr ⟨_, stringPair_call_mem, stringPair_call_accepts, first⟩
  have written := accepted_capacities_written ⟨"/p"⟩ stringPair 8
  exact ⟨brings, stringPair_oneLine, (written.2 stringPair_oneLine).1 brings⟩

end StringPair

end ReflectGen
