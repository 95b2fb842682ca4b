import ReflectGen.Proofs.FieldSource
import ReflectGen.Proofs.MemberAccess
import ReflectGen.Proofs.ScanStep

namespace ReflectGen

namespace Scan

open DeclTree (Node)

/-- A member of a reflectable record fits a field under the record's qualified name. -/
structure Registers (type : String) (f : Field) (record member : Decl) : Prop where
  reflectable : record.Reflectable
  canonical : record.type.canonical = type
  spelling : member.spelling = f.name
  access : member.access = .publicMember
  kind : member.kind = if f.kind = .method then .method else .field

/-- All registered fields are members of records, and an open record is reflectable. -/
structure Tracks (t : DeclTree) (p : Progress) : Prop where
  opened : ∀ record mark, p.state = .within record mark →
    record.decl.Reflectable ∧ t.get? record.id = some record.decl
  fields : ∀ type, ∀ f ∈ p.metadata.fieldsOf type,
    ∃ e ∈ (t.forest 0).edges t.unit, Registers type f e.2.decl e.1.decl

theorem State.within_inj {record record' : Node} {mark mark' : Option Mark}
    (h : State.within record mark = .within record' mark') : record = record' ∧ mark = mark' := by
  cases mark <;> cases mark' <;> simp_all

theorem fieldKind?_eq_some {mark : Option Mark} {d : Decl} {kind : FieldKind}
    (h : fieldKind? mark d = some kind) :
    d.access = .publicMember ∧ d.kind = if kind = .method then .method else .field := by
  unfold fieldKind? at h
  by_cases ha : d.access = .publicMember
  · rcases mark with _ | _ | _ <;> cases hk : d.kind <;> simp [ha, hk] at h <;> subst h <;>
      exact ⟨ha, rfl⟩
  · simp [ha] at h

section Step

variable {root : Path} {t : DeclTree} {next above record : Node} {mark : Option Mark}
  {p q r : Progress}

/-- A record stays open only for what stands right inside it. -/
theorem Leaves.within (h : Leaves next above p q) (hs : q.state = .within record mark) :
    p.state = .within record mark ∧ record.id = above.id := by
  cases h with
  | outside h =>
    rcases h with h | h <;> cases mark <;> simp [h] at hs
  | stays record' mark' hp h =>
    obtain ⟨rfl, rfl⟩ := State.within_inj (hp.symm.trans hs)
    exact ⟨hs, h⟩
  | ends => cases mark <;> simp at hs
  | cuts => cases mark <;> simp [Progress.fail] at hs

/-- A record is open after an action if it was before, or if the action opened it. -/
theorem Acts.within (h : Acts root next p r) (hs : r.state = .within record mark) :
    (∃ mark, p.state = .within record mark) ∨ record = next ∧ next.decl.Reflectable := by
  -- The open record of the new state is named by what the case says of the old one.
  have kept : ∀ record' mark', p.state = .within record' mark' → (∃ mark'',
      r.state = .within record' mark'') → ∃ mark, p.state = .within record mark := by
    rintro record' mark' hp ⟨mark'', hr⟩
    obtain ⟨rfl, -⟩ := State.within_inj (hr.symm.trans hs)
    exact ⟨mark', hp⟩
  cases h with
  | begins => cases mark <;> simp at hs
  | marks hd hp => exact .inl (kept _ none hp ⟨some _, rfl⟩)
  | refuses => exact .inl ⟨mark, hs⟩
  | passes => exact .inl ⟨mark, hs⟩
  | binds hd hp hr =>
    obtain ⟨rfl, -⟩ := State.within_inj (show State.within next none = .within record mark from hs)
    exact .inr ⟨rfl, hr⟩
  | declines => cases mark <;> simp [Progress.fail] at hs
  | captures hd hp hk => exact .inl (kept _ _ hp ⟨none, rfl⟩)
  | misfits hd hp hk => exact .inl (kept _ (some _) hp ⟨none, rfl⟩)
  | skips => exact .inl ⟨mark, hs⟩

theorem tracks_step (he : (next, above) ∈ (t.forest 0).edges t.unit) (hp : Tracks t p)
    (hl : Leaves next above p q) (ha : Acts root next q r) : Tracks t r := by
  obtain ⟨hnext, habove, -⟩ := DeclTree.edge_spec he
  refine ⟨fun record mark hs => ?_, fun type f hf => ?_⟩
  · rcases ha.within hs with ⟨mark, hq⟩ | ⟨rfl, hr⟩
    · exact hp.opened record mark (hl.within hq).1
    · exact ⟨hr, hnext⟩
  · rcases ha.metadata_eq with same | ⟨record, mark, kind, hq, hk, added⟩
    · rw [same, hl.metadata_eq] at hf
      exact hp.fields type f hf
    · rw [added, Metadata.fieldsOf_recordType, hl.metadata_eq] at hf
      rcases (Metadata.mem_fieldsOf_addField _ _ _ _ _).mp hf with hf | ⟨-, rfl, rfl⟩
      · exact hp.fields type f hf
      · -- The record is still open, so it is the one right above the new member.
        obtain ⟨hstate, hid⟩ := hl.within hq
        obtain ⟨hr, hrecord⟩ := hp.opened record mark hstate
        have same : record.decl = above.decl := by
          rw [hid, habove] at hrecord
          exact (Option.some.inj hrecord).symm
        obtain ⟨hpublic, hkind⟩ := fieldKind?_eq_some hk
        refine ⟨(next, above), he, ?_, ?_, rfl, hpublic, hkind⟩
        · rw [← same]
          exact hr
        · rw [same]

end Step

theorem tracks_start (t : DeclTree) : Tracks t {} := by
  refine ⟨fun record mark hs => ?_, fun type f hf => ?_⟩
  · cases mark <;> simp at hs
  · simp [Metadata.fieldsOf, Metadata.type?] at hf

theorem tracks_after {root : Path} {t : DeclTree} {p : Progress} {next above : Node}
    (he : (next, above) ∈ (t.forest 0).edges t.unit) (h : Tracks t p) :
    Tracks t (step root p next above).1 := by
  obtain ⟨q, leaves, acts⟩ := step_spec root p next above
  exact tracks_step he h leaves acts

/-- Every registered field is a public member of a reflectable record of its tree. -/
theorem registers_of_mem_fieldsOf {root : Path} {t : DeclTree} {type : String} {f : Field}
    (h : f ∈ (scan root t).metadata.fieldsOf type) :
    ∃ e ∈ (t.forest 0).edges t.unit, Registers type f e.2.decl e.1.decl := by
  have tracked : Tracks t (walk root t) :=
    walk_invariant (Tracks t) (tracks_start t) fun _ _ _ => tracks_after
  rw [metadata_scan] at h
  exact tracked.fields type f h

end Scan

namespace Parse.SourceFile

variable (src : SourceFile) (parsed : Children)

section

variable {member record : DeclTree.Node}

theorem access_of_mem_edges
    (he : (member, record) ∈ ((src.declTree parsed).forest 0).edges (src.declTree parsed).unit)
    (hr : record.decl.kind.isRecord) (hm : member.decl.kind = .field) :
    ∃ start before kids after, record.decl.kind.startAccess? = some start ∧
      (src.declTree parsed).forest record.id = before ++ .cons member kids after ∧
      member.decl.access = (before.map DeclTree.Node.decl).inForce start := by
  obtain ⟨before, kids, after, ⟨rfl, -⟩ | ht⟩ := Forest.split_of_mem_edges he
  · simp [DeclTree.unit, Decl.ofFile, DeclKind.isRecord] at hr
  · obtain ⟨start, hs⟩ : ∃ start, record.decl.kind.startAccess? = some start := by
      cases hk : record.decl.kind <;> simp [hk, DeclKind.isRecord] at hr <;>
        exact ⟨_, rfl⟩
    -- The numbered record is one of the lowered forest, whose bodies are all governed.
    have lowered := ht.map DeclTree.Node.decl
    unfold declTree at lowered
    rw [DeclTree.map_forest_ofForest, Forest.map_append] at lowered
    have body := (src.lower_threads .items {} .nonMember parsed).1.of_hasTree lowered hs
    have here := (Forest.governed_of_append body).1
    refine ⟨start, before, kids, after, hs, DeclTree.forest_of_hasTree ht, ?_⟩
    exact here _ (by simp [hm, Forest.governedAccess?])

theorem source_of_mem_edges
    (he : (member, record) ∈ ((src.declTree parsed).forest 0).edges (src.declTree parsed).unit)
    (hm : member.decl.kind = .field) :
    ∃ t, src.Kept parsed t ∧ src.DeclaresField t member.decl := by
  have lowered := Forest.mem_preorder_map DeclTree.Node.decl (Forest.mem_preorder_of_mem_edges he)
  unfold declTree at lowered
  rw [DeclTree.map_forest_ofForest] at lowered
  exact src.field_of_mem_lower hm .items {} .nonMember parsed (fun _ ht => .top ht) lowered

end

/-- A member that was meant to be registered as a field under a type's name. It stands right inside
a reflectable struct or class. A data member moreover stems from a kept, non-static field
declaration, at a place of the record's body where public access is in force. -/
structure IntendedMember (type : String) (f : Field) (record member : DeclTree.Node) : Prop where
  record_found : (src.declTree parsed).get? record.id = some record.decl
  member_found : (src.declTree parsed).get? member.id = some member.decl
  inside : (src.declTree parsed).parent? member.id = some record.id
  registers : Scan.Registers type f record.decl member.decl
  inForce : f.kind ≠ .method → ∃ start before kids after,
    record.decl.kind.startAccess? = some start ∧
      (src.declTree parsed).forest record.id = before ++ .cons member kids after ∧
      (before.map DeclTree.Node.decl).inForce start = .publicMember
  source : f.kind ≠ .method → ∃ t, src.Kept parsed t ∧ src.DeclaresField t member.decl

theorem registered_members_intended (root : Path) :
    ∀ r ∈ (scan root (src.declTree parsed)).metadata.types, ∀ f ∈ r.fields,
      ∃ record member, src.IntendedMember parsed r.name f record member := by
  intro r hr f hf
  rw [← (scan_sound root (src.declTree parsed)).fieldsOf_name hr] at hf
  obtain ⟨⟨member, record⟩, he, registers⟩ := Scan.registers_of_mem_fieldsOf hf
  obtain ⟨hmember, hrecord, hparent⟩ := DeclTree.edge_spec he
  have isField : f.kind ≠ .method → member.decl.kind = .field := by
    intro hk
    rw [registers.kind, if_neg hk]
  refine ⟨record, member, hrecord, hmember, hparent, registers, fun hk => ?_, fun hk => ?_⟩
  · obtain ⟨start, before, kids, after, hs, hbody, ha⟩ :=
      src.access_of_mem_edges parsed he registers.reflectable.1 (isField hk)
    exact ⟨start, before, kids, after, hs, hbody, ha.symm.trans registers.access⟩
  · exact src.source_of_mem_edges parsed he (isField hk)

/-- A reflected class with one member before its public label and one after it. -/
def labelledClass : SourceFile :=
  ⟨⟨"a/c.h"⟩,
    ("void " ++ Directive.reflectType.marker ++ "();class C{int a;public:int b;};").toList⟩

def labelledClassTree : Children :=
  .cons ⟨.declaration, true, .plain, 0, 47⟩
    (.cons ⟨.other, true, .type, 0, 4⟩ .nil
      (.cons ⟨.functionDeclarator, true, .declarator, 5, 46⟩
        (.leaves [⟨.identifier, true, .declarator, 5, 44⟩]) .nil))
    (.cons ⟨.record .classRecord, true, .plain, 47, 75⟩
      (.cons ⟨.identifier, true, .name, 53, 54⟩ .nil
        (.cons ⟨.other, true, .body, 54, 75⟩
          (.cons ⟨.fieldDeclaration, true, .plain, 55, 61⟩
            (.leaves [⟨.other, true, .type, 55, 58⟩, ⟨.identifier, true, .declarator, 59, 60⟩])
            (.cons ⟨.accessSpecifier, true, .plain, 61, 67⟩ .nil
              (.cons ⟨.fieldDeclaration, true, .plain, 68, 74⟩
                (.leaves [⟨.other, true, .type, 68, 71⟩, ⟨.identifier, true, .declarator, 72, 73⟩])
                .nil)))
          .nil))
      .nil)

theorem labelledClass_registers_public_member :
    (scan ⟨"a"⟩ (labelledClass.declTree labelledClassTree)).metadata.types =
        [⟨"C", [⟨"b", .plain, some "c.h"⟩]⟩] ∧
      ∃ record member, labelledClass.IntendedMember labelledClassTree "C"
        ⟨"b", .plain, some "c.h"⟩ record member := by
  have types : (scan ⟨"a"⟩ (labelledClass.declTree labelledClassTree)).metadata.types =
      [⟨"C", [⟨"b", .plain, some "c.h"⟩]⟩] := by
    decide +kernel
  refine ⟨types, ?_⟩
  apply registered_members_intended labelledClass labelledClassTree ⟨"a"⟩
    ⟨"C", [⟨"b", .plain, some "c.h"⟩]⟩
  · rw [types]
    exact List.mem_singleton_self _
  · exact List.mem_singleton_self _

end Parse.SourceFile

end ReflectGen
