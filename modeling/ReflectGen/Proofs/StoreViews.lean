import Mathlib.Data.List.Sort
import ReflectGen.Proofs.FirstFileWins

namespace ReflectGen

namespace SortedSet

variable {α : Type} [LT α] [StrictOrder α]

theorem ext_mem {s t : SortedSet α} (h : ∀ a, a ∈ s.elems ↔ a ∈ t.elems) : s = t := by
  have irrefl : Std.Irrefl (fun a b : α => a < b) := ⟨StrictOrder.irrefl⟩
  have antisymm : Std.Antisymm (fun a b : α => a < b) :=
    ⟨fun a b hab hba => absurd (StrictOrder.trans hab hba) (StrictOrder.irrefl a)⟩
  apply ext
  exact List.Pairwise.eq_of_mem_iff s.ascending t.ascending h

theorem union_insert [DecidableLT α] (s t : SortedSet α) (a : α) :
    s.union (t.insert a) = (s.union t).insert a := by
  apply ext_mem
  intro x
  rw [mem_union, mem_insert, mem_insert, mem_union, or_left_comm]

end SortedSet

namespace Metadata

theorem Sound.types_eq {m : Metadata} (h : m.Sound) :
    m.types = m.typeNames.map fun type => ⟨type, m.fieldsOf type⟩ := by
  have each : ∀ r ∈ m.types, r = (⟨r.name, m.fieldsOf r.name⟩ : TypeRecord) := by
    intro r hr
    rw [h.fieldsOf_name hr]
  rw [typeNames, List.map_map]
  calc m.types = m.types.map id := m.types.map_id.symm
    _ = _ := List.map_congr_left each

/-- Sound stores with the same views are the same store. -/
theorem Sound.ext {m n : Metadata} (hm : m.Sound) (hn : n.Sound)
    (names : m.typeNames = n.typeNames) (fields : ∀ type, m.fieldsOf type = n.fieldsOf type)
    (capacities : ∀ c, c ∈ m.capacities.elems ↔ c ∈ n.capacities.elems)
    (elements : ∀ e, e ∈ m.elements.elems ↔ e ∈ n.elements.elems)
    (includes : ∀ file, file ∈ m.includes.elems ↔ file ∈ n.includes.elems) : m = n := by
  have types : m.types = n.types := by
    rw [hm.types_eq, hn.types_eq, names]
    exact List.map_congr_left fun type _ => by rw [fields]
  have hc := SortedSet.ext_mem capacities
  have he := SortedSet.ext_mem elements
  have hi := SortedSet.ext_mem includes
  cases m
  cases n
  simp only at types hc he hi
  rw [types, hc, he, hi]

theorem Sound.merge {m : Metadata} (h : m.Sound) (x : Metadata) : (m.merge x).Sound := by
  have added : (m.addTypes x.types).Sound :=
    addTypes_invariant Sound h (fun m type f hm => hm.addField type f) x.types
  exact ⟨added.types_nodup, added.fields_ne_nil, added.fields_nodup⟩

theorem instances_addField (m : Metadata) (type : String) (f : Field) :
    (m.addField type f).1.capacities = m.capacities ∧
      (m.addField type f).1.elements = m.elements :=
  instances_addTypes m [⟨type, [f]⟩]

section Includes

variable (m : Metadata) (file : String)

theorem lacks_addField_of_ne (type : String) {f g : Field} (h : g.name ≠ f.name) :
    (m.addField type f).1.lacks type g = m.lacks type g := by
  simp [lacks, field?_addField, h]

theorem lacks_addFields_of_ne {type other : String} (fs : List Field) (h : other ≠ type) :
    (m.addFields type fs).lacks other = m.lacks other := by
  funext g
  simp only [lacks, field?_eq_find?, fieldsOf_addFields_of_ne m type h]

theorem mem_includes_addFields (type : String) {fs : List Field}
    (nodup : (fs.map Field.name).Nodup) :
    file ∈ (m.addFields type fs).includes.elems ↔
      file ∈ m.includes.elems ∨ ∃ f ∈ fs, m.lacks type f ∧ f.origin = some file := by
  induction fs generalizing m with
  | nil => simp [addFields]
  | cons f fs ih =>
    rw [List.map_cons, List.nodup_cons] at nodup
    have first : m.addFields type (f :: fs) = (m.addField type f).1.addFields type fs := rfl
    -- The later fields have other names, so the first one takes the place of none of them.
    have later : ∀ g ∈ fs, (m.addField type f).1.lacks type g = m.lacks type g := by
      intro g hg
      apply lacks_addField_of_ne
      exact fun he => nodup.1 (he ▸ List.mem_map_of_mem hg)
    rw [first, ih _ nodup.2, mem_includes_addField, or_assoc]
    apply or_congr_right
    rw [List.exists_mem_cons_iff]
    apply or_congr
    · simp [lacks]
    · apply exists_congr
      intro g
      apply and_congr_right
      intro hg
      rw [later g hg]

theorem mem_includes_addTypes {rs : List TypeRecord} (types : (rs.map TypeRecord.name).Nodup)
    (fields : ∀ r ∈ rs, (r.fields.map Field.name).Nodup) :
    file ∈ (m.addTypes rs).includes.elems ↔
      file ∈ m.includes.elems ∨
        ∃ r ∈ rs, ∃ f ∈ r.fields, m.lacks r.name f ∧ f.origin = some file := by
  induction rs generalizing m with
  | nil => simp [addTypes]
  | cons r rs ih =>
    rw [List.map_cons, List.nodup_cons] at types
    have first : m.addTypes (r :: rs) = (m.addFields r.name r.fields).addTypes rs := rfl
    have later : ∀ s ∈ rs, (m.addFields r.name r.fields).lacks s.name = m.lacks s.name := by
      intro s hs
      apply lacks_addFields_of_ne
      exact fun he => types.1 (he ▸ List.mem_map_of_mem hs)
    rw [first, ih _ types.2 fun s hs => fields s (List.mem_cons_of_mem r hs),
      mem_includes_addFields m file r.name (fields r List.mem_cons_self), or_assoc]
    apply or_congr_right
    rw [List.exists_mem_cons_iff]
    apply or_congr_right
    apply exists_congr
    intro s
    apply and_congr_right
    intro hs
    rw [later s hs]

theorem mem_includes_merge {x : Metadata} (h : x.Sound) :
    file ∈ (m.merge x).includes.elems ↔
      file ∈ m.includes.elems ∨
        ∃ type, ∃ f ∈ x.fieldsOf type, m.lacks type f ∧ f.origin = some file := by
  have nodup : ∀ r ∈ x.types, (r.fields.map Field.name).Nodup := by
    intro r hr
    rw [← h.fieldsOf_name hr]
    exact h.fields_nodup r.name
  rw [merge_eq]
  apply Iff.trans (mem_includes_addTypes m file h.types_nodup nodup)
  apply or_congr_right
  constructor
  · rintro ⟨r, hr, f, hf, new⟩
    exact ⟨r.name, f, by rw [h.fieldsOf_name hr]; exact hf, new⟩
  · rintro ⟨type, f, hf, new⟩
    unfold fieldsOf at hf
    cases ht : x.type? type with
    | none => simp [ht] at hf
    | some r =>
      have hr : r ∈ x.types := List.mem_of_find?_eq_some ht
      have name : r.name = type := by simpa using List.find?_some ht
      subst name
      exact ⟨r, hr, f, by simpa [ht] using hf, new⟩

end Includes

section Captures

variable {m x : Metadata} (hm : m.Sound) (hx : x.Sound) (type : String) (f : Field)

include hx

theorem field?_merge_eq_none {type : String} {f : Field} (new : x.field? type f.name = none) :
    (m.merge x).field? type f.name = none ↔ m.lacks type f := by
  simp [field?_merge m hx, new, lacks]

theorem typeNames_merge_addField :
    (m.merge (x.addField type f).1).typeNames = ((m.merge x).addField type f).1.typeNames := by
  rw [typeNames_merge m (hx.addField type f), typeNames_addField, typeNames_addField,
    typeNames_merge m hx]
  by_cases inLater : type ∈ x.typeNames <;> by_cases inEarlier : type ∈ m.typeNames <;>
    simp [inLater, inEarlier]

theorem fieldsOf_merge_addField {type : String} {f : Field} (new : x.field? type f.name = none)
    (other : String) :
    (m.merge (x.addField type f).1).fieldsOf other =
      ((m.merge x).addField type f).1.fieldsOf other := by
  rw [fieldsOf_merge m (hx.addField type f)]
  by_cases ho : other = type
  · subst ho
    rw [fieldsOf_addField_of_none new, List.filter_append, ← List.append_assoc,
      ← fieldsOf_merge m hx]
    have absent := field?_merge_eq_none (m := m) hx new
    by_cases hl : m.lacks other f
    · rw [fieldsOf_addField_of_none (absent.mpr hl), List.filter_cons_of_pos hl, List.filter_nil]
    · have had : ((m.merge x).field? other f.name).isSome :=
        Option.isSome_iff_ne_none.mpr fun hn => hl (absent.mp hn)
      rw [addField_of_isSome had, List.filter_cons_of_neg hl, List.filter_nil, List.append_nil]
  · rw [fieldsOf_addField_of_ne x type f ho, fieldsOf_addField_of_ne _ type f ho,
      fieldsOf_merge m hx]

theorem mem_includes_merge_addField {type : String} {f : Field}
    (new : x.field? type f.name = none) (file : String) :
    file ∈ (m.merge (x.addField type f).1).includes.elems ↔
      file ∈ ((m.merge x).addField type f).1.includes.elems := by
  rw [mem_includes_merge m file (hx.addField type f), mem_includes_addField,
    mem_includes_merge m file hx, field?_merge_eq_none hx new, or_assoc]
  apply or_congr_right
  simp only [mem_fieldsOf_addField, new, true_and]
  constructor
  · rintro ⟨other, g, hg | ⟨rfl, rfl⟩, lacking⟩
    · exact .inl ⟨other, g, hg, lacking⟩
    · exact .inr lacking
  · rintro (⟨other, g, hg, lacking⟩ | lacking)
    · exact ⟨other, g, .inl hg, lacking⟩
    · exact ⟨type, f, .inr ⟨rfl, rfl⟩, lacking⟩

include hm

/-- To capture a field and then merge is to merge and then capture it. -/
theorem merge_addField :
    m.merge (x.addField type f).1 = ((m.merge x).addField type f).1 := by
  cases hf : x.field? type f.name with
  | some g =>
    have had : (x.field? type f.name).isSome := by rw [hf]; rfl
    have kept : ((m.merge x).field? type f.name).isSome := by
      rw [field?_merge m hx, hf]
      cases m.field? type f.name <;> rfl
    rw [addField_of_isSome had, addField_of_isSome kept]
  | none =>
    have before := instances_addField x type f
    have after := instances_addField (m.merge x) type f
    apply Sound.ext (hm.merge _) ((hm.merge x).addField type f)
    · exact typeNames_merge_addField hx type f
    · exact fieldsOf_merge_addField hx hf
    · intro c
      rw [mem_capacities_merge, before.1, after.1, mem_capacities_merge]
    · intro e
      rw [mem_elements_merge, before.2, after.2, mem_elements_merge]
    · exact mem_includes_merge_addField hx hf

end Captures

theorem merge_empty (m : Metadata) : m.merge {} = m := rfl

theorem merge_record (m x : Metadata) (p : TypePattern) :
    m.merge (x.record p).1 = ((m.merge x).record p).1 := by
  cases p with
  | fixedString capacity => simp only [merge_eq, mergeInstances, record, SortedSet.union_insert]
  | sequence element => simp only [merge_eq, mergeInstances, record, SortedSet.union_insert]

theorem merge_recordType (m x : Metadata) (spelling : String) :
    m.merge (x.recordType spelling) = (m.merge x).recordType spelling := by
  unfold recordType
  induction TypePattern.classify spelling generalizing x with
  | nil => rfl
  | cons p ps ih => rw [List.foldl_cons, List.foldl_cons, ih, merge_record]

end Metadata

end ReflectGen
