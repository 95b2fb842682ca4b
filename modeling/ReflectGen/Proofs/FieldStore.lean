import ReflectGen.Metadata

namespace ReflectGen

namespace TypeRecord

@[simp] theorem name_insert (r : TypeRecord) (f : Field) : (r.insert f).name = r.name := by
  unfold insert
  split <;> rfl

theorem fields_insert_of_none {r : TypeRecord} {f : Field} (h : r.field? f.name = none) :
    (r.insert f).fields = r.fields ++ [f] := by
  simp [insert, h]

end TypeRecord

namespace Metadata

def typeNames (m : Metadata) : List String := m.types.map TypeRecord.name

/-- The fields of a type, in order; none if the type is not registered. -/
def fieldsOf (m : Metadata) (type : String) : List Field := (m.type? type).elim [] TypeRecord.fields

theorem field?_eq_find? (m : Metadata) (type name : String) :
    m.field? type name = (m.fieldsOf type).find? (·.name == name) := by
  unfold field? fieldsOf
  cases m.type? type <;> rfl

theorem isSome_type?_iff (m : Metadata) (type : String) :
    (m.type? type).isSome ↔ type ∈ m.typeNames := by
  simp [type?, typeNames]

theorem mem_typeNames_of_isSome_field? {m : Metadata} {type name : String}
    (h : (m.field? type name).isSome) : type ∈ m.typeNames := by
  rw [← isSome_type?_iff]
  unfold field? at h
  cases ht : m.type? type with
  | none => simp [ht] at h
  | some r => rfl

section InsertField

variable (type : String) (f : Field) (ts : List TypeRecord)

theorem names_insertField :
    (insertField type f ts).map TypeRecord.name =
      if type ∈ ts.map TypeRecord.name then ts.map TypeRecord.name
      else ts.map TypeRecord.name ++ [type] := by
  induction ts with
  | nil => rfl
  | cons r ts ih =>
    by_cases hr : r.name = type
    · simp [insertField, hr]
    · have hne : ¬type = r.name := fun h => hr h.symm
      simp only [insertField, hr, if_false, List.map_cons, ih, List.mem_cons, hne, false_or]
      split <;> simp

theorem find?_insertField_of_ne {other : String} (h : other ≠ type) :
    (insertField type f ts).find? (·.name == other) = ts.find? (·.name == other) := by
  have hne : (type == other) = false := by simpa using h.symm
  induction ts with
  | nil => simp [insertField, hne]
  | cons r ts ih =>
    by_cases hr : r.name = type
    · simp [insertField, hr, hne]
    · simp only [insertField, hr, if_false, List.find?_cons, ih]

theorem find?_insertField_self :
    (insertField type f ts).find? (·.name == type) =
      some (((ts.find? (·.name == type)).getD ⟨type, []⟩).insert f) := by
  induction ts with
  | nil => simp [insertField, TypeRecord.insert, TypeRecord.field?]
  | cons r ts ih =>
    by_cases hr : r.name = type
    · simp [insertField, hr]
    · have hne : (r.name == type) = false := by simpa using hr
      simp only [insertField, hr, if_false, List.find?_cons, hne, ih]

end InsertField

section AddField

variable (m : Metadata) (type : String) (f : Field)

theorem addField_of_isSome {m : Metadata} {type : String} {f : Field}
    (h : (m.field? type f.name).isSome) : (m.addField type f).1 = m := by
  simp [addField, h]

theorem typeNames_addField :
    (m.addField type f).1.typeNames =
      if type ∈ m.typeNames then m.typeNames else m.typeNames ++ [type] := by
  by_cases h : (m.field? type f.name).isSome
  · rw [addField_of_isSome h, if_pos (mem_typeNames_of_isSome_field? h)]
  · simp only [addField, h, Bool.false_eq_true, if_false]
    exact names_insertField type f m.types

theorem fieldsOf_addField_of_ne {other : String} (h : other ≠ type) :
    (m.addField type f).1.fieldsOf other = m.fieldsOf other := by
  unfold addField
  split
  · rfl
  · simp only [fieldsOf, type?, find?_insertField_of_ne type f m.types h]

theorem fieldsOf_addField_of_none {m : Metadata} {type : String} {f : Field}
    (h : m.field? type f.name = none) :
    (m.addField type f).1.fieldsOf type = m.fieldsOf type ++ [f] := by
  have absent : ((m.type? type).getD ⟨type, []⟩).field? f.name = none := by
    cases ht : m.type? type with
    | none => rfl
    | some r => simpa [field?, ht] using h
  have fields : ((m.type? type).getD ⟨type, []⟩).fields = m.fieldsOf type := by
    unfold fieldsOf
    cases m.type? type <;> rfl
  simp only [addField, h, Option.isSome_none, Bool.false_eq_true, if_false]
  rw [← fields, ← TypeRecord.fields_insert_of_none absent]
  simp only [fieldsOf, type?, find?_insertField_self, Option.elim_some]

theorem field?_addField (other name : String) :
    (m.addField type f).1.field? other name =
      (m.field? other name).or (if other = type ∧ name = f.name then some f else none) := by
  by_cases h : (m.field? type f.name).isSome
  · rw [addField_of_isSome h]
    by_cases hk : other = type ∧ name = f.name
    · obtain ⟨rfl, rfl⟩ := hk
      rw [Option.or_of_isSome h]
    · simp [hk]
  · have hnone : m.field? type f.name = none := by simpa using h
    by_cases ho : other = type
    · subst ho
      rw [field?_eq_find?, fieldsOf_addField_of_none hnone, List.find?_append, ← field?_eq_find?]
      congr 1
      by_cases hn : name = f.name
      · simp [hn]
      · have hne : (f.name == name) = false := by simpa using fun h => hn h.symm
        simp [hn, hne]
    · rw [field?_eq_find?, fieldsOf_addField_of_ne m type f ho, ← field?_eq_find?]
      simp [ho]

theorem mem_includes_addField (file : String) :
    file ∈ (m.addField type f).1.includes.elems ↔
      file ∈ m.includes.elems ∨ m.field? type f.name = none ∧ f.origin = some file := by
  by_cases h : (m.field? type f.name).isSome
  · have hne : m.field? type f.name ≠ none := Option.isSome_iff_ne_none.mp h
    simp [addField_of_isSome h, hne]
  · have hnone : m.field? type f.name = none := by simpa using h
    cases ho : f.origin with
    | none => simp [addField, hnone, ho]
    | some origin =>
      simp [addField, hnone, ho, SortedSet.mem_insert, or_comm, eq_comm]

theorem mem_fieldsOf_addField (other : String) (g : Field) :
    g ∈ (m.addField type f).1.fieldsOf other ↔
      g ∈ m.fieldsOf other ∨ m.field? type f.name = none ∧ other = type ∧ g = f := by
  by_cases hs : (m.field? type f.name).isSome
  · have hne : m.field? type f.name ≠ none := Option.isSome_iff_ne_none.mp hs
    rw [addField_of_isSome hs]
    simp [hne]
  · have hnone : m.field? type f.name = none := by simpa using hs
    by_cases ho : other = type
    · subst ho
      simp [fieldsOf_addField_of_none hnone, hnone]
    · simp [fieldsOf_addField_of_ne m type f ho, ho]

end AddField

@[simp] theorem types_recordType (m : Metadata) (spelling : String) :
    (m.recordType spelling).types = m.types := by
  unfold recordType
  induction TypePattern.classify spelling generalizing m with
  | nil => rfl
  | cons p ps ih =>
    rw [List.foldl_cons, ih]
    cases p <;> rfl

theorem typeNames_recordType (m : Metadata) (spelling : String) :
    (m.recordType spelling).typeNames = m.typeNames := by
  simp [typeNames]

theorem fieldsOf_recordType (m : Metadata) (spelling type : String) :
    (m.recordType spelling).fieldsOf type = m.fieldsOf type := by
  simp [fieldsOf, type?]

theorem field?_recordType (m : Metadata) (spelling type name : String) :
    (m.recordType spelling).field? type name = m.field? type name := by
  rw [field?_eq_find?, field?_eq_find?, fieldsOf_recordType]

/-- No type is registered twice or without fields, and no type has two fields of one name. -/
structure Sound (m : Metadata) : Prop where
  types_nodup : m.typeNames.Nodup
  fields_ne_nil : ∀ type ∈ m.typeNames, m.fieldsOf type ≠ []
  fields_nodup : ∀ type, ((m.fieldsOf type).map Field.name).Nodup

theorem sound_empty : Sound {} := ⟨.nil, by simp [typeNames], fun _ => .nil⟩

theorem not_mem_names_of_field?_eq_none {m : Metadata} {type name : String}
    (h : m.field? type name = none) : name ∉ (m.fieldsOf type).map Field.name := by
  rw [field?_eq_find?, List.find?_eq_none] at h
  rw [List.mem_map]
  rintro ⟨f, hf, rfl⟩
  exact h f hf (by simp)

namespace Sound

variable {m : Metadata}

theorem addField (h : m.Sound) (type : String) (f : Field) : (m.addField type f).1.Sound := by
  by_cases hs : (m.field? type f.name).isSome
  · rw [addField_of_isSome hs]
    exact h
  · have absent : m.field? type f.name = none := by simpa using hs
    refine ⟨?_, fun other hother => ?_, fun other => ?_⟩
    · rw [typeNames_addField]
      split
      · exact h.types_nodup
      · rename_i hnew
        refine List.nodup_append.mpr ⟨h.types_nodup, by simp, fun a ha b hb => ?_⟩
        rw [List.mem_singleton] at hb
        subst hb
        exact fun hab => hnew (hab ▸ ha)
    · by_cases ho : other = type
      · subst ho
        rw [fieldsOf_addField_of_none absent]
        simp
      · rw [fieldsOf_addField_of_ne m type f ho]
        apply h.fields_ne_nil
        rw [typeNames_addField] at hother
        split at hother
        · exact hother
        · simpa [ho] using hother
    · by_cases ho : other = type
      · subst ho
        rw [fieldsOf_addField_of_none absent, List.map_append]
        refine List.nodup_append.mpr ⟨h.fields_nodup other, by simp, fun a ha b hb => ?_⟩
        rw [List.map_singleton, List.mem_singleton] at hb
        subst hb
        exact fun hab => not_mem_names_of_field?_eq_none absent (hab ▸ ha)
      · rw [fieldsOf_addField_of_ne m type f ho]
        exact h.fields_nodup other

theorem recordType (h : m.Sound) (spelling : String) : (m.recordType spelling).Sound := by
  refine ⟨?_, ?_, ?_⟩
  · rw [typeNames_recordType]
    exact h.types_nodup
  · simpa only [typeNames_recordType, fieldsOf_recordType] using h.fields_ne_nil
  · simpa only [fieldsOf_recordType] using h.fields_nodup

/-- A registered type is the one that its name finds. -/
theorem type?_name (h : m.Sound) {r : TypeRecord} (hr : r ∈ m.types) :
    m.type? r.name = some r := by
  have nodup := h.types_nodup
  unfold typeNames at nodup
  unfold type?
  generalize m.types = ts at hr nodup ⊢
  induction ts with
  | nil => simp at hr
  | cons s rest ih =>
    rw [List.map_cons, List.nodup_cons] at nodup
    rcases List.mem_cons.mp hr with rfl | hr
    · simp
    · have hne : (s.name == r.name) = false := by
        have : s.name ≠ r.name := fun he => nodup.1 (he ▸ List.mem_map_of_mem hr)
        simpa using this
      rw [List.find?_cons, hne]
      exact ih hr nodup.2

theorem fieldsOf_name (h : m.Sound) {r : TypeRecord} (hr : r ∈ m.types) :
    m.fieldsOf r.name = r.fields := by
  simp [fieldsOf, h.type?_name hr]

end Sound

end Metadata

end ReflectGen
