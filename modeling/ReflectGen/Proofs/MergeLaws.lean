import ReflectGen.Proofs.StoreHistory

namespace ReflectGen

namespace Metadata

/-- A store of some history. -/
def Reachable (m : Metadata) : Prop := ∃ steps k, run steps k = m

section Reachable

variable {m : Metadata}

theorem Reachable.represented (h : m.Reachable) : ∃ s : IndexedStore, s.Represents m := by
  obtain ⟨steps, k, rfl⟩ := h
  obtain ⟨stores, -, all⟩ := IndexedStore.run_represents steps
  exact ⟨stores k, all k⟩

theorem Reachable.sound (h : m.Reachable) : m.Sound := by
  obtain ⟨s, hs, rfl⟩ := h.represented
  exact hs.sound

/-- The include that a field names is listed. -/
theorem Reachable.origin_listed (h : m.Reachable) {type file : String} {f : Field}
    (hf : f ∈ m.fieldsOf type) (origin : f.origin = some file) : file ∈ m.includes.elems := by
  obtain ⟨s, hs, rfl⟩ := h.represented
  obtain ⟨r, -, -, fields⟩ := IndexedStore.exists_record (List.ne_nil_of_mem hf)
  rw [fields] at hf
  obtain ⟨member, -, rfl⟩ := List.mem_map.mp hf
  exact hs.origins_listed _ file origin

end Reachable

/-- A store holds all of another: its fields by name, and its template instances. -/
structure Covers (m x : Metadata) : Prop where
  fields : ∀ type, ∀ f ∈ x.fieldsOf type, m.lacks type f = false
  capacities : ∀ c ∈ x.capacities.elems, c ∈ m.capacities.elems
  elements : ∀ e ∈ x.elements.elems, e ∈ m.elements.elems

section Covers

variable {m x : Metadata}

theorem lacks_eq_false_iff {type : String} {f : Field} :
    m.lacks type f = false ↔ (m.field? type f.name).isSome := by
  simp [lacks]

theorem Covers.mem_typeNames (h : m.Covers x) (hx : x.Sound) {type : String}
    (ht : type ∈ x.typeNames) : type ∈ m.typeNames := by
  obtain ⟨f, hf⟩ := List.exists_mem_of_ne_nil _ (hx.fields_ne_nil type ht)
  exact mem_typeNames_of_isSome_field? (lacks_eq_false_iff.mp (h.fields type f hf))

/-- A store takes nothing from one that it covers. -/
theorem Covers.merge_eq_self (h : m.Covers x) (hm : m.Sound) (hx : x.Sound) : m.merge x = m := by
  apply Sound.ext (hm.merge x) hm
  · rw [typeNames_merge m hx]
    have none : x.typeNames.filter (!m.typeNames.contains ·) = [] := by
      rw [List.filter_eq_nil_iff]
      intro type ht
      simp [h.mem_typeNames hx ht]
    rw [none, List.append_nil]
  · intro type
    rw [fieldsOf_merge m hx]
    have none : (x.fieldsOf type).filter (m.lacks type) = [] := by
      rw [List.filter_eq_nil_iff]
      intro f hf
      simp [h.fields type f hf]
    rw [none, List.append_nil]
  · intro c
    rw [mem_capacities_merge]
    exact or_iff_left_of_imp (h.capacities c)
  · intro e
    rw [mem_elements_merge]
    exact or_iff_left_of_imp (h.elements e)
  · intro file
    rw [mem_includes_merge m file hx]
    apply or_iff_left_of_imp
    rintro ⟨type, f, hf, lacking, -⟩
    rw [h.fields type f hf] at lacking
    cases lacking

theorem isSome_field?_of_mem {type : String} {f : Field} (hf : f ∈ m.fieldsOf type) :
    (m.field? type f.name).isSome := by
  rw [field?_eq_find?, List.find?_isSome]
  exact ⟨f, hf, by simp⟩

theorem covers_self (m : Metadata) : m.Covers m where
  fields _ _ hf := lacks_eq_false_iff.mpr (isSome_field?_of_mem hf)
  capacities _ hc := hc
  elements _ he := he

theorem covers_merge_left (m : Metadata) (hx : x.Sound) : (m.merge x).Covers m where
  fields type f hf := by
    rw [lacks_eq_false_iff, field?_merge m hx, Option.isSome_or, isSome_field?_of_mem hf,
      Bool.true_or]
  capacities c hc := (mem_capacities_merge m x c).mpr (.inl hc)
  elements e he := (mem_elements_merge m x e).mpr (.inl he)

theorem covers_merge_right (m : Metadata) (hx : x.Sound) : (m.merge x).Covers x where
  fields type f hf := by
    rw [lacks_eq_false_iff, field?_merge m hx, Option.isSome_or, isSome_field?_of_mem hf,
      Bool.or_true]
  capacities c hc := (mem_capacities_merge m x c).mpr (.inr hc)
  elements e he := (mem_elements_merge m x e).mpr (.inr he)

end Covers

section Associativity

variable (m : Metadata) {x y : Metadata}

/-- What a merged store lacks, both of its parts lack. -/
theorem lacks_merge (hx : x.Sound) (type : String) (f : Field) :
    (m.merge x).lacks type f = (m.lacks type f && x.lacks type f) := by
  simp [lacks, field?_merge m hx]

theorem typeNames_merge_assoc (hx : x.Sound) (hy : y.Sound) :
    ((m.merge x).merge y).typeNames = (m.merge (x.merge y)).typeNames := by
  rw [typeNames_merge _ hy, typeNames_merge m hx, typeNames_merge m (hx.merge y),
    typeNames_merge x hy, List.filter_append, List.filter_filter, List.append_assoc]
  congr 2
  apply List.filter_congr
  intro type _
  by_cases hm : type ∈ m.typeNames <;> by_cases hn : type ∈ x.typeNames <;> simp [hm, hn]

theorem fieldsOf_merge_assoc (hx : x.Sound) (hy : y.Sound) (type : String) :
    ((m.merge x).merge y).fieldsOf type = (m.merge (x.merge y)).fieldsOf type := by
  rw [fieldsOf_merge _ hy, fieldsOf_merge m hx, fieldsOf_merge m (hx.merge y),
    fieldsOf_merge x hy, List.filter_append, List.filter_filter, List.append_assoc]
  congr 2
  apply List.filter_congr
  intro f _
  rw [lacks_merge m hx]

theorem mem_fieldsOf_merge (hx : x.Sound) (type : String) (f : Field) :
    f ∈ (m.merge x).fieldsOf type ↔
      f ∈ m.fieldsOf type ∨ f ∈ x.fieldsOf type ∧ m.lacks type f := by
  rw [fieldsOf_merge m hx, List.mem_append, List.mem_filter]

theorem mem_includes_merge_assoc (hx : x.Sound) (hy : y.Sound) (file : String) :
    file ∈ ((m.merge x).merge y).includes.elems ↔
      file ∈ (m.merge (x.merge y)).includes.elems := by
  rw [mem_includes_merge _ file hy, mem_includes_merge m file hx,
    mem_includes_merge m file (hx.merge y), or_assoc]
  apply or_congr_right
  simp only [mem_fieldsOf_merge x hy, lacks_merge m hx, Bool.and_eq_true]
  constructor
  · rintro (⟨type, f, hf, lacking, ho⟩ | ⟨type, f, hf, ⟨first, second⟩, ho⟩)
    · exact ⟨type, f, .inl hf, lacking, ho⟩
    · exact ⟨type, f, .inr ⟨hf, second⟩, first, ho⟩
  · rintro ⟨type, f, hf | ⟨hf, second⟩, first, ho⟩
    · exact .inl ⟨type, f, hf, first, ho⟩
    · exact .inr ⟨type, f, hf, ⟨first, second⟩, ho⟩

theorem merge_assoc {m : Metadata} (hm : m.Sound) (hx : x.Sound) (hy : y.Sound) :
    (m.merge x).merge y = m.merge (x.merge y) := by
  apply Sound.ext ((hm.merge x).merge y) (hm.merge _)
  · exact typeNames_merge_assoc m hx hy
  · exact fieldsOf_merge_assoc m hx hy
  · intro c
    simp only [mem_capacities_merge, or_assoc]
  · intro e
    simp only [mem_elements_merge, or_assoc]
  · exact mem_includes_merge_assoc m hx hy

end Associativity

section IntoEmpty

variable {m : Metadata}

theorem lacks_empty (type : String) (f : Field) : ({} : Metadata).lacks type f = true := rfl

theorem mem_includes_empty_merge (hm : m.Sound) (file : String) :
    file ∈ (({} : Metadata).merge m).includes.elems ↔
      ∃ type, ∃ f ∈ m.fieldsOf type, f.origin = some file := by
  rw [mem_includes_merge _ file hm]
  simp only [lacks_empty, true_and]
  exact or_iff_right List.not_mem_nil

/-- An empty store takes everything from another but the includes without a field. -/
theorem empty_merge_eq_iff (hm : m.Sound) :
    ({} : Metadata).merge m = m ↔ m.IncludesOrigins := by
  constructor
  · intro same file
    rw [← mem_includes_empty_merge hm, same]
  · intro origins
    apply Sound.ext (sound_empty.merge m) hm
    · rw [typeNames_merge _ hm]
      have all : m.typeNames.filter (!({} : Metadata).typeNames.contains ·) = m.typeNames := by
        simp [typeNames]
      rw [all]
      rfl
    · intro type
      rw [fieldsOf_merge _ hm]
      have all : (m.fieldsOf type).filter (({} : Metadata).lacks type) = m.fieldsOf type := by
        simp [lacks_empty]
      rw [all]
      rfl
    · intro c
      rw [mem_capacities_merge]
      exact or_iff_right List.not_mem_nil
    · intro e
      rw [mem_elements_merge]
      exact or_iff_right List.not_mem_nil
    · intro file
      rw [mem_includes_empty_merge hm, origins file]

end IntoEmpty

/-- The laws of merging. Those on metadata hold of the stores with tables too, since the tables of a
merge are the only ones that represent it. -/
structure MergeLaws (a b c : Metadata) : Prop where
  assoc : (a.merge b).merge c = a.merge (b.merge c)
  self : a.merge a = a
  empty : a.merge {} = a
  absorbs_left : (a.merge b).merge a = a.merge b
  absorbs_right : (b.merge a).merge a = b.merge a
  into_empty : ({} : Metadata).merge a = a ↔
    ∀ file ∈ a.includes.elems, ∃ type, ∃ f ∈ a.fieldsOf type, f.origin = some file
  tables : ∀ s t u : IndexedStore,
    s.Represents a → t.Represents b → u.Represents (a.merge b) → s.merge t = some u

/-- Stores of any histories obey the laws of merging. -/
theorem reachable_merge_laws {a b c : Metadata} (ha : a.Reachable) (hb : b.Reachable)
    (hc : c.Reachable) : MergeLaws a b c where
  assoc := merge_assoc ha.sound hb.sound hc.sound
  self := (covers_self a).merge_eq_self ha.sound ha.sound
  empty := merge_empty a
  absorbs_left := (covers_merge_left a hb.sound).merge_eq_self (ha.sound.merge b) ha.sound
  absorbs_right := (covers_merge_right b ha.sound).merge_eq_self (hb.sound.merge a) ha.sound
  into_empty := by
    rw [empty_merge_eq_iff ha.sound]
    refine ⟨fun origins file => (origins file).mp, fun origins file => ⟨origins file, ?_⟩⟩
    rintro ⟨type, f, hf, origin⟩
    exact ha.origin_listed hf origin
  tables := by
    rintro s t u ⟨hs, rfl⟩ ⟨ht, rfl⟩ ⟨hu, same⟩
    obtain ⟨v, merged, hv, registers⟩ := hs.merge ht
    rw [merged, hv.ext hu (registers.trans same.symm)]

/-- Three stores: the first lists an include without a field, the second has a field of the first
from elsewhere, and the third is a merge. -/
def sharedFieldHistory : List StoreStep :=
  [⟨0, .addField "Foo" ⟨"a", .plain⟩ (some "foo.h")⟩, ⟨0, .addInclude "spare.h"⟩,
    ⟨1, .addField "Foo" ⟨"a", .method⟩ (some "copy.h")⟩, ⟨1, .addField "Bar" ⟨"x", .plain⟩ none⟩,
    ⟨1, .record (.fixedString 32)⟩, ⟨2, .merge 1⟩, ⟨2, .addField "Bar" ⟨"y", .aliasRef⟩ none⟩]

theorem sharedFieldHistory_merge_laws :
    (run sharedFieldHistory 0).Reachable ∧ (run sharedFieldHistory 1).Reachable ∧
      (run sharedFieldHistory 2).Reachable ∧
      MergeLaws (run sharedFieldHistory 0) (run sharedFieldHistory 1)
        (run sharedFieldHistory 2) :=
  have reachable (k : Nat) : (run sharedFieldHistory k).Reachable := ⟨sharedFieldHistory, k, rfl⟩
  ⟨reachable 0, reachable 1, reachable 2,
    reachable_merge_laws (reachable 0) (reachable 1) (reachable 2)⟩

end Metadata

end ReflectGen
