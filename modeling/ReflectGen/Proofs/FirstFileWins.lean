import ReflectGen.Project
import ReflectGen.Proofs.ScanStep

namespace ReflectGen

namespace Metadata

/-- The inner loop of a merge. -/
def addFields (m : Metadata) (type : String) (fs : List Field) : Metadata :=
  fs.foldl (fun m f => (m.addField type f).1) m

/-- The outer loop of a merge. -/
def addTypes (m : Metadata) (rs : List TypeRecord) : Metadata :=
  rs.foldl (fun m r => m.addFields r.name r.fields) m

theorem merge_eq (m other : Metadata) :
    m.merge other = (m.addTypes other.types).mergeInstances other := rfl

def lacks (m : Metadata) (type : String) (f : Field) : Bool := (m.field? type f.name).isNone

section AddFields

variable (m : Metadata) (type : String) {fs : List Field}

theorem fieldsOf_addFields_of_ne {other : String} (h : other ≠ type) :
    (m.addFields type fs).fieldsOf other = m.fieldsOf other := by
  induction fs generalizing m with
  | nil => rfl
  | cons f fs ih =>
    have rest := ih (m.addField type f).1
    rw [fieldsOf_addField_of_ne m type f h] at rest
    exact rest

theorem fieldsOf_addFields (nodup : (fs.map Field.name).Nodup) :
    (m.addFields type fs).fieldsOf type = m.fieldsOf type ++ fs.filter (m.lacks type) := by
  induction fs generalizing m with
  | nil => simp [addFields]
  | cons f fs ih =>
    rw [List.map_cons, List.nodup_cons] at nodup
    have rest : (m.addFields type (f :: fs)).fieldsOf type =
        (m.addField type f).1.fieldsOf type ++ fs.filter ((m.addField type f).1.lacks type) :=
      ih (m.addField type f).1 nodup.2
    -- The later fields have other names, so adding this one takes none of them away.
    have later : fs.filter ((m.addField type f).1.lacks type) = fs.filter (m.lacks type) := by
      apply List.filter_congr
      intro g hg
      have hne : g.name ≠ f.name := fun he => nodup.1 (he ▸ List.mem_map_of_mem hg)
      simp [lacks, field?_addField, hne]
    rw [rest, later]
    by_cases hs : (m.field? type f.name).isSome
    · have had : m.lacks type f = false := by simpa [lacks] using hs
      rw [addField_of_isSome hs, List.filter_cons_of_neg (by simp [had])]
    · have absent : m.field? type f.name = none := by simpa using hs
      rw [fieldsOf_addField_of_none absent, List.filter_cons_of_pos (by simp [lacks, absent])]
      simp

theorem typeNames_addFields (ne : fs ≠ []) :
    (m.addFields type fs).typeNames =
      if type ∈ m.typeNames then m.typeNames else m.typeNames ++ [type] := by
  -- Once the type is there, more fields leave the names alone.
  have present : ∀ (fs : List Field) (m : Metadata), type ∈ m.typeNames →
      (m.addFields type fs).typeNames = m.typeNames := by
    intro fs
    induction fs with
    | nil => intro m _; rfl
    | cons f fs ih =>
      intro m hm
      have same : (m.addField type f).1.typeNames = m.typeNames := by
        rw [typeNames_addField, if_pos hm]
      have rest := ih (m.addField type f).1 (by rw [same]; exact hm)
      rw [same] at rest
      exact rest
  cases fs with
  | nil => exact absurd rfl ne
  | cons f fs =>
    have rest := present fs (m.addField type f).1 (by rw [typeNames_addField]; split <;> simp_all)
    rw [typeNames_addField] at rest
    exact rest

end AddFields

/-- What each new field keeps, a merge keeps. -/
theorem addTypes_invariant {m : Metadata} (holds : Metadata → Prop) (start : holds m)
    (keeps : ∀ m type f, holds m → holds (m.addField type f).1) (rs : List TypeRecord) :
    holds (m.addTypes rs) := by
  refine List.foldlRecOn rs _ start fun m hm r _ => ?_
  exact List.foldlRecOn r.fields _ hm fun m hm f _ => keeps m r.name f hm

section AddTypes

variable (m : Metadata) {rs : List TypeRecord}

theorem fieldsOf_addTypes (type : String) (types : (rs.map TypeRecord.name).Nodup)
    (fields : ∀ r ∈ rs, (r.fields.map Field.name).Nodup) :
    (m.addTypes rs).fieldsOf type =
      m.fieldsOf type ++
        ((rs.find? (·.name == type)).elim [] TypeRecord.fields).filter (m.lacks type) := by
  induction rs generalizing m with
  | nil => simp [addTypes]
  | cons r rs ih =>
    rw [List.map_cons, List.nodup_cons] at types
    have rest := ih (m.addFields r.name r.fields) types.2 fun s hs => fields s (by simp [hs])
    have first : m.addTypes (r :: rs) = (m.addFields r.name r.fields).addTypes rs := rfl
    rw [first, rest]
    by_cases hr : r.name = type
    · subst hr
      have gone : rs.find? (·.name == r.name) = none := by
        rw [List.find?_eq_none]
        intro s hs he
        exact types.1 (by rw [← eq_of_beq he]; exact List.mem_map_of_mem hs)
      rw [gone, fieldsOf_addFields m r.name (fields r (by simp))]
      simp
    · have hne : (r.name == type) = false := by simpa using hr
      have same : (m.addFields r.name r.fields).fieldsOf type = m.fieldsOf type :=
        fieldsOf_addFields_of_ne m r.name fun h => hr h.symm
      have lack : (m.addFields r.name r.fields).lacks type = m.lacks type := by
        funext f
        simp only [lacks, field?_eq_find?, same]
      rw [same, lack, List.find?_cons, hne]

theorem typeNames_addTypes (types : (rs.map TypeRecord.name).Nodup)
    (fields : ∀ r ∈ rs, r.fields ≠ []) :
    (m.addTypes rs).typeNames =
      m.typeNames ++ (rs.map TypeRecord.name).filter (!m.typeNames.contains ·) := by
  induction rs generalizing m with
  | nil => simp [addTypes]
  | cons r rs ih =>
    rw [List.map_cons, List.nodup_cons] at types
    have rest := ih (m.addFields r.name r.fields) types.2 fun s hs => fields s (by simp [hs])
    have first : m.addTypes (r :: rs) = (m.addFields r.name r.fields).addTypes rs := rfl
    have names := typeNames_addFields m r.name (fields r (by simp))
    rw [first, rest, names]
    by_cases hr : r.name ∈ m.typeNames
    · simp [hr]
    · have later : (rs.map TypeRecord.name).filter (!(m.typeNames ++ [r.name]).contains ·) =
          (rs.map TypeRecord.name).filter (!m.typeNames.contains ·) := by
        apply List.filter_congr
        intro name hn
        have hne : name ≠ r.name := fun he => types.1 (he ▸ hn)
        simp [hne]
      rw [if_neg hr, later, List.map_cons, List.filter_cons_of_pos (by simpa using hr)]
      simp

theorem instances_addTypes (rs : List TypeRecord) :
    (m.addTypes rs).capacities = m.capacities ∧ (m.addTypes rs).elements = m.elements := by
  apply addTypes_invariant (fun n => n.capacities = m.capacities ∧ n.elements = m.elements)
  · exact ⟨rfl, rfl⟩
  · intro n type f hn
    unfold addField
    split <;> exact hn

end AddTypes

section Merge

variable (m : Metadata) {x : Metadata}

theorem fieldsOf_merge (h : x.Sound) (type : String) :
    (m.merge x).fieldsOf type = m.fieldsOf type ++ (x.fieldsOf type).filter (m.lacks type) := by
  rw [merge_eq]
  refine fieldsOf_addTypes m type h.types_nodup fun r hr => ?_
  rw [← h.fieldsOf_name hr]
  exact h.fields_nodup r.name

theorem typeNames_merge (h : x.Sound) :
    (m.merge x).typeNames = m.typeNames ++ x.typeNames.filter (!m.typeNames.contains ·) := by
  rw [merge_eq]
  refine typeNames_addTypes m h.types_nodup fun r hr => ?_
  rw [← h.fieldsOf_name hr]
  exact h.fields_ne_nil r.name (List.mem_map_of_mem hr)

theorem field?_merge (h : x.Sound) (type name : String) :
    (m.merge x).field? type name = (m.field? type name).or (x.field? type name) := by
  rw [field?_eq_find?, fieldsOf_merge m h, List.find?_append, ← field?_eq_find?]
  cases hm : m.field? type name with
  | some f => rfl
  | none =>
    -- Every field of that name is lacking, so the filter lets through what the search is for.
    rw [Option.none_or, Option.none_or, field?_eq_find?, List.find?_filter]
    congr 1
    funext f
    by_cases hf : f.name = name
    · simp [lacks, hf, hm]
    · simp [hf]

theorem mem_capacities_merge (x : Metadata) (capacity : Nat) :
    capacity ∈ (m.merge x).capacities.elems ↔
      capacity ∈ m.capacities.elems ∨ capacity ∈ x.capacities.elems := by
  rw [← (instances_addTypes m x.types).1]
  exact SortedSet.mem_union _ _ _

theorem mem_elements_merge (x : Metadata) (element : String) :
    element ∈ (m.merge x).elements.elems ↔
      element ∈ m.elements.elems ∨ element ∈ x.elements.elems := by
  rw [← (instances_addTypes m x.types).2]
  exact SortedSet.mem_union _ _ _

end Merge

/-- The includes are those that contributed a field. -/
def IncludesOrigins (m : Metadata) : Prop :=
  ∀ file, file ∈ m.includes.elems ↔ ∃ type, ∃ f ∈ m.fieldsOf type, f.origin = some file

theorem IncludesOrigins.addField {m : Metadata} (h : m.IncludesOrigins) (type : String)
    (f : Field) : (m.addField type f).1.IncludesOrigins := by
  intro file
  simp only [mem_includes_addField, mem_fieldsOf_addField, h file]
  constructor
  · rintro (⟨other, g, hg, ho⟩ | ⟨absent, ho⟩)
    · exact ⟨other, g, .inl hg, ho⟩
    · exact ⟨type, f, .inr ⟨absent, rfl, rfl⟩, ho⟩
  · rintro ⟨other, g, hg | ⟨absent, rfl, rfl⟩, ho⟩
    · exact .inl ⟨other, g, hg, ho⟩
    · exact .inr ⟨absent, ho⟩

theorem IncludesOrigins.merge {m : Metadata} (h : m.IncludesOrigins) (x : Metadata) :
    (m.merge x).IncludesOrigins := by
  have added : (m.addTypes x.types).IncludesOrigins :=
    addTypes_invariant IncludesOrigins h (fun m type f hm => hm.addField type f) x.types
  exact added

/-- What each store of a list adds, given those before it, one after another. -/
def additions {α : Type} (adds : List Metadata → Metadata → List α) :
    List Metadata → List Metadata → List α
  | _, [] => []
  | earlier, x :: rest => adds earlier x ++ additions adds (earlier ++ [x]) rest

/-- The types of a store that no earlier one has. -/
def newTypes (earlier : List Metadata) (x : Metadata) : List String :=
  x.typeNames.filter fun type => earlier.all (!·.typeNames.contains type)

/-- The fields of a type whose names no earlier store has for it. -/
def newFields (type : String) (earlier : List Metadata) (x : Metadata) : List Field :=
  (x.fieldsOf type).filter fun f => earlier.all (·.lacks type f)

/-- What a store knows of the stores that were merged into it. -/
structure Gathers (earlier : List Metadata) (m : Metadata) : Prop where
  field? : ∀ type name, m.field? type name = earlier.findSome? (·.field? type name)
  mem_typeNames : ∀ type, type ∈ m.typeNames ↔ ∃ e ∈ earlier, type ∈ e.typeNames

namespace Gathers

variable {earlier : List Metadata} {m x : Metadata}

theorem empty : Gathers [] {} := ⟨fun _ _ => rfl, fun _ => by simp [typeNames]⟩

theorem lacks_eq (h : Gathers earlier m) (type : String) (f : Field) :
    m.lacks type f = earlier.all (·.lacks type f) := by
  rw [Bool.eq_iff_iff]
  simp [lacks, h.field?, List.findSome?_eq_none_iff]

theorem contains_eq (h : Gathers earlier m) (type : String) :
    (!m.typeNames.contains type) = earlier.all (!·.typeNames.contains type) := by
  rw [Bool.eq_iff_iff]
  simp [h.mem_typeNames]

theorem merge (h : Gathers earlier m) (hx : x.Sound) : Gathers (earlier ++ [x]) (m.merge x) := by
  refine ⟨fun type name => ?_, fun type => ?_⟩
  · rw [field?_merge m hx, h.field?, List.findSome?_append]
    congr 1
    cases hf : x.field? type name <;> simp [hf]
  · rw [typeNames_merge m hx]
    by_cases hm : type ∈ m.typeNames
    · obtain ⟨e, he, ht⟩ := (h.mem_typeNames type).mp hm
      exact iff_of_true (by simp [hm]) ⟨e, by simp [he], ht⟩
    · have old : ¬∃ e ∈ earlier, type ∈ e.typeNames := fun he => hm ((h.mem_typeNames type).mpr he)
      simp [hm, or_and_right, exists_or, old]

theorem typeNames_merge (h : Gathers earlier m) (hx : x.Sound) :
    (m.merge x).typeNames = m.typeNames ++ newTypes earlier x := by
  rw [Metadata.typeNames_merge m hx]
  simp only [h.contains_eq, newTypes]

theorem fieldsOf_merge (h : Gathers earlier m) (hx : x.Sound) (type : String) :
    (m.merge x).fieldsOf type = m.fieldsOf type ++ newFields type earlier x := by
  rw [Metadata.fieldsOf_merge m hx, newFields]
  congr 2
  funext f
  exact h.lacks_eq type f

theorem foldl_merge {stores : List Metadata} (h : Gathers earlier m)
    (hs : ∀ x ∈ stores, x.Sound) : Gathers (earlier ++ stores) (stores.foldl Metadata.merge m) := by
  induction stores generalizing earlier m with
  | nil => simpa using h
  | cons x rest ih =>
    have step := h.merge (hs x (by simp))
    have run := ih step fun y hy => hs y (by simp [hy])
    simpa using run

end Gathers

/-- A view to which each merge appends what is new is, after all merges, all that was new. -/
theorem view_foldl_merge {α : Type} (view : Metadata → List α)
    {adds : List Metadata → Metadata → List α}
    (appends : ∀ earlier m x, Gathers earlier m → x.Sound →
      view (m.merge x) = view m ++ adds earlier x)
    {stores earlier : List Metadata} {m : Metadata} (h : Gathers earlier m)
    (hs : ∀ x ∈ stores, x.Sound) :
    view (stores.foldl merge m) = view m ++ additions adds earlier stores := by
  induction stores generalizing earlier m with
  | nil => simp [additions]
  | cons x rest ih =>
    have hx : x.Sound := hs x (by simp)
    rw [List.foldl_cons, ih (h.merge hx) fun y hy => hs y (by simp [hy]),
      appends earlier m x h hx, List.append_assoc]
    rfl

theorem mem_foldl_merge {α : Type} {a : α} (view : Metadata → List α)
    (unites : ∀ m x, a ∈ view (m.merge x) ↔ a ∈ view m ∨ a ∈ view x) (stores : List Metadata)
    (m : Metadata) :
    a ∈ view (stores.foldl merge m) ↔ a ∈ view m ∨ ∃ x ∈ stores, a ∈ view x := by
  induction stores generalizing m with
  | nil => simp
  | cons x rest ih =>
    rw [List.foldl_cons, ih, unites, or_assoc]
    simp

/-- The outcome of merging stores in order: of two fields under one name the first stays, what is
new is appended in order, and the sets are united. -/
structure FirstWins (stores : List Metadata) (m : Metadata) : Prop where
  field? : ∀ type name, m.field? type name = stores.findSome? (·.field? type name)
  typeNames : m.typeNames = additions newTypes [] stores
  fieldsOf : ∀ type, m.fieldsOf type = additions (newFields type) [] stores
  includes : m.IncludesOrigins
  capacities : ∀ n, n ∈ m.capacities.elems ↔ ∃ x ∈ stores, n ∈ x.capacities.elems
  elements : ∀ e, e ∈ m.elements.elems ↔ ∃ x ∈ stores, e ∈ x.elements.elems

theorem firstWins_foldl_merge {stores : List Metadata} (hs : ∀ x ∈ stores, x.Sound) :
    FirstWins stores (stores.foldl merge {}) where
  field? := (Gathers.empty.foldl_merge hs).field?
  typeNames :=
    view_foldl_merge Metadata.typeNames (fun _ _ _ h hx => h.typeNames_merge hx) Gathers.empty hs
  fieldsOf type :=
    view_foldl_merge (Metadata.fieldsOf · type) (fun _ _ _ h hx => h.fieldsOf_merge hx type)
      Gathers.empty hs
  includes := by
    refine List.foldlRecOn stores merge ?_ fun m hm x _ => hm.merge x
    intro file
    exact iff_of_false List.not_mem_nil (by simp [Metadata.fieldsOf, type?])
  capacities n := by
    rw [mem_foldl_merge (·.capacities.elems) (mem_capacities_merge · · n)]
    exact or_iff_right List.not_mem_nil
  elements e := by
    rw [mem_foldl_merge (·.elements.elems) (mem_elements_merge · · e)]
    exact or_iff_right List.not_mem_nil

end Metadata

/-- Of files scanned one after another, the first that has a field decides on it. -/
theorem combine_scans_first_wins (inputs : List (Path × DeclTree)) :
    Metadata.FirstWins (inputs.map fun i => (scan i.1 i.2).metadata)
      (Project.combine (inputs.map fun i => scan i.1 i.2)).1 := by
  have sound : ∀ x ∈ inputs.map fun i => (scan i.1 i.2).metadata, x.Sound := by
    intro x hx
    obtain ⟨i, -, rfl⟩ := List.mem_map.mp hx
    exact scan_sound i.1 i.2
  have merged := Metadata.firstWins_foldl_merge sound
  rw [List.foldl_map] at merged
  simpa only [Project.combine, List.foldl_map] using merged

end ReflectGen
