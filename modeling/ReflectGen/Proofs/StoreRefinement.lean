import ReflectGen.Proofs.IndexedStore

namespace ReflectGen

namespace IndexedStore

section Credit

variable (s : IndexedStore) (type : String) (m : Member) (origin : Option String)

@[simp] theorem records_credit : (s.credit type m origin).records = s.records := by
  cases origin <;> rfl

@[simp] theorem index_credit : (s.credit type m origin).index = s.index := by
  cases origin <;> rfl

theorem getElem?_origins_credit (unknown : s.origins[(type, m.name)]? = none)
    (key : String × String) :
    (s.credit type m origin).origins[key]? =
      if key = (type, m.name) then origin else s.origins[key]? := by
  cases origin with
  | none =>
    split
    · rename_i same
      rw [same]
      exact unknown
    · rfl
  | some file =>
    simp only [credit, Std.ExtHashMap.getElem?_insert, beq_iff_eq, eq_comm (a := key)]

end Credit

/-- A member takes its place: at the end of the record of its type, or in a record of its own. -/
inductive Places (s : IndexedStore) (type : String) (m : Member) : IndexedStore → Prop
  | extended {i : Nat} {r : Record} (place : s.records[i]? = some r) (name : r.name = type)
      (fresh : m.name ∉ r.names) :
    Places s type m (s.replaceAt i { r with members := r.members ++ [m] })
  | opened (absent : type ∉ s.names) : Places s type m (s.push ⟨type, [m]⟩)

/-- What a capture can do: nothing, or place the member and list its include. -/
inductive Adds (s : IndexedStore) (type : String) (m : Member) (origin : Option String) :
    IndexedStore × Bool → Prop
  | had {r : Record} (hr : r ∈ s.records) (name : r.name = type) (taken : m.name ∈ r.names) :
    Adds s type m origin (s, false)
  | added {t : IndexedStore} (placed : Places s type m t) :
    Adds s type m origin (t.credit type m origin, true)

section AddField

variable {s : IndexedStore} (type : String) (m : Member) (origin : Option String)

theorem openRecord_of_some {type : String} {i : Nat} {r : Record} (place : s.index[type]? = some i)
    (hr : s.records[i]? = some r) : s.openRecord type = (s, i) := by
  have known : type ∈ s.index := by
    rw [← Std.ExtHashMap.isSome_getElem?_iff_mem, place]
    rfl
  have same : s.index.insertIfNew type s.records.length = s.index := by
    apply Std.ExtHashMap.ext_getElem?
    intro other
    rw [Std.ExtHashMap.getElem?_insertIfNew, if_neg fun new => new.2 known]
  have inside : i < s.records.length := (List.getElem?_eq_some_iff.mp hr).1
  simp only [openRecord, Std.ExtHashMap.getD_eq_getD_getElem?, place, Option.getD_some, same,
    Nat.ne_of_lt inside, if_false]

theorem openRecord_of_none {type : String} (nowhere : s.index[type]? = none) :
    s.openRecord type = (s.push ⟨type, []⟩, s.records.length) := by
  have unknown : type ∉ s.index := by
    rw [← Std.ExtHashMap.isSome_getElem?_iff_mem, nowhere]
    simp
  have same : s.index.insertIfNew type s.records.length =
      s.index.insert type s.records.length := by
    apply Std.ExtHashMap.ext_getElem?
    intro other
    simp only [Std.ExtHashMap.getElem?_insertIfNew, Std.ExtHashMap.getElem?_insert, unknown,
      not_false_eq_true, and_true]
  simp only [openRecord, Std.ExtHashMap.getD_eq_getD_getElem?, nowhere, Option.getD_none, same,
    if_true, push]

/-- A capture in a well-formed store has a result. -/
theorem WellFormed.exists_adds (h : s.WellFormed) :
    ∃ p, s.addField type m origin = some p ∧ Adds s type m origin p := by
  cases place : s.index[type]? with
  | none =>
    have absent : type ∉ s.names := by
      intro ht
      obtain ⟨i, hi⟩ := List.getElem?_of_mem ht
      rw [← h.index_iff, place] at hi
      cases hi
    refine ⟨_, ?_, .added (.opened absent)⟩
    have fresh : m.name ∉ (⟨type, []⟩ : Record).names := List.not_mem_nil
    have last : (s.push ⟨type, []⟩).records[s.records.length]? = some ⟨type, []⟩ :=
      List.getElem?_concat_length
    have stored : (s.push ⟨type, []⟩).replaceAt s.records.length ⟨type, [m]⟩ =
        s.push ⟨type, [m]⟩ := by
      simp [replaceAt, push]
    simp only [addField, openRecord_of_none place, last, Option.map_some, Record.insert,
      if_neg fresh, if_true, List.nil_append, stored]
  | some i =>
    have named := (h.index_iff type i).mp place
    rw [names, List.getElem?_map, Option.map_eq_some_iff] at named
    obtain ⟨r, hr, name⟩ := named
    by_cases taken : m.name ∈ r.names
    · refine ⟨_, ?_, .had (List.mem_of_getElem? hr) name taken⟩
      obtain ⟨inside, at_i⟩ := List.getElem?_eq_some_iff.mp hr
      have same : s.replaceAt i r = s := by
        rw [replaceAt, ← at_i, List.set_getElem_self inside]
      simp only [addField, openRecord_of_some place hr, hr, Option.map_some, Record.insert,
        if_pos taken, same, Bool.false_eq_true, if_false]
    · refine ⟨_, ?_, .added (.extended hr name taken)⟩
      simp only [addField, openRecord_of_some place hr, hr, Option.map_some, Record.insert,
        if_neg taken, if_true]

end AddField

section Rows

theorem getElem?_concat_eq_some_iff {α : Type} {xs : List α} {a b : α} {i : Nat} :
    (xs ++ [a])[i]? = some b ↔ xs[i]? = some b ∨ i = xs.length ∧ a = b := by
  grind

theorem insertField_of_notMem {type : String} {ts : List TypeRecord}
    (absent : type ∉ ts.map TypeRecord.name) (f : Field) :
    Metadata.insertField type f ts = ts ++ [⟨type, [f]⟩] := by
  induction ts with
  | nil => rfl
  | cons t ts ih =>
    rw [List.map_cons, List.mem_cons, not_or] at absent
    rw [Metadata.insertField, if_neg fun same => absent.1 same.symm, ih absent.2, List.cons_append]

theorem insertField_of_getElem? {ts : List TypeRecord} (nodup : (ts.map TypeRecord.name).Nodup)
    {i : Nat} {t : TypeRecord} (place : ts[i]? = some t) (f : Field) :
    Metadata.insertField t.name f ts = ts.set i (t.insert f) := by
  induction ts generalizing i with
  | nil => simp at place
  | cons u ts ih =>
    rw [List.map_cons, List.nodup_cons] at nodup
    cases i with
    | zero =>
      cases place
      rw [Metadata.insertField, if_pos rfl, List.set_cons_zero]
    | succ i =>
      rw [List.getElem?_cons_succ] at place
      have other : u.name ≠ t.name := fun same =>
        nodup.1 (same ▸ List.mem_map_of_mem (List.mem_of_getElem? place))
      rw [Metadata.insertField, if_neg other, ih nodup.2 place, List.set_cons_succ]

end Rows

namespace Places

variable {s t : IndexedStore} {type : String} {m : Member}

theorem not_captured (placed : Places s type m t) (h : s.WellFormed) :
    ¬s.Captured type m.name := by
  rintro ⟨r', hr', name', taken⟩
  cases placed with
  | extended place name fresh =>
    have same := List.inj_on_of_nodup_map h.names_nodup hr' (List.mem_of_getElem? place)
      (name'.trans name.symm)
    exact fresh (same ▸ taken)
  | opened absent => exact absent (name' ▸ List.mem_map_of_mem hr')

theorem origins_eq (placed : Places s type m t) : t.origins = s.origins := by
  cases placed <;> rfl

theorem map_typeRecord (placed : Places s type m t) (h : s.WellFormed) (origins : Origins) :
    t.records.map (·.typeRecord origins) =
      Metadata.insertField type (m.field origins type)
        (s.records.map (·.typeRecord origins)) := by
  have names : (s.records.map (·.typeRecord origins)).map TypeRecord.name = s.names := by
    rw [List.map_map]
    rfl
  cases placed with
  | @extended i r place name fresh =>
    subst name
    have shown : (s.records.map (·.typeRecord origins))[i]? = some (r.typeRecord origins) := by
      rw [List.getElem?_map, place, Option.map_some]
    have nodup : ((s.records.map (·.typeRecord origins)).map TypeRecord.name).Nodup := by
      rw [names]
      exact h.names_nodup
    have absent : (r.typeRecord origins).field? m.name = none := by
      rw [← names_fields r origins] at fresh
      rw [TypeRecord.field?, List.find?_eq_none]
      intro f hf same
      exact fresh (List.mem_map.mpr ⟨f, hf, by simpa using same⟩)
    have written : (r.typeRecord origins).insert (m.field origins r.name) =
        { r with members := r.members ++ [m] : Record }.typeRecord origins := by
      rw [TypeRecord.insert, Member.name_field, absent]
      simp [Record.typeRecord]
    have inserted := insertField_of_getElem? nodup shown (m.field origins r.name)
    rw [written] at inserted
    rw [replaceAt, List.map_set]
    exact inserted.symm
  | opened absent =>
    rw [insertField_of_notMem (by rw [names]; exact absent), push, List.map_append]
    rfl

theorem index_iff (placed : Places s type m t) (h : s.WellFormed) (other : String) (i : Nat) :
    t.index[other]? = some i ↔ t.names[i]? = some other := by
  cases placed with
  | @extended j r place name fresh =>
    have same : (s.replaceAt j { r with members := r.members ++ [m] }).names = s.names := by
      obtain ⟨inside, at_j⟩ := List.getElem?_eq_some_iff.mp place
      apply List.ext_getElem?
      intro k
      simp only [names, replaceAt, List.getElem?_map, List.getElem?_set]
      split
      · rename_i here
        rw [← here, place, Option.map_some, Option.map_some]
      · rfl
    rw [same]
    exact h.index_iff other i
  | opened absent =>
    have named : (s.push ⟨type, [m]⟩).names = s.names ++ [type] := by
      simp [names, push]
    have count : s.names.length = s.records.length := by simp [names]
    have nowhere : s.index[type]? = none := by
      rw [Option.eq_none_iff_forall_ne_some]
      intro j hj
      exact absent (List.mem_of_getElem? ((h.index_iff type j).mp hj))
    rw [named, push, Std.ExtHashMap.getElem?_insert, getElem?_concat_eq_some_iff, ← h.index_iff,
      count]
    by_cases same : type = other
    · subst same
      simp [nowhere, eq_comm]
    · simp [same]

end Places

namespace Adds

variable {s : IndexedStore} {type : String} {m : Member} {origin : Option String}
  {p : IndexedStore × Bool}

theorem captured_iff (a : Adds s type m origin p) (h : s.WellFormed) :
    p.2 = true ↔ ¬s.Captured type m.name := by
  cases a with
  | had hr name taken => exact iff_of_false Bool.false_ne_true (not_not_intro ⟨_, hr, name, taken⟩)
  | added placed => exact iff_of_true rfl (placed.not_captured h)

theorem eq_of_false (a : Adds s type m origin p) (old : p.2 = false) : p.1 = s := by
  cases a with
  | had => rfl
  | added => cases old

theorem getElem?_origins (a : Adds s type m origin p) (h : s.WellFormed) (key : String × String) :
    p.1.origins[key]? =
      if p.2 = true ∧ key = (type, m.name) then origin else s.origins[key]? := by
  cases a with
  | had => simp
  | added placed =>
    have unknown : s.origins[(type, m.name)]? = none := by
      apply Std.ExtHashMap.getElem?_eq_none
      exact fun key => placed.not_captured h (h.origins_captured _ _ key)
    rw [← placed.origins_eq] at unknown
    rw [getElem?_origins_credit _ _ _ _ unknown, placed.origins_eq]
    simp only [true_and]

/-- The records that were there look as before, for the new entry is for none of their members. -/
theorem map_typeRecord (a : Adds s type m origin p) (h : s.WellFormed) :
    s.records.map (·.typeRecord p.1.origins) = s.records.map (·.typeRecord s.origins) := by
  apply List.map_congr_left
  intro r hr
  have same : r.members.map (·.field p.1.origins r.name) =
      r.members.map (·.field s.origins r.name) := by
    apply List.map_congr_left
    intro m' hm'
    have old : ¬(p.2 = true ∧ (r.name, m'.name) = (type, m.name)) := by
      rintro ⟨new, key⟩
      obtain ⟨type_eq, name_eq⟩ := Prod.mk.inj key
      refine (a.captured_iff h).mp new ⟨r, hr, type_eq, ?_⟩
      exact name_eq ▸ List.mem_map_of_mem hm'
    rw [Member.field, Member.field, a.getElem?_origins h, if_neg old]
  rw [Record.typeRecord, Record.typeRecord, same]

theorem field_eq (a : Adds s type m origin p) (h : s.WellFormed) (new : p.2 = true) :
    m.field p.1.origins type = ⟨m.name, m.kind, origin⟩ := by
  rw [Member.field, a.getElem?_origins h, if_pos ⟨new, rfl⟩]

/-- A capture does to the metadata what a capture in the metadata does. -/
theorem refines (a : Adds s type m origin p) (h : s.WellFormed) :
    (p.1.metadata, p.2) = s.metadata.addField type ⟨m.name, m.kind, origin⟩ := by
  have captured := a.captured_iff h
  rw [h.captured_iff] at captured
  have old := a.map_typeRecord h
  have field := a.field_eq h
  cases a with
  | had hr name taken =>
    have had : (s.metadata.field? type m.name).isSome :=
      (h.captured_iff type m.name).mp ⟨_, hr, name, taken⟩
    rw [Metadata.addField, if_pos had]
  | @added t placed =>
    have types : (t.credit type m origin).metadata.types =
        Metadata.insertField type ⟨m.name, m.kind, origin⟩ s.metadata.types := by
      rw [metadata, records_credit, placed.map_typeRecord h, old, field rfl]
      rfl
    rw [Metadata.addField, if_neg (captured.mp rfl), ← types]
    cases placed <;> cases origin <;> rfl

theorem index_iff (a : Adds s type m origin p) (h : s.WellFormed) (other : String) (i : Nat) :
    p.1.index[other]? = some i ↔ p.1.names[i]? = some other := by
  cases a with
  | had => exact h.index_iff other i
  | added placed =>
    rw [index_credit, names, records_credit]
    exact placed.index_iff h other i

theorem wellFormed (a : Adds s type m origin p) (h : s.WellFormed) : p.1.WellFormed := by
  have same : p.1.metadata = (s.metadata.addField type ⟨m.name, m.kind, origin⟩).1 :=
    congrArg Prod.fst (a.refines h)
  have sound : p.1.metadata.Sound := by
    rw [same]
    exact h.sound.addField type _
  refine ⟨?_, a.index_iff h, ?_, ?_, ?_, ?_⟩
  · rw [← typeNames_metadata]
    exact sound.types_nodup
  · intro r hr none
    have shown : p.1.metadata.fieldsOf r.name = (r.typeRecord p.1.origins).fields :=
      sound.fieldsOf_name (List.mem_map_of_mem hr)
    have mem : r.name ∈ p.1.metadata.typeNames := by
      rw [typeNames_metadata]
      exact List.mem_map_of_mem hr
    apply sound.fields_ne_nil r.name mem
    rw [shown, Record.typeRecord, none, List.map_nil]
  · intro r hr
    have shown := sound.fieldsOf_name (List.mem_map_of_mem hr)
    rw [← names_fields r p.1.origins, ← shown]
    exact sound.fields_nodup _
  · intro other name key
    apply captured_of_isSome_field?
    rw [← Std.ExtHashMap.isSome_getElem?_iff_mem, a.getElem?_origins h] at key
    rw [same, Metadata.field?_addField]
    split at key
    · rename_i this
      obtain ⟨rfl, rfl⟩ := Prod.mk.inj this.2
      simp
    · rw [Std.ExtHashMap.isSome_getElem?_iff_mem] at key
      have captured := (h.captured_iff other name).mp (h.origins_captured other name key)
      rw [Option.isSome_or, captured, Bool.true_or]
  · intro key file hk
    rw [a.getElem?_origins h] at hk
    have includes : p.1.includes = p.1.metadata.includes := rfl
    rw [includes, same, Metadata.mem_includes_addField]
    split at hk
    · rename_i this
      have absent := (a.captured_iff h).mp this.1
      rw [h.captured_iff] at absent
      exact .inr ⟨by simpa using absent, hk⟩
    · exact .inl (h.origins_listed key file hk)

end Adds

section Merge

variable {s : IndexedStore}

/-- A capture in a well-formed store has a result, which is well-formed and registers the field. -/
theorem WellFormed.addField (h : s.WellFormed) (type : String) (m : Member)
    (origin : Option String) :
    ∃ t new, s.addField type m origin = some (t, new) ∧ t.WellFormed ∧
      (t.metadata, new) = s.metadata.addField type ⟨m.name, m.kind, origin⟩ := by
  obtain ⟨⟨t, new⟩, added, a⟩ := h.exists_adds type m origin
  exact ⟨t, new, added, a.wellFormed h, a.refines h⟩

/-- A round of a merge registers the field as the other store has it. -/
theorem WellFormed.takeOver (h : s.WellFormed) (type : String) (m : Member) {left origins : Origins}
    (same : left[(type, m.name)]? = origins[(type, m.name)]?) :
    ∃ t left', IndexedStore.takeOver type (s, left) m = some (t, left') ∧ t.WellFormed ∧
      t.metadata = (s.metadata.addField type (m.field origins type)).1 ∧
      ∀ key, key ≠ (type, m.name) → left'[key]? = left[key]? := by
  obtain ⟨t, new, added, wellFormed, refines⟩ := h.addField type m left[(type, m.name)]?
  refine ⟨t, if new then left.erase (type, m.name) else left, ?_, wellFormed, ?_, ?_⟩
  · rw [IndexedStore.takeOver, added, Option.map_some]
  · rw [Member.field, ← same, ← refines]
  · intro key other
    cases new with
    | false => rfl
    | true => rw [if_pos rfl, Std.ExtHashMap.getElem?_erase, if_neg (by simpa using other.symm)]

theorem WellFormed.takeOver_members (h : s.WellFormed) (type : String) {ms : List Member}
    (nodup : (ms.map Member.name).Nodup) {left origins : Origins}
    (same : ∀ m ∈ ms, left[(type, m.name)]? = origins[(type, m.name)]?) :
    ∃ t left', ms.foldlM (IndexedStore.takeOver type) (s, left) = some (t, left') ∧
      t.WellFormed ∧
      t.metadata = s.metadata.addFields type (ms.map (·.field origins type)) ∧
      ∀ key : String × String, key.1 ≠ type → left'[key]? = left[key]? := by
  induction ms generalizing s left with
  | nil => exact ⟨s, left, rfl, h, rfl, fun _ _ => rfl⟩
  | cons m ms ih =>
    rw [List.map_cons, List.nodup_cons] at nodup
    obtain ⟨t, left', first, ht, registers, kept⟩ := h.takeOver type m (same m List.mem_cons_self)
    -- The later members have other names, so their origins are still there.
    have later : ∀ m' ∈ ms, left'[(type, m'.name)]? = origins[(type, m'.name)]? := by
      intro m' hm'
      rw [kept, same m' (List.mem_cons_of_mem m hm')]
      intro key
      exact nodup.1 ((Prod.mk.inj key).2 ▸ List.mem_map_of_mem hm')
    obtain ⟨u, left'', rest, hu, registers', kept'⟩ := ih ht nodup.2 later
    refine ⟨u, left'', ?_, hu, ?_, ?_⟩
    · rw [List.foldlM_cons, first]
      exact rest
    · rw [registers', registers]
      rfl
    · intro key other
      rw [kept' key other, kept key fun here => other (congrArg Prod.fst here)]

theorem WellFormed.takeOver_records (h : s.WellFormed) {rs : List Record}
    (types : (rs.map Record.name).Nodup) (members : ∀ r ∈ rs, r.names.Nodup)
    {left origins : Origins}
    (same : ∀ r ∈ rs, ∀ name : String, left[(r.name, name)]? = origins[(r.name, name)]?) :
    ∃ t left', rs.foldlM takeOverRecord (s, left) = some (t, left') ∧ t.WellFormed ∧
      t.metadata = s.metadata.addTypes (rs.map (·.typeRecord origins)) := by
  induction rs generalizing s left with
  | nil => exact ⟨s, left, rfl, h, rfl⟩
  | cons r rs ih =>
    rw [List.map_cons, List.nodup_cons] at types
    obtain ⟨t, left', first, ht, registers, kept⟩ := h.takeOver_members r.name
      (members r List.mem_cons_self) fun m _ => same r List.mem_cons_self m.name
    have later : ∀ r' ∈ rs, ∀ name : String,
        left'[(r'.name, name)]? = origins[(r'.name, name)]? := by
      intro r' hr' name
      rw [kept, same r' (List.mem_cons_of_mem r hr')]
      intro key
      exact types.1 (key ▸ List.mem_map_of_mem hr')
    obtain ⟨u, left'', rest, hu, registers'⟩ :=
      ih ht types.2 (fun r' hr' => members r' (List.mem_cons_of_mem r hr')) later
    refine ⟨u, left'', ?_, hu, ?_⟩
    · rw [List.foldlM_cons, takeOverRecord, first]
      exact rest
    · rw [registers', registers]
      rfl

/-- A merge of well-formed stores has a result, which is well-formed and registers the merge. -/
theorem WellFormed.merge (h : s.WellFormed) {x : IndexedStore} (hx : x.WellFormed) :
    ∃ t, s.merge x = some t ∧ t.WellFormed ∧ t.metadata = s.metadata.merge x.metadata := by
  have untouched : ∀ r ∈ x.records, ∀ name : String,
      x.origins[(r.name, name)]? = x.origins[(r.name, name)]? := fun _ _ _ => rfl
  obtain ⟨t, left, all, ht, registers⟩ :=
    h.takeOver_records hx.names_nodup hx.members_nodup untouched
  refine ⟨t.mergeInstances x, ?_, ?_, ?_⟩
  · rw [IndexedStore.merge, all, Option.map_some]
  · exact ⟨ht.1, ht.2, ht.3, ht.4, ht.5, ht.6⟩
  · rw [Metadata.merge_eq]
    have types : x.metadata.types = x.records.map (·.typeRecord x.origins) := rfl
    rw [types, ← registers]
    rfl

theorem WellFormed.addInclude (h : s.WellFormed) (file : String) :
    (s.addInclude file).WellFormed where
  names_nodup := h.names_nodup
  index_iff := h.index_iff
  members_ne_nil := h.members_ne_nil
  members_nodup := h.members_nodup
  origins_captured := h.origins_captured
  origins_listed key other hk :=
    (SortedSet.mem_insert _ _ _).mpr (.inr (h.origins_listed key other hk))

theorem WellFormed.record (h : s.WellFormed) (p : TypePattern) : (s.record p).WellFormed := by
  cases p <;> exact ⟨h.1, h.2, h.3, h.4, h.5, h.6⟩

theorem metadata_record (s : IndexedStore) (p : TypePattern) :
    (s.record p).metadata = (s.metadata.record p).1 := by
  cases p <;> rfl

end Merge

end IndexedStore

end ReflectGen
