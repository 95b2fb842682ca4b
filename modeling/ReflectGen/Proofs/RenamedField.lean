import ReflectGen.Proofs.TwinScans

namespace ReflectGen

/-- A field under the name `new` if its name is `old`. -/
def Field.renamed (old new : String) (f : Field) : Field :=
  if f.name = old then { f with name := new } else f

def TypeRecord.rename (old new : String) (r : TypeRecord) : TypeRecord :=
  { r with fields := r.fields.map (Field.renamed old new) }

/-- Metadata where the field `old` of a type has the name `new`. -/
def Metadata.rename (type old new : String) (m : Metadata) : Metadata :=
  { m with types := m.types.map fun r => if r.name = type then r.rename old new else r }

section Store

variable {type old new : String}

theorem Field.name_renamed_eq_iff {f g : Field} (hf : f.name ≠ new) (hg : g.name ≠ new) :
    (f.renamed old new).name = (g.renamed old new).name ↔ f.name = g.name := by
  unfold Field.renamed
  by_cases ef : f.name = old <;> by_cases eg : g.name = old <;> simp_all [eq_comm]

namespace TypeRecord

/-- A name that no field takes on can be given to one without a clash. -/
theorem isSome_field?_rename {r : TypeRecord} {f : Field} (fresh : r.field? new = none)
    (hf : f.name ≠ new) :
    ((r.rename old new).field? (f.renamed old new).name).isSome = (r.field? f.name).isSome := by
  have others : ∀ g ∈ r.fields, g.name ≠ new := by
    intro g hg same
    exact List.find?_eq_none.mp fresh g hg (by simp [same])
  rw [Bool.eq_iff_iff]
  simp only [field?, rename, List.find?_isSome, List.mem_map, beq_iff_eq, exists_exists_and_eq_and]
  apply exists_congr
  intro g
  apply and_congr_right
  intro hg
  exact Field.name_renamed_eq_iff (others g hg) hf

theorem rename_insert {r : TypeRecord} {f : Field} (fresh : r.field? new = none)
    (hf : f.name ≠ new) :
    (r.insert f).rename old new = (r.rename old new).insert (f.renamed old new) := by
  unfold insert
  rw [isSome_field?_rename fresh hf]
  split
  · rfl
  · simp [rename]

end TypeRecord

namespace Metadata

/-- A field of the type `other` once the one of `type` is renamed. -/
def renamedIn (type old new other : String) (f : Field) : Field :=
  if other = type then f.renamed old new else f

theorem origin_renamedIn (other : String) (f : Field) :
    (renamedIn type old new other f).origin = f.origin := by
  unfold renamedIn Field.renamed
  split
  · split <;> rfl
  · rfl

theorem type?_rename (m : Metadata) (other : String) :
    (m.rename type old new).type? other =
      (m.type? other).map fun r => if r.name = type then r.rename old new else r := by
  have name : ((fun r : TypeRecord => r.name == other) ∘
      fun r => if r.name = type then r.rename old new else r) = fun r => r.name == other := by
    funext r
    simp only [Function.comp_apply]
    split <;> rfl
  unfold type? rename
  rw [List.find?_map, name]

theorem field?_of_type? {m : Metadata} {r : TypeRecord} (h : m.type? type = some r)
    (name : String) : m.field? type name = r.field? name := by
  simp [field?, h]

theorem isSome_field?_rename {m : Metadata} {other : String} {f : Field}
    (fresh : m.field? type new = none) (hf : other = type → f.name ≠ new) :
    ((m.rename type old new).field? other (renamedIn type old new other f).name).isSome =
      (m.field? other f.name).isSome := by
  unfold field?
  rw [type?_rename]
  cases found : m.type? other with
  | none => rfl
  | some r =>
    have name : r.name = other := by simpa using List.find?_some found
    by_cases ho : other = type
    · subst ho
      rw [field?_of_type? found] at fresh
      simpa [renamedIn, name] using TypeRecord.isSome_field?_rename fresh (hf rfl)
    · simp [renamedIn, name, ho]

theorem map_rename_insertField {ts : List TypeRecord} {other : String} {f : Field}
    (fresh : other = type → ∀ r, ts.find? (·.name == other) = some r → r.field? new = none)
    (hf : other = type → f.name ≠ new) :
    (insertField other f ts).map (fun r => if r.name = type then r.rename old new else r) =
      insertField other (renamedIn type old new other f)
        (ts.map fun r => if r.name = type then r.rename old new else r) := by
  have name (r : TypeRecord) : (if r.name = type then r.rename old new else r).name = r.name := by
    split <;> rfl
  induction ts with
  | nil => by_cases ho : other = type <;> simp [insertField, renamedIn, ho, TypeRecord.rename]
  | cons r ts ih =>
    rw [List.map_cons, insertField, insertField, name]
    by_cases hr : r.name = other
    · subst hr
      by_cases ht : r.name = type
      · have absent : r.field? new = none := fresh ht r (by simp)
        simp [renamedIn, ht, TypeRecord.rename_insert absent (hf ht)]
      · simp [renamedIn, ht]
    · rw [if_neg hr, if_neg hr, List.map_cons, ih]
      intro ho q hq
      exact fresh ho q (by simp [hr, hq])

theorem rename_addField {m : Metadata} {other : String} {f : Field}
    (fresh : m.field? type new = none) (hf : other = type → f.name ≠ new) :
    (m.addField other f).1.rename type old new =
      ((m.rename type old new).addField other (renamedIn type old new other f)).1 := by
  unfold addField
  rw [isSome_field?_rename fresh hf, origin_renamedIn]
  split
  · rfl
  · have absent : other = type → ∀ r, m.type? other = some r → r.field? new = none := by
      rintro rfl r hr
      rw [← field?_of_type? hr]
      exact fresh
    simp only [rename, map_rename_insertField absent hf]

theorem rename_recordType (m : Metadata) (spelling : String) :
    (m.recordType spelling).rename type old new =
      (m.rename type old new).recordType spelling := by
  unfold recordType
  induction TypePattern.classify spelling generalizing m with
  | nil => rfl
  | cons p ps ih =>
    rw [List.foldl_cons, List.foldl_cons, ih]
    cases p <;> rfl

end Metadata

end Store

namespace DeclTree

/-- The declaration numbered `id` under another spelling. -/
def Node.respelled (id : Nat) (spelling : String) (n : Node) : Node :=
  if n.id = id then { n with decl := { n.decl with spelling } } else n

/-- The entry numbered `n`, under another spelling if `n` is `id`. -/
def entryRespelled (id : Nat) (spelling : String) (e : Entry) (n : Nat) : Entry :=
  ⟨e.parent, (Node.respelled id spelling ⟨n, e.decl⟩).decl⟩

def respell (t : DeclTree) (id : Nat) (spelling : String) : DeclTree where
  file := t.file
  entries := (t.entries.zipIdx 1).map fun x => entryRespelled id spelling x.1 x.2
  parent_le := by
    intro i e h
    simp only [List.getElem?_map, List.getElem?_zipIdx, Option.map_map,
      Option.map_eq_some_iff] at h
    obtain ⟨e, he, rfl⟩ := h
    exact t.parent_le i e he

@[simp] theorem Node.id_respelled (id : Nat) (spelling : String) (n : Node) :
    (n.respelled id spelling).id = n.id := by
  unfold Node.respelled
  split <;> rfl

theorem below_respelled (id : Nat) (spelling : String) (entries : List Entry) (next above : Nat) :
    below next ((entries.zipIdx next).map fun x => entryRespelled id spelling x.1 x.2) above =
      (below next entries above).map (Node.respelled id spelling) := by
  induction entries generalizing next above with
  | nil => rfl
  | cons e rest ih =>
    have first : ⟨next, (entryRespelled id spelling e next).decl⟩ =
        Node.respelled id spelling ⟨next, e.decl⟩ := by
      unfold entryRespelled Node.respelled
      split <;> rfl
    rw [List.zipIdx_cons, List.map_cons, below, below, first, ih, ih, apply_ite (Forest.map _)]
    rfl

theorem forest_respell (t : DeclTree) (id : Nat) (spelling : String) :
    (t.respell id spelling).forest 0 = (t.forest 0).map (Node.respelled id spelling) :=
  below_respelled id spelling t.entries 1 0

end DeclTree

namespace Scan

open DeclTree (Node)

section Run

variable {root : Path} {t : DeclTree} {c d : Call} {new : String}

/-- The member that a call accepts may take on another name: no other accepted member of a type of
that name has the old one, and the new one is no directive and no name of an accepted member. -/
structure Call.Renamable (root : Path) (t : DeclTree) (c : Call) (new : String) : Prop where
  met : c ∈ log root t
  accepted : c.Accepts
  alone : ∀ d ∈ log root t, d.Accepts →
    d.above.decl.type.canonical = c.above.decl.type.canonical →
    d.next.decl.spelling = c.next.decl.spelling → d.next.id = c.next.id
  plain : Directive.ofMarker? new = none
  fresh : ∀ d ∈ log root t, d.Accepts →
    d.above.decl.type.canonical = c.above.decl.type.canonical → d.next.decl.spelling ≠ new

/-- A scan and the one where the field of a type has another name. -/
structure Renames (t : DeclTree) (type old new : String) (p p' : Progress) : Prop where
  tracks : Tracks t p
  fresh : p.metadata.field? type new = none
  state : p'.state = p.state
  metadata : p'.metadata = p.metadata.rename type old new

theorem Call.Renamable.counterpart (h : c.Renamable root t new) (hd : d ∈ log root t) :
    Counterpart d.next (d.next.respelled c.next.id new) := by
  unfold Node.respelled
  by_cases hid : d.next.id = c.next.id
  · obtain ⟨same, -⟩ := decl_eq_of_id_eq h.met hd hid
    obtain ⟨plain, record, mark, -, -, fits⟩ := h.accepted
    obtain ⟨kind, hk⟩ := Option.isSome_iff_exists.mp fits
    have member := (fieldKind?_eq_some hk).2
    rw [if_pos hid, same]
    refine ⟨rfl, rfl, rfl, rfl, h.plain.trans plain.symm, fun reflectable => ?_⟩
    -- A member is no record, so no spelling of it is bound.
    have isRecord := reflectable.1
    rw [member] at isRecord
    split at isRecord <;> cases isRecord
  · rw [if_neg hid]
    exact ⟨rfl, rfl, rfl, rfl, rfl, fun _ => rfl⟩

theorem Call.Renamable.captured_eq (h : c.Renamable root t new) (hd : d ∈ log root t)
    (accepts : d.Accepts) (kind : FieldKind) :
    captured root (d.next.respelled c.next.id new).decl kind =
      Metadata.renamedIn c.above.decl.type.canonical c.next.decl.spelling new
        d.above.decl.type.canonical (captured root d.next.decl kind) := by
  unfold Node.respelled Metadata.renamedIn
  by_cases hid : d.next.id = c.next.id
  · obtain ⟨next, above⟩ := decl_eq_of_id_eq h.met hd hid
    simp [next, above, captured, Field.renamed]
  · by_cases ht : d.above.decl.type.canonical = c.above.decl.type.canonical
    · have other : d.next.decl.spelling ≠ c.next.decl.spelling :=
        fun same => hid (h.alone d hd accepts ht same)
      simp [hid, ht, captured, Field.renamed, other]
    · simp [hid, ht]

/-- A call at a declaration, and the one at it in the file where one member has another name. -/
theorem Call.Renamable.renames_after {q : Progress} (h : c.Renamable root t new)
    (hd : d ∈ log root t)
    (hr : Renames t c.above.decl.type.canonical c.next.decl.spelling new d.before q) :
    (step root q (d.next.respelled c.next.id new) (d.above.respelled c.next.id new)).2 =
        (step root d.before d.next d.above).2 ∧
      Renames t c.above.decl.type.canonical c.next.decl.spelling new (d.after root)
        (step root q (d.next.respelled c.next.id new)
          (d.above.respelled c.next.id new)).1 := by
  have edge := mem_edges_of_mem_log hd
  obtain ⟨visit, state, written⟩ :=
    step_counterpart root hr.state (Node.id_respelled c.next.id new d.above) (h.counterpart hd)
  refine ⟨visit, tracks_after edge hr.tracks, ?_, state, ?_⟩
  -- Both steps register nothing, or both the same member, each under its own name.
  all_goals
    rcases written with ⟨here, there⟩ | ⟨record, mark, kind, hs, hid, accepts, here, there⟩
  · rw [Call.after, here]
    exact hr.fresh
  · have inside := hr.tracks.record_eq edge hs hid
    rw [Call.after, here, Metadata.field?_recordType, Metadata.field?_addField, hr.fresh, inside]
    rw [if_neg]
    · rfl
    · rintro ⟨ht, hn⟩
      exact h.fresh d hd accepts ht.symm hn.symm
  · rw [Call.after, here, there]
    exact hr.metadata
  · have inside := hr.tracks.record_eq edge hs hid
    rw [Call.after, here, there, inside, Metadata.rename_recordType, hr.metadata,
      h.captured_eq hd accepts, Metadata.rename_addField hr.fresh]
    exact h.fresh d hd accepts

/-- What is registered differs in the name of the field. -/
theorem Call.Renamable.metadata_scan (h : c.Renamable root t new) :
    (scan root (t.respell c.next.id new)).metadata =
      (scan root t).metadata.rename c.above.decl.type.canonical c.next.decl.spelling new := by
  have start : Renames t c.above.decl.type.canonical c.next.decl.spelling new {} {} :=
    ⟨tracks_start t, rfl, rfl, rfl⟩
  have unit : t.unit.respelled c.next.id new = t.unit := by
    have parent := (DeclTree.edge_spec (mem_edges_of_mem_log h.met)).2.2
    have other : ¬t.unit.id = c.next.id := by
      intro same
      rw [← same] at parent
      cases parent
    rw [Node.respelled, if_neg other]
  have run := runCalls_map start fun d hd q hr => h.renames_after hd hr
  rw [ReflectGen.metadata_scan, ReflectGen.metadata_scan, walk_eq_runCalls, walk_eq_runCalls,
    DeclTree.forest_respell]
  rw [unit] at run
  exact run.metadata

end Run

end Scan

theorem map_ite_split {α : Type} (key : α → String) (g : α → α) {l : List α} {a : α}
    (nodup : (l.map key).Nodup) (ha : a ∈ l) :
    ∃ us vs, l = us ++ a :: vs ∧
      l.map (fun b => if key b = key a then g b else b) = us ++ g a :: vs := by
  obtain ⟨us, vs, rfl⟩ := List.append_of_mem ha
  rw [List.map_append, List.map_cons, List.nodup_append, List.nodup_cons] at nodup
  obtain ⟨-, ⟨after, -⟩, apart⟩ := nodup
  refine ⟨us, vs, rfl, ?_⟩
  have left : ∀ b ∈ us, (if key b = key a then g b else b) = id b := by
    intro b hb
    exact if_neg (apart _ (List.mem_map_of_mem hb) _ List.mem_cons_self)
  have right : ∀ b ∈ vs, (if key b = key a then g b else b) = id b := by
    intro b hb
    exact if_neg fun same : key b = key a => after (same ▸ List.mem_map_of_mem hb)
  rw [List.map_append, List.map_cons, List.map_congr_left left, List.map_congr_left right,
    List.map_id, List.map_id, if_pos rfl]

namespace Metadata

variable {m : Metadata} {type new : String} {f : Field}

theorem fieldsOf_rename (old : String) :
    (m.rename type old new).fieldsOf type = (m.fieldsOf type).map (Field.renamed old new) := by
  rw [fieldsOf, fieldsOf, type?_rename]
  cases found : m.type? type with
  | none => rfl
  | some r =>
    have name : r.name = type := by simpa using List.find?_some found
    simp [name, TypeRecord.rename]

/-- A field of sound metadata stands in one place, and there the other name is given. -/
theorem Sound.types_rename (h : m.Sound) (hf : f ∈ m.fieldsOf type) :
    ∃ us vs fs gs, m.types = us ++ ⟨type, fs ++ f :: gs⟩ :: vs ∧
      (m.rename type f.name new).types =
        us ++ ⟨type, fs ++ { f with name := new } :: gs⟩ :: vs := by
  unfold fieldsOf at hf
  cases found : m.type? type with
  | none => simp [found] at hf
  | some r =>
    have name : r.name = type := by simpa using List.find?_some found
    have nodup := h.fields_nodup type
    rw [fieldsOf, found] at nodup
    rw [found] at hf
    obtain ⟨fs, gs, fields, renamed⟩ :=
      map_ite_split Field.name (fun g => { g with name := new }) nodup hf
    obtain ⟨us, vs, types, changed⟩ :=
      map_ite_split TypeRecord.name (TypeRecord.rename f.name new) h.types_nodup
        (List.mem_of_find?_eq_some found)
    refine ⟨us, vs, fs, gs, ?_, ?_⟩
    · obtain ⟨rname, rfields⟩ := r
      simp only at name fields
      subst name fields
      exact types
    · have fields : (r.rename f.name new).fields = fs ++ { f with name := new } :: gs := renamed
      rw [rename, ← name, changed, ← fields]
      rfl

end Metadata

namespace Emit

/-- The line of a field in the registration file. -/
def fieldText (type : String) (f : Field) : List Char :=
  (row "    " 2 (fieldLine type f)).toList ++ ['\n']

theorem fieldText_inj {type : String} {f g : Field} (h : fieldText type f = fieldText type g) :
    f.name = g.name := by
  have line := fieldLine_inj (row_inj (String.toList_inj.mp (List.append_cancel_right h)))
  exact congrArg Prod.fst line

theorem oneLine_fieldRow {type : String} {f : Field} (ht : OneLine type) (hf : OneLine f.name) :
    OneLine (row "    " 2 (fieldLine type f)) := by
  have keyword : OneLine (fieldMacro f.kind) := by cases f.kind <;> decide
  apply oneLine_row
  simp only [fieldLine, oneLine_append]
  exact ⟨⟨⟨⟨⟨keyword, by decide⟩, ht⟩, by decide⟩, hf⟩, by decide⟩

/-- The lines above and below a row do not depend on it. -/
theorem lines_join {r : String} (h : OneLine r) (above below : List String) :
    Text.lines (String.join ((above ++ r :: below).map (· ++ "\n"))).toList =
      Text.lines (String.join (above.map (· ++ "\n"))).toList ++
        (r.toList ++ ['\n']) :: Text.lines (String.join (below.map (· ++ "\n"))).toList := by
  have first (q : String) (rows : List String) :
      Text.lines (String.join ((q :: rows).map (· ++ "\n"))).toList =
        Text.lines (q.toList ++ ['\n']) ++
          Text.lines (String.join (rows.map (· ++ "\n"))).toList := by
    rw [← Text.lines_append]
    simp [String.toList_join]
  induction above with
  | nil =>
    rw [List.nil_append, first, Text.lines_of_oneLine h]
    rfl
  | cons q above ih => rw [List.cons_append, first, ih, first, List.append_assoc]

/-- The rows of a file above the blocks of its types. -/
def rowsAboveTypes (m : Metadata) : List String :=
  preamble ++ m.includes.elems.map includeLine ++ accessors ++
    (primitives.map fun p => primitive p.1 p.2).flatMap blockRows ++
    blockRows (stringConversions m) ++
    (capacities m).flatMap (fun n => blockRows (stringBlock n)) ++
    m.elements.elems.flatMap fun e => blockRows (sequenceBlock e)

theorem rows_eq_rowsAboveTypes (m : Metadata) :
    (registration m).rows "    " 0 =
      rowsAboveTypes m ++ (m.types.flatMap (fun r => blockRows (typeBlock r)) ++ ending) := by
  simp [rows_registration, flatMap_blocks, rowsAboveTypes]

/-- The rows of a type around one of its fields. -/
theorem blockRows_typeBlock (type : String) (fs gs : List Field) :
    ∃ above below, ∀ f, blockRows (typeBlock ⟨type, fs ++ f :: gs⟩) =
      above ++ row "    " 2 (fieldLine type f) :: below := by
  refine ⟨row "    " 1 ("BEGIN_SERIALIZE_TYPE(" ++ type ++ ")") ::
      (fs.map (fieldLine type)).map (row "    " 2),
    (gs.map (fieldLine type)).map (row "    " 2) ++
      [row "    " 1 ("END_SERIALIZE_TYPE(" ++ type ++ ")"), ""], fun f => ?_⟩
  simp [typeBlock, blockRows_registered]

theorem rows_rename {m : Metadata} {type : String} {f : Field} (h : m.Sound)
    (hf : f ∈ m.fieldsOf type) (new : String) :
    ∃ above below, (registration m).rows "    " 0 =
        above ++ row "    " 2 (fieldLine type f) :: below ∧
      (registration (m.rename type f.name new)).rows "    " 0 =
        above ++ row "    " 2 (fieldLine type { f with name := new }) :: below := by
  obtain ⟨us, vs, fs, gs, types, renamed⟩ := h.types_rename hf
  obtain ⟨above, below, block⟩ := blockRows_typeBlock type fs gs
  have start : rowsAboveTypes (m.rename type f.name new) = rowsAboveTypes m := rfl
  rw [rows_eq_rowsAboveTypes, rows_eq_rowsAboveTypes, start, types, renamed]
  refine ⟨rowsAboveTypes m ++ us.flatMap (fun r => blockRows (typeBlock r)) ++ above,
    below ++ vs.flatMap (fun r => blockRows (typeBlock r)) ++ ending, ?_, ?_⟩
  · simp [block]
  · simp [block]

theorem lines_render_rename {m : Metadata} {type new : String} {f : Field} (h : m.Sound)
    (hf : f ∈ m.fieldsOf type) (typeLine : OneLine type) (oldLine : OneLine f.name)
    (newLine : OneLine new) :
    ∃ above below, Text.lines (render m).toList = above ++ fieldText type f :: below ∧
      Text.lines (render (m.rename type f.name new)).toList =
        above ++ fieldText type { f with name := new } :: below := by
  obtain ⟨above, below, rows, renamed⟩ := rows_rename h hf new
  rw [render_eq, render_eq, rows, renamed, lines_join (oneLine_fieldRow typeLine oldLine),
    lines_join (oneLine_fieldRow typeLine newLine)]
  exact ⟨_, _, rfl, rfl⟩

end Emit

/-- A member under another name that is free changes one line of the registration file: the one of
its field. -/
theorem renamed_field_changes_one_line (root : Path) (t : DeclTree) {c : Scan.Call} {new : String}
    (h : c.Renamable root t new)
    (names : ∀ name ∈ [c.above.decl.type.canonical, c.next.decl.spelling, new],
      Emit.OneLine name) :
    ∃ f ∈ (scan root t).metadata.fieldsOf c.above.decl.type.canonical,
      f.name = c.next.decl.spelling ∧
      { f with name := new } ∈
        (scan root (t.respell c.next.id new)).metadata.fieldsOf c.above.decl.type.canonical ∧
      ∃ above below,
        Text.lines (Emit.render (scan root t).metadata).toList =
            above ++ Emit.fieldText c.above.decl.type.canonical f :: below ∧
          Text.lines (Emit.render (scan root (t.respell c.next.id new)).metadata).toList =
            above ++ Emit.fieldText c.above.decl.type.canonical { f with name := new } :: below ∧
          Emit.fieldText c.above.decl.type.canonical f ≠
            Emit.fieldText c.above.decl.type.canonical { f with name := new } := by
  simp only [List.forall_mem_cons] at names
  obtain ⟨typeLine, oldLine, newLine, -⟩ := names
  have registered := Scan.Call.Accepts.isSome_field? h.met h.accepted
  rw [Metadata.field?_eq_find?, List.find?_isSome] at registered
  obtain ⟨f, hf, name⟩ := registered
  rw [beq_iff_eq] at name
  rw [← name] at oldLine
  obtain ⟨above, below, here, there⟩ :=
    Emit.lines_render_rename (scan_sound root t) hf typeLine oldLine newLine
  rw [h.metadata_scan, ← name]
  refine ⟨f, hf, rfl, ?_, above, below, here, there, fun same => ?_⟩
  · rw [Metadata.fieldsOf_rename, List.mem_map]
    exact ⟨f, hf, if_pos rfl⟩
  · have clash : c.next.decl.spelling = new := name ▸ Emit.fieldText_inj same
    exact h.fresh c h.met h.accepted rfl clash

section Sibling

/-- The record with a second member of another name. -/
def siblingMember : Decl := { pairMember with spelling := "b" }

def siblings : DeclTree :=
  .ofForest ⟨"/p/a.h"⟩
    (.cons pairDirective .nil (.cons pairRecord (.leaves [pairMember, siblingMember]) .nil))

def siblingCall : Scan.Call :=
  ⟨{ state := .inside ⟨2, pairRecord⟩ }, ⟨3, pairMember⟩, ⟨2, pairRecord⟩⟩

theorem siblings_renamable : siblingCall.Renamable ⟨"/p"⟩ siblings "c" where
  met := by decide
  accepted := ⟨by decide, ⟨2, pairRecord⟩, none, rfl, rfl, rfl⟩
  alone := by
    have ids : ∀ d ∈ Scan.log ⟨"/p"⟩ siblings, d.next.decl.spelling = "a" → d.next.id = 3 := by
      decide +kernel
    intro d hd _ _ name
    exact ids d hd name
  plain := by decide
  fresh := by
    have names : ∀ d ∈ Scan.log ⟨"/p"⟩ siblings, d.next.decl.spelling ≠ "c" := by decide +kernel
    intro d hd _ _
    exact names d hd

theorem siblings_rename_one_line :
    ∃ above below,
      Text.lines (Emit.render (scan ⟨"/p"⟩ siblings).metadata).toList =
          above ++ "        SERIALIZE_FIELD(Foo, a)\n".toList :: below ∧
        Text.lines (Emit.render (scan ⟨"/p"⟩ (siblings.respell 3 "c")).metadata).toList =
          above ++ "        SERIALIZE_FIELD(Foo, c)\n".toList :: below := by
  obtain ⟨f, hf, name, -, above, below, here, there, -⟩ :=
    renamed_field_changes_one_line ⟨"/p"⟩ siblings siblings_renamable (by decide)
  have only : ∀ f ∈ (scan ⟨"/p"⟩ siblings).metadata.fieldsOf "Foo", f.name = "a" →
      Emit.fieldText "Foo" f = "        SERIALIZE_FIELD(Foo, a)\n".toList ∧
        Emit.fieldText "Foo" { f with name := "c" } =
          "        SERIALIZE_FIELD(Foo, c)\n".toList := by
    decide +kernel
  obtain ⟨old, new⟩ := only f hf name
  rw [← old, ← new]
  exact ⟨above, below, here, there⟩

end Sibling

end ReflectGen
