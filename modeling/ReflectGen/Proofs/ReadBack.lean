import ReflectGen.Proofs.WrittenRows

namespace ReflectGen

/-- What a file shows of a type: its name, and its fields in order with their kinds. -/
def TypeRecord.shown (r : TypeRecord) : String × List (String × FieldKind) :=
  (r.name, r.fields.map fun f => (f.name, f.kind))

/-- No name that a file shows holds a line feed. -/
structure Metadata.OneLine (m : Metadata) : Prop where
  types : ∀ r ∈ m.types, Emit.OneLine r.name
  fields : ∀ r ∈ m.types, ∀ f ∈ r.fields, Emit.OneLine f.name
  includes : ∀ file ∈ m.includes.elems, Emit.OneLine file
  elements : ∀ e ∈ m.elements.elems, Emit.OneLine e

namespace Emit

section Row

variable {indent : String} {depth : Nat} {a b : String}

theorem row_zero : row indent 0 = id := by
  funext text
  unfold row
  split
  · symm
    assumption
  · exact String.empty_append

theorem row_inj (h : row indent depth a = row indent depth b) : a = b := by
  unfold row at h
  split at h <;> split at h <;> simp_all

/-- A row that starts with a letter is no row of a deeper level. -/
theorem row_two_ne_row_one (hb : b.toList.head? ≠ some ' ') (hne : b ≠ "") :
    row "    " 2 a ≠ row "    " 1 b := by
  intro h
  by_cases ha : a = ""
  · simp [row, ha, hne] at h
  · have chars := congrArg String.toList h
    simp only [row, ha, hne] at chars
    have deeper : "    ".toList ++ a.toList = b.toList := by simpa using chars
    rw [← deeper] at hb
    simp at hb

theorem row_one_ne_brace : row "    " 1 a ≠ "\x7d" := by
  by_cases ha : a = ""
  · simp [row, ha]
  · intro h
    have texts := congrArg String.toList h
    simp [row, ha] at texts

end Row

/-- The rows of a block inside the registration function, with the blank one after it. -/
def blockRows (b : Layout) : List String := b.rows "    " 1 ++ [""]

theorem blockRows_scope (opening closing : String) (body : List String) :
    blockRows (.scope opening (some closing) (.lines body) .done) =
      row "    " 1 opening :: (body.map (row "    " 2) ++ [row "    " 1 closing, ""]) := by
  simp [blockRows, Layout.rows, Layout.rows_lines]

theorem blockRows_registered (type : String) (body : List String) :
    blockRows (registered type body) =
      row "    " 1 ("BEGIN_SERIALIZE_TYPE(" ++ type ++ ")") ::
        (body.map (row "    " 2) ++ [row "    " 1 ("END_SERIALIZE_TYPE(" ++ type ++ ")"), ""]) :=
  blockRows_scope ..

/-- The rows before the includes of a file. -/
def preamble : List String :=
  [generatedMark, "", "#include \"gen/gen.h\"", "#include <heart/deserialization.h>", ""]

/-- The rows between the includes and the blocks. -/
def accessors : List String :=
  ["", "template <typename T>", "void ReflectionSet(T& prop, T value)", "\x7b",
    "    prop = value;", "\x7d", "", "template <typename T>", "T ReflectionGet(T& prop)", "\x7b",
    "    return prop;", "\x7d", "", "void ReflectSerializedData()", "\x7b"]

def ending : List String := ["\x7d", "", generatedMark]

theorem includeLine_ne (file : String) : includeLine file ≠ "" := by
  simp [includeLine]

theorem read_includes {is js s t : List String}
    (h : is.map includeLine ++ (accessors ++ s) = js.map includeLine ++ (accessors ++ t)) :
    is = js ∧ s = t := by
  have blank : accessors = "" :: accessors.tail := rfl
  rw [blank, List.cons_append, List.cons_append] at h
  have lines := map_append_inj id ?_ (fun i _ => includeLine_ne i) (fun i _ => includeLine_ne i) h
  · obtain ⟨same, rest⟩ := lines
    exact ⟨by simpa using same, by simpa using rest⟩
  · intro i j hij
    simpa [includeLine] using hij

theorem rows_registration (m : Metadata) :
    (registration m).rows "    " 0 =
      preamble ++ (m.includes.elems.map includeLine ++
        (accessors ++ ((blocks m).flatMap blockRows ++ ending))) := by
  have blockPart : (Layout.concat ((blocks m).map (· ++ Layout.blank))).rows "    " 1 =
      (blocks m).flatMap blockRows := by
    rw [Layout.rows_concat, List.flatMap_map]
    congr 1
    funext b
    exact Layout.rows_append ..
  have body : row "    " 1 "prop = value;" = "    prop = value;" ∧
      row "    " 1 "return prop;" = "    return prop;" := by decide
  simp only [registration, header, Layout.rows_append, Layout.rows_lines, Layout.rows_block,
    Layout.rows_blank, Layout.rows, blockPart, row_zero, body.1, body.2]
  simp [preamble, accessors, ending, includeLine]

theorem flatMap_blocks (m : Metadata) :
    (blocks m).flatMap blockRows =
      (primitives.map fun p => primitive p.1 p.2).flatMap blockRows ++
        (blockRows (stringConversions m) ++
          ((capacities m).flatMap (fun n => blockRows (stringBlock n)) ++
            (m.elements.elems.flatMap (fun e => blockRows (sequenceBlock e)) ++
              m.types.flatMap fun r => blockRows (typeBlock r)))) := by
  simp [blocks, List.flatMap_map]

theorem fixedString_inj {c d : Nat} (h : fixedString c = fixedString d) : c = d := by
  have digits : Nat.toDigits 10 c = Nat.toDigits 10 d := by
    simpa [fixedString, Nat.repr_eq_ofList_toDigits, String.ofList_inj] using h
  rw [← Nat.ofDigitChars_ten_toDigits (n := c), digits, Nat.ofDigitChars_ten_toDigits]

/-- The macro of a field line tells the kind of the field, and the type is known from the block. -/
theorem fieldLine_inj {type : String} {f g : Field} (h : fieldLine type f = fieldLine type g) :
    (f.name, f.kind) = (g.name, g.kind) := by
  have chars := congrArg String.toList h
  obtain ⟨name, kind, origin⟩ := f
  obtain ⟨name', kind', origin'⟩ := g
  cases kind <;> cases kind' <;> simp [fieldLine, fieldMacro] at chars ⊢ <;>
    exact String.toList_inj.mp chars

/-- No field line ends the block it stands in. -/
theorem fieldRow_ne_end (type other : String) (f : Field) :
    row "    " 2 (fieldLine type f) ≠ row "    " 1 ("END_SERIALIZE_TYPE(" ++ other ++ ")") := by
  apply row_two_ne_row_one <;> simp

theorem read_type {r q : TypeRecord} {u v : List String}
    (h : blockRows (typeBlock r) ++ u = blockRows (typeBlock q) ++ v) :
    r.shown = q.shown ∧ u = v := by
  obtain ⟨name, fields⟩ := r
  obtain ⟨name', fields'⟩ := q
  simp only [typeBlock, blockRows_registered, List.cons_append, List.append_assoc, List.map_map,
    List.cons.injEq] at h
  obtain ⟨opening, body⟩ := h
  have same : name = name' := by simpa using row_inj opening
  subst same
  have lines := map_append_inj (f := row "    " 2 ∘ fieldLine name) (fun f => (f.name, f.kind))
    (fun f g hfg => fieldLine_inj (row_inj hfg)) (fun f _ => fieldRow_ne_end name name f)
    (fun f _ => fieldRow_ne_end name name f) body
  obtain ⟨shown, rest⟩ := lines
  refine ⟨by rw [TypeRecord.shown, TypeRecord.shown, shown], ?_⟩
  simpa using rest

theorem read_types {rs qs : List TypeRecord}
    (h : rs.flatMap (fun r => blockRows (typeBlock r)) ++ ending =
      qs.flatMap (fun r => blockRows (typeBlock r)) ++ ending) :
    rs.map TypeRecord.shown = qs.map TypeRecord.shown := by
  have stops : ∀ (r : TypeRecord) (u : List String), blockRows (typeBlock r) ++ u ≠ ending := by
    intro r u hu
    rw [typeBlock, blockRows_registered, ending] at hu
    exact row_one_ne_brace (List.cons.inj hu).1
  exact (flatMap_append_inj TypeRecord.shown (fun r _ q _ u v => read_type) (fun r _ => stops r)
    (fun r _ => stops r) h).1

theorem blockRows_sequenceBlock (e : String) :
    blockRows (sequenceBlock e) =
      [row "    " 1 ("BEGIN_SERIALIZE_TYPE(" ++ sequence e ++ ")"),
        row "    " 2 ("SERIALIZE_FUNCTION_ALIAS(" ++ sequence e ++ ", emplace_back<>)"),
        row "    " 2 ("SERIALIZE_FUNCTION_ALIAS(" ++ sequence e ++ ", reserve)"),
        row "    " 1 ("END_SERIALIZE_TYPE(" ++ sequence e ++ ")"), ""] := by
  rw [sequenceBlock, blockRows_registered]
  rfl

/-- A type may have the name of a sequence, but no row of its block is like the second one of a
sequence. -/
theorem sequenceBlock_ne_types (e : String) (rs : List TypeRecord) (u : List String) :
    blockRows (sequenceBlock e) ++ u ≠
      rs.flatMap (fun r => blockRows (typeBlock r)) ++ ending := by
  intro h
  rw [blockRows_sequenceBlock] at h
  cases rs with
  | nil => exact row_one_ne_brace (List.cons.inj h).1
  | cons r rs =>
    obtain ⟨name, fields⟩ := r
    rw [List.flatMap_cons, typeBlock, blockRows_registered] at h
    have second := (List.cons.inj h).2
    cases fields with
    | nil =>
      have row := (List.cons.inj second).1
      exact row_two_ne_row_one (by simp) (by simp) row
    | cons f fields =>
      have row := row_inj (List.cons.inj second).1
      have chars := congrArg String.toList row
      cases hk : f.kind <;> simp [fieldLine, fieldMacro, hk] at chars

theorem read_sequences {es fs : List String} {rs qs : List TypeRecord}
    (h : es.flatMap (fun e => blockRows (sequenceBlock e)) ++
        (rs.flatMap (fun r => blockRows (typeBlock r)) ++ ending) =
      fs.flatMap (fun e => blockRows (sequenceBlock e)) ++
        (qs.flatMap (fun r => blockRows (typeBlock r)) ++ ending)) :
    es = fs ∧ rs.map TypeRecord.shown = qs.map TypeRecord.shown := by
  have reads : ∀ e ∈ es, ∀ f ∈ fs, ∀ u v,
      blockRows (sequenceBlock e) ++ u = blockRows (sequenceBlock f) ++ v → e = f ∧ u = v := by
    intro e _ f _ u v huv
    rw [blockRows_sequenceBlock, blockRows_sequenceBlock] at huv
    have opening := row_inj (List.cons.inj huv).1
    have same : e = f := by simpa [sequence] using opening
    subst same
    exact ⟨rfl, List.append_cancel_left huv⟩
  obtain ⟨elements, types⟩ := flatMap_append_inj id reads
    (fun e _ u => sequenceBlock_ne_types e qs u) (fun e _ u => sequenceBlock_ne_types e rs u) h
  refine ⟨by simpa using elements, read_types types⟩

theorem read_capacities {m n : Metadata} {u v : List String}
    (h : blockRows (stringConversions m) ++ u = blockRows (stringConversions n) ++ v) :
    capacities m = capacities n ∧ u = v := by
  simp only [stringConversions, additive, blockRows_scope, List.cons_append, List.append_assoc,
    List.map_map, List.cons.injEq, true_and] at h
  have lines := map_append_inj id ?_ ?_ ?_ h
  · obtain ⟨same, rest⟩ := lines
    exact ⟨by simpa using same, by simpa using rest⟩
  · intro c d hcd
    apply fixedString_inj
    simpa using row_inj hcd
  · intro c _
    apply row_two_ne_row_one <;> simp
  · intro c _
    apply row_two_ne_row_one <;> simp

section OneLine

theorem oneLine_row {text : String} (depth : Nat) (h : OneLine text) :
    OneLine (row "    " depth text) := by
  unfold row
  split
  · decide
  · rw [oneLine_append]
    refine ⟨?_, h⟩
    intro hc
    rw [String.toList_join, List.mem_flatMap] at hc
    obtain ⟨margin, hmargin, hc⟩ := hc
    rw [List.eq_of_mem_replicate hmargin] at hc
    exact absurd hc (by decide)

theorem oneLine_block {keyword type : String} {body : List String} (hk : OneLine keyword)
    (ht : OneLine type) (hb : ∀ text ∈ body, OneLine text) :
    ∀ r ∈ blockRows (.scope (keyword ++ type ++ ")") (some ("END_SERIALIZE_TYPE(" ++ type ++ ")"))
      (.lines body) .done), OneLine r := by
  intro r hr
  simp only [blockRows_scope, List.mem_cons, List.mem_append, List.mem_map, List.not_mem_nil,
    or_false] at hr
  rcases hr with rfl | ⟨text, htext, rfl⟩ | rfl | rfl
  · apply oneLine_row
    simp only [oneLine_append]
    exact ⟨⟨hk, ht⟩, by decide⟩
  · exact oneLine_row 2 (hb text htext)
  · apply oneLine_row
    simp only [oneLine_append]
    exact ⟨⟨by decide, ht⟩, by decide⟩
  · decide

theorem oneLine_fixedString (c : Nat) : OneLine (fixedString c) := by
  simp only [fixedString, oneLine_append]
  exact ⟨⟨by decide, oneLine_toString c⟩, by decide⟩

theorem oneLine_stringConversions (m : Metadata) :
    ∀ r ∈ blockRows (stringConversions m), OneLine r := by
  apply oneLine_block (by decide) (by decide)
  intro text htext
  obtain ⟨c, -, rfl⟩ := List.mem_map.mp htext
  simp only [oneLine_append]
  exact ⟨⟨by decide, oneLine_fixedString c⟩, by decide⟩

theorem oneLine_selfAccess {type : String} (h : OneLine type) : OneLine (selfAccess type) := by
  unfold selfAccess
  simp only [oneLine_append]
  exact ⟨⟨⟨⟨⟨⟨by decide, h⟩, by decide⟩, h⟩, by decide⟩, h⟩, by decide⟩

theorem oneLine_stringBlock (c : Nat) : ∀ r ∈ blockRows (stringBlock c), OneLine r := by
  have type := oneLine_fixedString c
  apply oneLine_block (by decide) type
  intro text htext
  rw [List.mem_singleton.mp htext]
  exact oneLine_selfAccess type

theorem oneLine_sequenceBlock {e : String} (he : OneLine e) :
    ∀ r ∈ blockRows (sequenceBlock e), OneLine r := by
  have type : OneLine (sequence e) := by
    simp only [sequence, oneLine_append]
    exact ⟨⟨by decide, he⟩, by decide⟩
  apply oneLine_block (by decide) type
  intro text htext
  simp only [List.mem_cons, List.not_mem_nil, or_false] at htext
  rcases htext with rfl | rfl
  · simp only [oneLine_append]
    exact ⟨⟨by decide, type⟩, by decide⟩
  · simp only [oneLine_append]
    exact ⟨⟨by decide, type⟩, by decide⟩

theorem oneLine_typeBlock {q : TypeRecord} (hq : OneLine q.name)
    (hf : ∀ f ∈ q.fields, OneLine f.name) : ∀ r ∈ blockRows (typeBlock q), OneLine r := by
  apply oneLine_block (by decide) hq
  intro text htext
  obtain ⟨f, hmem, rfl⟩ := List.mem_map.mp htext
  have keyword : OneLine (fieldMacro f.kind) := by cases f.kind <;> decide
  simp only [fieldLine, oneLine_append]
  exact ⟨⟨⟨⟨⟨keyword, by decide⟩, hq⟩, by decide⟩, hf f hmem⟩, by decide⟩

theorem oneLine_primitives :
    ∀ r ∈ (primitives.map fun p => primitive p.1 p.2).flatMap blockRows, OneLine r := by
  have names : ∀ p ∈ primitives, OneLine p.1 ∧ ∀ target ∈ p.2, OneLine target := by decide
  intro r hr
  simp only [List.mem_flatMap, List.mem_map] at hr
  obtain ⟨_, ⟨p, hp, rfl⟩, hr⟩ := hr
  obtain ⟨type, targets⟩ := names p hp
  refine oneLine_block (by decide) type ?_ r hr
  intro text htext
  rcases List.mem_cons.mp htext with rfl | htext
  · exact oneLine_selfAccess type
  · obtain ⟨target, hmem, rfl⟩ := List.mem_map.mp htext
    simp only [oneLine_append]
    exact ⟨⟨⟨⟨by decide, type⟩, by decide⟩, targets target hmem⟩, by decide⟩

theorem oneLine_blocks {m : Metadata} (h : m.OneLine) :
    ∀ r ∈ (blocks m).flatMap blockRows, OneLine r := by
  intro r hr
  simp only [flatMap_blocks, List.mem_append, List.mem_flatMap] at hr
  rcases hr with hr | hr | ⟨c, -, hr⟩ | ⟨e, he, hr⟩ | ⟨q, hq, hr⟩
  · exact oneLine_primitives r (List.mem_flatMap.mpr hr)
  · exact oneLine_stringConversions m r hr
  · exact oneLine_stringBlock c r hr
  · exact oneLine_sequenceBlock (h.elements e he) r hr
  · exact oneLine_typeBlock (h.types q hq) (h.fields q hq) r hr

theorem oneLine_rows {m : Metadata} (h : m.OneLine) :
    ∀ r ∈ (registration m).rows "    " 0, OneLine r := by
  have fixed : ∀ r ∈ preamble ++ accessors ++ ending, OneLine r := by decide +kernel
  simp only [List.mem_append] at fixed
  intro r hr
  simp only [rows_registration, List.mem_append, List.mem_map] at hr
  rcases hr with hr | ⟨file, hfile, rfl⟩ | hr | hr | hr
  · exact fixed r (.inl (.inl hr))
  · simp only [includeLine, oneLine_append]
    exact ⟨⟨by decide, h.includes file hfile⟩, by decide⟩
  · exact fixed r (.inl (.inr hr))
  · exact oneLine_blocks h r hr
  · exact fixed r (.inr hr)

end OneLine

/-- The registration file determines the types with their fields and kinds, the includes, the
sequence elements and the capacities, that of data paths taken as given. -/
theorem render_determines_metadata {m n : Metadata} (hm : m.OneLine) (hn : n.OneLine)
    (h : render m = render n) :
    m.types.map TypeRecord.shown = n.types.map TypeRecord.shown ∧ m.includes = n.includes ∧
      m.elements = n.elements ∧ m.capacities.insert 64 = n.capacities.insert 64 := by
  rw [render_eq, render_eq] at h
  have rows := join_rows_inj (oneLine_rows hm) (oneLine_rows hn) h
  rw [rows_registration, rows_registration] at rows
  obtain ⟨files, rows⟩ := read_includes (List.append_cancel_left rows)
  simp only [flatMap_blocks, List.append_assoc] at rows
  obtain ⟨sizes, rows⟩ := read_capacities (List.append_cancel_left rows)
  rw [sizes] at rows
  obtain ⟨elements, types⟩ := read_sequences (List.append_cancel_left rows)
  exact ⟨types, SortedSet.ext files, SortedSet.ext elements, SortedSet.ext sizes⟩

/-- A type with the name of a sequence, beside that sequence. Its include is not known to have
contributed the field. -/
def listedStore : Metadata :=
  let m := (({} : Metadata).addField "hrt::vector<int>" ⟨"size", .method, none⟩).1
  (((m.addInclude "a.h").1).record (.sequence "int")).1

/-- The same with the include as the origin of the field, and the capacity of data paths. -/
def tracedStore : Metadata :=
  let m := (({} : Metadata).addField "hrt::vector<int>" ⟨"size", .method, some "a.h"⟩).1
  ((m.record (.sequence "int")).1.record (.fixedString 64)).1

theorem listedStore_shown_as_tracedStore :
    listedStore ≠ tracedStore ∧ render listedStore = render tracedStore ∧
      listedStore.types.map TypeRecord.shown = tracedStore.types.map TypeRecord.shown ∧
      listedStore.includes = tracedStore.includes ∧ listedStore.elements = tracedStore.elements ∧
      listedStore.capacities.insert 64 = tracedStore.capacities.insert 64 := by
  have listed : listedStore.OneLine :=
    ⟨by decide, by decide, by decide, by decide⟩
  have traced : tracedStore.OneLine :=
    ⟨by decide, by decide, by decide, by decide⟩
  have layouts : registration listedStore = registration tracedStore := rfl
  have texts : render listedStore = render tracedStore := by rw [render, layouts, ← render]
  exact ⟨by decide, texts, render_determines_metadata listed traced texts⟩

end Emit

end ReflectGen
