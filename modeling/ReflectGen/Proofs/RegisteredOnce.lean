import Mathlib.Data.List.Induction
import Mathlib.Data.List.Infix
import ReflectGen.Proofs.CapacityLines
import ReflectGen.Proofs.DecodedBytes
import ReflectGen.Proofs.MergeLaws

namespace ReflectGen

namespace Text

/-- The first byte of a character tells how long its form is, and a longer form starts with a
greater byte. In forms of one length the bytes are the digits of the character. -/
theorem encodeChar_append_lt {c d : Char} (h : c < d) (s t : List UInt8) :
    String.utf8EncodeChar c ++ s < String.utf8EncodeChar d ++ t := by
  have order : c.val.toNat < d.val.toNat := h
  have last : d.val.toNat < 0x110000 := by
    rcases d.valid with low | high
    · have : d.val.toNat < 0xd800 := low
      omega
    · exact high.2
  have less (m n : Nat) : UInt8.ofNat m < UInt8.ofNat n ↔ m % 256 < n % 256 := by
    rw [UInt8.lt_iff_toNat_lt, UInt8.toNat_ofNat', UInt8.toNat_ofNat']
  have same (m n : Nat) : UInt8.ofNat m = UInt8.ofNat n ↔ m % 256 = n % 256 := by
    rw [← UInt8.toNat_inj, UInt8.toNat_ofNat', UInt8.toNat_ofNat']
  have twice (n : Nat) : n / 4096 = n / 64 / 64 := by rw [Nat.div_div_eq_div_mul]
  have thrice (n : Nat) : n / 262144 = n / 64 / 64 / 64 := by
    rw [Nat.div_div_eq_div_mul, Nat.div_div_eq_div_mul]
  generalize hv : c.val.toNat = v at order
  generalize hw : d.val.toNat = w at order last
  unfold String.utf8EncodeChar
  simp only [hv, hw, twice, thrice]
  split_ifs <;>
    simp only [List.cons_append, List.nil_append, List.cons_lt_cons_iff, less, same] <;> omega

theorem flatMap_encodeChar_lt {cs ds : List Char} (h : cs < ds) :
    cs.flatMap String.utf8EncodeChar < ds.flatMap String.utf8EncodeChar := by
  induction h with
  | @nil d ds =>
    rw [List.flatMap_nil, List.flatMap_cons]
    cases first : String.utf8EncodeChar d with
    | nil => exact absurd first (by simp)
    | cons byte bytes => exact List.Lex.nil
  | cons _ ih =>
    rw [List.flatMap_cons, List.flatMap_cons]
    exact List.append_left_lt ih
  | rel less => exact encodeChar_append_lt less _ _

/-- The order of texts by characters is that of their bytes. -/
theorem encode_lt_encode {a b : String} (h : a < b) : encode a < encode b := by
  have bytes := flatMap_encodeChar_lt (String.lt_iff.mp h)
  rw [← encode_ofList, ← encode_ofList, String.ofList_toList,
    String.ofList_toList] at bytes
  exact bytes

end Text

theorem SortedSet.ascending_bytes (s : SortedSet String) :
    s.elems.Pairwise fun a b => Text.encode a < Text.encode b :=
  s.ascending.imp Text.encode_lt_encode

namespace Metadata

/-- A later store lists the types and fields of an earlier one in their order, and behind them what
was captured since. -/
structure Precedes (m later : Metadata) : Prop where
  types : m.typeNames <+: later.typeNames
  fields : ∀ type, m.fieldsOf type <+: later.fieldsOf type

section Precedes

variable {m n l : Metadata}

theorem Precedes.of_types (h : n.types = m.types) : m.Precedes n := by
  refine ⟨?_, fun type => ?_⟩
  · rw [typeNames, typeNames, h]
  · rw [fieldsOf, fieldsOf, type?, type?, h]

theorem Precedes.trans (h : m.Precedes n) (k : n.Precedes l) : m.Precedes l :=
  ⟨h.types.trans k.types, fun type => (h.fields type).trans (k.fields type)⟩

theorem precedes_addField (m : Metadata) (type : String) (f : Field) :
    m.Precedes (m.addField type f).1 := by
  by_cases known : (m.field? type f.name).isSome
  · rw [addField_of_isSome known]
    exact .of_types rfl
  · have absent : m.field? type f.name = none := by simpa using known
    refine ⟨?_, fun other => ?_⟩
    · rw [typeNames_addField]
      split
      · exact List.prefix_refl _
      · exact List.prefix_append _ _
    · by_cases same : other = type
      · subst same
        rw [fieldsOf_addField_of_none absent]
        exact List.prefix_append _ _
      · rw [fieldsOf_addField_of_ne m type f same]

theorem precedes_merge (m : Metadata) {x : Metadata} (hx : x.Sound) : m.Precedes (m.merge x) := by
  refine ⟨?_, fun type => ?_⟩
  · rw [typeNames_merge m hx]
    exact List.prefix_append _ _
  · rw [fieldsOf_merge m hx]
    exact List.prefix_append _ _

theorem precedes_apply {stores : Nat → Metadata} (sound : ∀ k, (stores k).Sound) (m : Metadata)
    (operation : StoreOperation) : m.Precedes (m.apply stores operation) := by
  cases operation with
  | addField type member origin => exact precedes_addField m type _
  | addInclude file => exact .of_types rfl
  | record p => cases p <;> exact .of_types rfl
  | merge other => exact precedes_merge m (sound other)

/-- A history only adds to a store, at the end. -/
theorem precedes_run (earlier later : List StoreStep) (k : Nat) :
    (run earlier k).Precedes (run (earlier ++ later) k) := by
  induction later using List.reverseRecOn with
  | nil =>
    rw [List.append_nil]
    exact .of_types rfl
  | append_singleton later s ih =>
    have sound (j : Nat) : (run (earlier ++ later) j).Sound := Reachable.sound ⟨_, j, rfl⟩
    have last : run (earlier ++ (later ++ [s])) = step (run (earlier ++ later)) s := by
      rw [← List.append_assoc, run, List.foldl_concat]
      rfl
    rw [last, step]
    by_cases here : k = s.store
    · subst here
      rw [Function.update_self]
      exact ih.trans (precedes_apply sound _ _)
    · rw [Function.update_of_ne here]
      exact ih

end Precedes

end Metadata

namespace Emit

/-- The lines of a block, with the blank one after it. -/
def framed (keyword type : String) (body : List String) : List String :=
  ("    " ++ keyword ++ type ++ ")") ::
    (body.map ("        " ++ ·) ++ ["    " ++ "END_SERIALIZE_TYPE(" ++ type ++ ")", ""])

/-- How the line of a block starts. -/
def keywords : List String := ["BEGIN_SERIALIZE_TYPE(", "BEGIN_SERIALIZE_TYPE_ADDITIVE("]

def primitiveRows : List String :=
  primitives.flatMap fun p =>
    framed "BEGIN_SERIALIZE_TYPE(" p.1
      (selfAccess p.1 ::
        p.2.map fun target => "SERIALIZE_CONVERSION(" ++ p.1 ++ ", " ++ target ++ ")")

def conversionRows (capacities : List Nat) : List String :=
  framed "BEGIN_SERIALIZE_TYPE_ADDITIVE(" "const char*" (capacities.map conversionLine)

def stringRows (capacity : Nat) : List String :=
  framed "BEGIN_SERIALIZE_TYPE_ADDITIVE(" (fixedString capacity) [selfAccess (fixedString capacity)]

def sequenceRows (element : String) : List String :=
  framed "BEGIN_SERIALIZE_TYPE(" (sequence element)
    ["SERIALIZE_FUNCTION_ALIAS(" ++ sequence element ++ ", emplace_back<>)",
      "SERIALIZE_FUNCTION_ALIAS(" ++ sequence element ++ ", reserve)"]

def typeRows (r : TypeRecord) : List String :=
  framed "BEGIN_SERIALIZE_TYPE(" r.name (r.fields.map (fieldLine r.name))

/-- The lines inside the registration function. -/
def functionRows (m : Metadata) : List String :=
  primitiveRows ++ conversionRows (capacities m) ++ (capacities m).flatMap stringRows ++
    m.elements.elems.flatMap sequenceRows ++ m.types.flatMap typeRows

/-- All lines of a file. -/
def fileRows (m : Metadata) : List String :=
  preamble ++ m.includes.elems.map includeLine ++ accessors ++ functionRows m ++ ending

/-- The start of every line in a block. -/
def IsEntry (text : String) : Prop := "SERIALIZE_".toList <+: text.toList

instance (text : String) : Decidable (IsEntry text) :=
  inferInstanceAs (Decidable ("SERIALIZE_".toList <+: text.toList))

section Entries

theorem IsEntry.append {text : String} (h : IsEntry text) (rest : String) :
    IsEntry (text ++ rest) := by
  rw [IsEntry, String.toList_append]
  exact h.trans (List.prefix_append _ _)

theorem IsEntry.ne_empty {text : String} (h : IsEntry text) : text ≠ "" := by
  rintro rfl
  exact absurd h (by decide)

theorem entry_selfAccess (type : String) : IsEntry (selfAccess type) := by
  have keyword : IsEntry "SERIALIZE_SELF_ACCESS(" := by decide
  exact (((((keyword.append _).append _).append _).append _).append _).append _

theorem entries_primitive (type : String) (targets : List String) :
    ∀ text ∈ selfAccess type ::
      targets.map fun target => "SERIALIZE_CONVERSION(" ++ type ++ ", " ++ target ++ ")",
        IsEntry text := by
  have keyword : IsEntry "SERIALIZE_CONVERSION(" := by decide
  rw [List.forall_mem_cons, List.forall_mem_map]
  refine ⟨entry_selfAccess type, fun target _ => ?_⟩
  exact (((keyword.append _).append _).append _).append _

theorem entries_conversions (capacities : List Nat) :
    ∀ text ∈ capacities.map conversionLine, IsEntry text := by
  have keyword : IsEntry "SERIALIZE_CONVERSION(const char*, &" := by decide
  rw [List.forall_mem_map]
  exact fun c _ => (keyword.append _).append _

theorem entries_string (capacity : Nat) :
    ∀ text ∈ [selfAccess (fixedString capacity)], IsEntry text := by
  rw [List.forall_mem_singleton]
  exact entry_selfAccess _

theorem entries_sequence (type : String) :
    ∀ text ∈ ["SERIALIZE_FUNCTION_ALIAS(" ++ type ++ ", emplace_back<>)",
      "SERIALIZE_FUNCTION_ALIAS(" ++ type ++ ", reserve)"], IsEntry text := by
  have keyword : IsEntry "SERIALIZE_FUNCTION_ALIAS(" := by decide
  rw [List.forall_mem_cons, List.forall_mem_singleton]
  exact ⟨(keyword.append _).append _, (keyword.append _).append _⟩

theorem entries_type (r : TypeRecord) :
    ∀ text ∈ r.fields.map (fieldLine r.name), IsEntry text := by
  have keyword (kind : FieldKind) : IsEntry (fieldMacro kind) := by cases kind <;> decide
  rw [List.forall_mem_map]
  exact fun f _ => (((((keyword f.kind).append _).append _).append _).append _).append _

end Entries

section Rows

theorem row_of_ne_empty {text : String} (h : text ≠ "") :
    row "    " 1 text = "    " ++ text ∧ row "    " 2 text = "        " ++ text := by
  have margins : String.join (List.replicate 1 "    ") = "    " ∧
      String.join (List.replicate 2 "    ") = "        " := by decide
  simp only [row, h, if_false, margins, and_self]

theorem blockRows_eq_framed (keyword type : String) {body : List String}
    (h : ∀ text ∈ body, IsEntry text) :
    blockRows (.scope (keyword ++ type ++ ")") (some ("END_SERIALIZE_TYPE(" ++ type ++ ")"))
      (.lines body) .done) = framed keyword type body := by
  have opening : keyword ++ type ++ ")" ≠ "" := by simp
  have closing : "END_SERIALIZE_TYPE(" ++ type ++ ")" ≠ "" := by simp
  have entries : body.map (row "    " 2) = body.map ("        " ++ ·) :=
    List.map_congr_left fun text ht => (row_of_ne_empty (h text ht).ne_empty).2
  rw [blockRows_scope, entries, (row_of_ne_empty opening).1, (row_of_ne_empty closing).1, framed]
  simp only [String.append_assoc]

theorem rows_eq_fileRows (m : Metadata) :
    (registration m).rows "    " 0 = fileRows m := by
  have builtIn : (primitives.map fun p => primitive p.1 p.2).flatMap blockRows = primitiveRows := by
    rw [List.flatMap_map, primitiveRows]
    congr 1
    funext p
    exact blockRows_eq_framed _ _ (entries_primitive p.1 p.2)
  have conversions : blockRows (stringConversions m) = conversionRows (capacities m) :=
    blockRows_eq_framed _ _ (entries_conversions (capacities m))
  have strings (c : Nat) : blockRows (stringBlock c) = stringRows c :=
    blockRows_eq_framed _ _ (entries_string c)
  have sequences (e : String) : blockRows (sequenceBlock e) = sequenceRows e :=
    blockRows_eq_framed _ _ (entries_sequence (sequence e))
  have types (r : TypeRecord) : blockRows (typeBlock r) = typeRows r :=
    blockRows_eq_framed _ _ (entries_type r)
  rw [rows_registration, flatMap_blocks]
  simp only [builtIn, conversions, strings, sequences, types, fileRows, functionRows,
    List.append_assoc]

/-- The lines of a text made of rows without line feeds are the rows. -/
theorem lines_join_rows {rows : List String} (h : ∀ r ∈ rows, OneLine r) :
    Text.lines (String.join (rows.map (· ++ "\n"))).toList =
      rows.map fun r => r.toList ++ ['\n'] := by
  have lined : Text.Lined (rows.map fun r => r.toList ++ ['\n']) := by
    induction rows with
    | nil => exact .empty
    | cons r rows ih => exact .ended (h r List.mem_cons_self) (ih fun q hq => h q (.tail r hq))
  have text : (String.join (rows.map (· ++ "\n"))).toList =
      (rows.map fun r => r.toList ++ ['\n']).flatten := by
    simp [String.toList_join, List.flatMap_def, Function.comp_def]
  rw [text, lined.lines_flatten]

end Rows

/-- A line that opens the block of a type, at some indentation. -/
structure Opens (margin type r : String) : Prop where
  blank : ∀ c ∈ margin.toList, c = ' '
  keyword : ∃ keyword ∈ keywords, r = margin ++ keyword ++ type ++ ")"

/-- Each block that is opened is closed for the same type and at the same indentation; up to there
stand entries of the block, one level deeper. -/
def ClosesBlocks (rows : List String) : Prop :=
  ∀ above below margin type r, rows = above ++ r :: below → Opens margin type r →
    ∃ body rest, below = body ++ (margin ++ "END_SERIALIZE_TYPE(" ++ type ++ ")") :: rest ∧
      ∀ line ∈ body, ∃ text, line = margin ++ "    " ++ text ∧ IsEntry text

section Closing

theorem begins_of_mem_keywords : ∀ keyword ∈ keywords, ∃ rest, keyword.toList = 'B' :: rest := by
  simp [keywords]

/-- Where the text of a line starts. -/
theorem Opens.head {margin type r : String} (h : Opens margin type r) :
    (unindented r.toList).head? = some 'B' := by
  obtain ⟨blank, keyword, hk, rfl⟩ := h
  have spaces : ∀ c ∈ margin.toList, (c == ' ') = true := by
    intro c hc
    rw [blank c hc]
    rfl
  obtain ⟨rest, starts⟩ := begins_of_mem_keywords keyword hk
  rw [String.toList_append, String.toList_append, String.toList_append, starts, List.append_assoc,
    List.append_assoc, unindented, List.dropWhile_append_of_pos spaces]
  rfl

theorem not_opens {r : String} (h : (unindented r.toList).head? ≠ some 'B') (margin type : String) :
    ¬Opens margin type r :=
  fun opens => h opens.head

/-- The line that opens a block tells its indentation and its type. -/
theorem Opens.eq {margin type type' keyword : String} (hk : keyword ∈ keywords)
    (h : Opens margin type' ("    " ++ keyword ++ type ++ ")")) :
    margin = "    " ∧ type' = type := by
  obtain ⟨blank, keyword', hk', same⟩ := h
  obtain ⟨rest, starts⟩ := begins_of_mem_keywords keyword hk
  obtain ⟨rest', starts'⟩ := begins_of_mem_keywords keyword' hk'
  have chars := congrArg String.toList same
  simp only [String.toList_append, List.append_assoc, starts, starts', List.cons_append] at chars
  rw [← List.map_id "    ".toList, ← List.map_id margin.toList] at chars
  have cut := map_append_inj id (fun _ _ => id) (by simp) ?_ chars
  · simp only [List.map_id] at cut
    obtain ⟨margins, texts⟩ := cut
    refine ⟨(String.toList_inj.mp margins).symm, ?_⟩
    simp only [keywords, List.mem_cons, List.not_mem_nil, or_false] at hk hk'
    rw [← List.cons_append, ← List.cons_append, ← starts, ← starts'] at texts
    rcases hk with rfl | rfl <;> rcases hk' with rfl | rfl <;> simp at texts
    · exact (String.toList_inj.mp texts).symm
    · exact (String.toList_inj.mp texts).symm
  · intro c hc
    rw [id, blank c hc]
    decide

theorem ClosesBlocks.after {rows : List String} (h : ClosesBlocks rows) (front : List String)
    (plain : ∀ r ∈ front, (unindented r.toList).head? ≠ some 'B') :
    ClosesBlocks (front ++ rows) := by
  induction front with
  | nil => exact h
  | cons q front ih =>
    have later := ih fun r hr => plain r (.tail q hr)
    intro above below margin type r split opens
    cases above with
    | nil =>
      obtain ⟨rfl, -⟩ := List.cons.inj split
      exact absurd opens (not_opens (plain q List.mem_cons_self) margin type)
    | cons a above =>
      obtain ⟨-, split⟩ := List.cons.inj split
      exact later above below margin type r split opens

theorem ClosesBlocks.framed {rows : List String} (h : ClosesBlocks rows) {keyword : String}
    (hk : keyword ∈ keywords) (type : String) {body : List String}
    (entries : ∀ text ∈ body, IsEntry text) : ClosesBlocks (framed keyword type body ++ rows) := by
  have inside : ∀ r ∈ body.map ("        " ++ ·) ++ ["    " ++ "END_SERIALIZE_TYPE(" ++ type ++ ")",
      ""], (unindented r.toList).head? ≠ some 'B' := by
    simp only [List.forall_mem_append, List.forall_mem_map, List.forall_mem_cons]
    refine ⟨fun text ht => ?_, ?_, by decide, by simp⟩
    · obtain ⟨rest, starts⟩ := entries text ht
      rw [String.toList_append, ← starts]
      simp [unindented]
    · simp [unindented]
  have later := h.after _ inside
  intro above below margin type' r split opens
  cases above with
  | nil =>
    obtain ⟨rfl, rfl⟩ := List.cons.inj split
    obtain ⟨rfl, rfl⟩ := opens.eq hk
    refine ⟨body.map ("        " ++ ·), "" :: rows, by simp, ?_⟩
    rw [List.forall_mem_map]
    exact fun text ht => ⟨text, rfl, entries text ht⟩
  | cons a above =>
    obtain ⟨-, split⟩ := List.cons.inj split
    exact later above below margin type' r split opens

theorem ClosesBlocks.flatMap {α : Type} {rows : List String} (h : ClosesBlocks rows)
    (f : α → List String) (as : List α)
    (block : ∀ a (rows : List String), ClosesBlocks rows → ClosesBlocks (f a ++ rows)) :
    ClosesBlocks (as.flatMap f ++ rows) := by
  induction as with
  | nil => exact h
  | cons a as ih =>
    rw [List.flatMap_cons, List.append_assoc]
    exact block a _ ih

theorem closesBlocks_fileRows (m : Metadata) : ClosesBlocks (fileRows m) := by
  have plain : "BEGIN_SERIALIZE_TYPE(" ∈ keywords := by simp [keywords]
  have more : "BEGIN_SERIALIZE_TYPE_ADDITIVE(" ∈ keywords := by simp [keywords]
  have fixed : ∀ r ∈ preamble ++ accessors ++ ending, (unindented r.toList).head? ≠ some 'B' := by
    decide +kernel
  simp only [List.forall_mem_append] at fixed
  obtain ⟨⟨before, between⟩, after⟩ := fixed
  have none : ClosesBlocks ([] : List String) := by
    intro above below margin type r split
    simp at split
  have ends : ClosesBlocks ending := by simpa using none.after ending after
  have types := ends.flatMap typeRows m.types
    fun r _ h => h.framed plain r.name (entries_type r)
  have sequences := types.flatMap sequenceRows m.elements.elems
    fun e _ h => h.framed plain _ (entries_sequence (sequence e))
  have strings := sequences.flatMap stringRows (capacities m)
    fun c _ h => h.framed more _ (entries_string c)
  have conversions := strings.framed more "const char*" (entries_conversions (capacities m))
  have builtIn := conversions.flatMap _ primitives
    fun p _ h => h.framed plain p.1 (entries_primitive p.1 p.2)
  have includes : ∀ r ∈ m.includes.elems.map includeLine,
      (unindented r.toList).head? ≠ some 'B' := by
    rw [List.forall_mem_map]
    intro file _
    simp [includeLine, unindented]
  have whole := ((builtIn.after accessors between).after _ includes).after preamble before
  simpa only [fileRows, functionRows, primitiveRows, conversionRows, List.append_assoc] using whole

end Closing

/-- A registration file lists each of its entries once. After the two fixed headers stands a line
for each include, and in the registration function, after the primitive types, a conversion and a
block for each capacity, then a block for each sequence and a block for each type with a line for
each of its fields. What a history captured first stands first. -/
theorem registered_once (steps : List StoreStep) (k : Nat)
    (names : (Metadata.run steps k).OneLine) :
    let m := Metadata.run steps k
    Text.lines (render m).toList = (fileRows m).map (fun r => r.toList ++ ['\n']) ∧
      ClosesBlocks (fileRows m) ∧ (capacities m).Pairwise (· < ·) ∧
      (∀ n, (n ∈ capacities m ↔ n = 64 ∨ n ∈ m.capacities.elems) ∧
        lineCount (render m) (openingLine n) = (if n ∈ capacities m then 1 else 0) ∧
        lineCount (render m) (conversionLine n) = if n ∈ capacities m then 1 else 0) ∧
      (m.elements.elems.Pairwise fun a b => Text.encode a < Text.encode b) ∧
      (m.includes.elems.Pairwise fun a b => Text.encode a < Text.encode b) ∧
      m.typeNames.Nodup ∧ (∀ r ∈ m.types, (r.fields.map Field.name).Nodup) ∧
      ∀ earlier later, earlier ++ later = steps → (Metadata.run earlier k).Precedes m := by
  intro m
  have mem (n : Nat) : n ∈ capacities m ↔ n = 64 ∨ n ∈ m.capacities.elems :=
    SortedSet.mem_insert _ _ _
  have lines := lines_join_rows (oneLine_rows names)
  rw [← render_eq, rows_eq_fileRows] at lines
  have sound : m.Sound := Metadata.Reachable.sound ⟨steps, k, rfl⟩
  refine ⟨lines, closesBlocks_fileRows m, (m.capacities.insert dataPathCapacity).ascending,
    fun n => ⟨mem n, ?_⟩, m.elements.ascending_bytes, m.includes.ascending_bytes,
    sound.types_nodup, fun r hr => ?_, ?_⟩
  · simp only [mem]
    exact lineCount_capacity n names
  · rw [← sound.fieldsOf_name hr]
    exact sound.fields_nodup r.name
  · rintro earlier later rfl
    exact Metadata.precedes_run earlier later k

/-- A type with the name of a sequence that is registered, too, and a capacity beside that of data
paths. -/
def lookalikeHistory : List StoreStep :=
  [⟨0, .addField "hrt::vector<int>" ⟨"size", .method⟩ (some "b.h")⟩, ⟨0, .record (.sequence "int")⟩,
    ⟨0, .addField "Foo" ⟨"a", .plain⟩ none⟩, ⟨0, .record (.fixedString 128)⟩,
    ⟨0, .addField "hrt::vector<int>" ⟨"n", .aliasRef⟩ (some "a.h")⟩]

theorem lookalikeHistory_registered_once :
    (Metadata.run lookalikeHistory 0).OneLine ∧
      Text.lines (render (Metadata.run lookalikeHistory 0)).toList =
        (preamble ++ ["#include \"a.h\"", "#include \"b.h\""] ++ accessors ++ primitiveRows ++
          ["    BEGIN_SERIALIZE_TYPE_ADDITIVE(const char*)",
            "        SERIALIZE_CONVERSION(const char*, &SerializedString<64>::CreateFromCString)",
            "        SERIALIZE_CONVERSION(const char*, &SerializedString<128>::CreateFromCString)",
            "    END_SERIALIZE_TYPE(const char*)", ""] ++ stringRows 64 ++ stringRows 128 ++
          ["    BEGIN_SERIALIZE_TYPE(hrt::vector<int>)",
            "        SERIALIZE_FUNCTION_ALIAS(hrt::vector<int>, emplace_back<>)",
            "        SERIALIZE_FUNCTION_ALIAS(hrt::vector<int>, reserve)",
            "    END_SERIALIZE_TYPE(hrt::vector<int>)", "",
            "    BEGIN_SERIALIZE_TYPE(hrt::vector<int>)",
            "        SERIALIZE_FUNCTION(hrt::vector<int>, size)",
            "        SERIALIZE_FIELD_ALIAS(hrt::vector<int>, n)",
            "    END_SERIALIZE_TYPE(hrt::vector<int>)", "",
            "    BEGIN_SERIALIZE_TYPE(Foo)", "        SERIALIZE_FIELD(Foo, a)",
            "    END_SERIALIZE_TYPE(Foo)", ""] ++ ending).map fun r => r.toList ++ ['\n'] := by
  have names : (Metadata.run lookalikeHistory 0).OneLine :=
    ⟨by decide, by decide, by decide, by decide⟩
  exact ⟨names, (registered_once lookalikeHistory 0 names).1.trans rfl⟩

end Emit

end ReflectGen
