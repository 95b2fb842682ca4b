import Mathlib.Data.List.Forall2
import Mathlib.Data.List.Perm.Basic
import ReflectGen.Proofs.PassedValues
import ReflectGen.Settings

namespace ReflectGen

namespace Json

section Texts

/-- A string and the text it is for. -/
def TextOf (text : List Char) (value : String) : Prop :=
  ∃ body, text = quoted body ∧ Spells body value.toList

/-- A list of strings and the texts they are for. -/
def TextsOf (text : List Char) (values : List String) : Prop :=
  ∃ blanks items, Blank blanks ∧ text = listText blanks items ∧
    List.Forall₂ (fun item value => TextOf item.text value) items values

/-- A string or null. -/
def OptionalOf (text : List Char) : Option String → Prop
  | none => text = "null".toList
  | some value => TextOf text value

variable {text blanks : List Char}

theorem TextOf.starts {value : String} (h : TextOf text value) : Starts text := by
  obtain ⟨body, rfl, -⟩ := h
  exact ⟨'"', _, rfl, rfl, by decide⟩

theorem TextOf.readText {value : String} (h : TextOf text value) (blank : Blank blanks)
    (rest : List Char) : readText (blanks ++ (text ++ rest)) = .ok (value, rest) := by
  obtain ⟨body, rfl, spells⟩ := h
  have read := spells.readString rest
  rw [Json.readText, skipBlanks_append blank, quoted, List.cons_append, skipBlanks_cons rfl,
    List.append_assoc, List.singleton_append]
  simp only [read, Except.map, String.ofList_toList]

theorem OptionalOf.readOptionalText {value : Option String} (h : OptionalOf text value)
    (blank : Blank blanks) (rest : List Char) :
    readOptionalText (blanks ++ (text ++ rest)) = .ok (value, rest) := by
  rw [Json.readOptionalText, skipBlanks_append blank]
  cases value with
  | none =>
    rw [h]
    exact congrArg (Except.map _) (readWord_append "ull".toList rest)
  | some value =>
    have read := h.readText Blank.nil rest
    obtain ⟨body, rfl, -⟩ := h
    exact congrArg (Except.map _) read

theorem readItems_eq {items : List Padded} {values : List String}
    (h : List.Forall₂ (fun item value => TextOf item.text value) items values)
    (blank : Blank blanks) (first : Bool) (fuel : Nat) (rest : List Char)
    (enough : items.length < fuel) :
    readItems fuel first (blanks ++ (continued ']' first (items.map Padded.spelled) ++ rest)) =
      .ok (values, rest) := by
  induction h generalizing blanks first fuel with
  | nil =>
    obtain ⟨fuel, rfl⟩ := Nat.exists_eq_add_of_lt enough
    rw [List.map_nil, continued, List.singleton_append, readItems, nextItem?_closing blank]
    rfl
  | @cons item value items values here later ih =>
    obtain ⟨fuel, rfl⟩ := Nat.exists_eq_add_of_lt enough
    have next := nextItem?_item blank item.blank_before first here.starts
      (item.after ++ (continued ']' false (items.map Padded.spelled) ++ rest))
    have read := here.readText Blank.nil
      (item.after ++ (continued ']' false (items.map Padded.spelled) ++ rest))
    have left := ih item.blank_after false _ (Nat.lt_of_succ_lt_succ enough)
    simp only [List.map_cons, continued, Padded.spelled, List.append_assoc, List.nil_append]
      at next read left ⊢
    rw [readItems, next]
    simp only [bind, Except.bind, if_true, read, left, pure, Except.pure]

theorem TextsOf.readTexts {values : List String} (h : TextsOf text values) (blank : Blank blanks)
    (rest : List Char) : readTexts (blanks ++ (text ++ rest)) = .ok (values, rest) := by
  obtain ⟨inner, items, innerBlank, rfl, each⟩ := h
  rw [Json.readTexts, skipBlanks_append blank, listText, enclosed, List.cons_append,
    skipBlanks_cons rfl, intercalate_append_closing, List.append_assoc]
  apply readItems_eq each innerBlank
  have few := length_le_continued ']' true (items.map Padded.spelled)
  simp only [List.length_map, List.length_append] at few ⊢
  omega

end Texts

end Json

namespace Settings

open Json

section Keys

/-- What a key is for. -/
@[reducible] def Key.Content : Key → Type
  | .includeDirs => List String
  | .heartDir => Option String
  | .extensions => List String
  | .output => Option String

def get (s : Settings) : (key : Key) → key.Content
  | .includeDirs => s.includeDirs
  | .heartDir => s.heartDir
  | .extensions => s.extensions
  | .output => s.output

def put (s : Settings) : (key : Key) → key.Content → Settings
  | .includeDirs, value => { s with includeDirs := value }
  | .heartDir, value => { s with heartDir := value }
  | .extensions, value => { s with extensions := value }
  | .output, value => { s with output := value }

/-- The text of a value of the key's type. -/
def Key.Spelled : (key : Key) → List Char → key.Content → Prop
  | .includeDirs, text, value => TextsOf text value
  | .heartDir, text, value => OptionalOf text value
  | .extensions, text, value => TextsOf text value
  | .output, text, value => OptionalOf text value

@[simp] theorem get_put_self (s : Settings) (key : Key) (value : key.Content) :
    (s.put key value).get key = value := by
  cases key <;> rfl

theorem get_put_of_ne (s : Settings) {key other : Key} (h : other ≠ key) (value : key.Content) :
    (s.put key value).get other = s.get other := by
  cases key <;> cases other <;> simp [put, get] at h ⊢

theorem ext_get {s t : Settings} (h : ∀ key, s.get key = t.get key) : s = t := by
  obtain ⟨a, b, c, d⟩ := s
  have first : a = t.includeDirs := h .includeDirs
  have second : b = t.heartDir := h .heartDir
  have third : c = t.extensions := h .extensions
  have fourth : d = t.output := h .output
  rw [first, second, third, fourth]

theorem Key.ofName?_name (key : Key) : Key.ofName? key.name = some key := by
  cases key <;> decide

theorem Key.name_inj {key other : Key} (h : key.name = other.name) : key = other := by
  have same := Key.ofName?_name key
  rw [h, Key.ofName?_name] at same
  exact (Option.some.inj same).symm

theorem Key.ofName?_eq_none {name : String} (h : ∀ key : Key, name ≠ key.name) :
    Key.ofName? name = none := by
  rw [ofName?, List.find?_eq_none]
  intro key _
  simpa using Ne.symm (h key)

theorem readValue_eq (s : Settings) {key : Key} {text : List Char} {value : key.Content}
    (h : key.Spelled text value) {blanks : List Char} (blank : Blank blanks) (rest : List Char) :
    readValue s key (blanks ++ (text ++ rest)) = .ok (s.put key value, rest) := by
  cases key with
  | includeDirs => exact congrArg (Except.map _) (TextsOf.readTexts h blank rest)
  | heartDir => exact congrArg (Except.map _) (OptionalOf.readOptionalText h blank rest)
  | extensions => exact congrArg (Except.map _) (TextsOf.readTexts h blank rest)
  | output => exact congrArg (Except.map _) (OptionalOf.readOptionalText h blank rest)

end Keys

section Members

/-- A member of an object with the text that its key stands for. -/
structure Entry where
  name : String
  member : Member
  named : Spells member.key.text name.toList
  formed : IsValue member.value.text

/-- A text is that of an object with these members. -/
def ObjectOf (entries : List Entry) (text : List Char) : Prop :=
  ∃ before blanks after, Blank before ∧ Blank blanks ∧ Blank after ∧
    text = before ++ (objectText blanks (entries.map Entry.member) ++ after)

/-- No key occurs twice. -/
def Once (entries : List Entry) : Prop := ∀ key : Key, (entries.map Entry.name).count key.name ≤ 1

/-- Settings with the values that members give, and those of other settings for the other keys. -/
structure Updates (entries : List Entry) (s target : Settings) : Prop where
  given : ∀ key : Key, ∀ e ∈ entries, e.name = key.name →
    key.Spelled e.member.value.text (target.get key)
  kept : ∀ key : Key, (∀ e ∈ entries, e.name ≠ key.name) → target.get key = s.get key

variable {entries : List Entry} {e : Entry} {s target : Settings}

theorem Once.tail (h : Once (e :: entries)) : Once entries := by
  intro key
  have := h key
  rw [List.map_cons, List.count_cons] at this
  omega

theorem Once.head_ne (h : Once (e :: entries)) {key : Key} (known : e.name = key.name) :
    ∀ f ∈ entries, f.name ≠ key.name := by
  intro f mem same
  have twice := h key
  rw [List.map_cons, known, List.count_cons_self] at twice
  have again : 0 < (entries.map Entry.name).count key.name :=
    List.count_pos_iff.mpr (same ▸ List.mem_map_of_mem mem)
  omega

theorem Updates.tail_of_unknown (h : Updates (e :: entries) s target)
    (unknown : ∀ key : Key, e.name ≠ key.name) : Updates entries s target where
  given key f mem := h.given key f (List.mem_cons_of_mem e mem)
  kept key none := h.kept key (List.forall_mem_cons.mpr ⟨unknown key, none⟩)

theorem Updates.tail_of_known (h : Updates (e :: entries) s target) {key : Key}
    (known : e.name = key.name) : Updates entries (s.put key (target.get key)) target where
  given other f mem := h.given other f (List.mem_cons_of_mem e mem)
  kept other none := by
    by_cases same : other = key
    · subst same
      rw [get_put_self]
    · rw [get_put_of_ne s same]
      refine h.kept other (List.forall_mem_cons.mpr ⟨fun named => ?_, none⟩)
      exact same (Key.name_inj (named.symm.trans known))

section Steps

variable {blanks tail : List Char} (blank : Blank blanks) (first : Bool) (fuel : Nat)
  (seen : List Key) (s : Settings)
include blank

/-- A member under another key is passed over. -/
theorem readMembers_unknown (unknown : ∀ key : Key, e.name ≠ key.name)
    (ends : Ends (e.member.value.after ++ tail)) :
    readMembers (fuel + 1) seen first s
        (blanks ++ (separator first ++ (e.member.spelled ++ tail))) =
      readMembers fuel seen false s (e.member.value.after ++ tail) := by
  have next := nextKey?_key blank e.member.key.blank_before first
    (e.member.key.text ++ '"' :: (e.member.key.after ++ ':' :: (e.member.value.before ++
      (e.member.value.text ++ (e.member.value.after ++ tail)))))
  simp only [Member.spelled, Padded.spelled, quoted, List.append_assoc, List.cons_append,
    List.nil_append]
  rw [readMembers, next]
  simp only [bind, Except.bind, if_true, e.named.readString, String.ofList_toList,
    Key.ofName?_eq_none unknown, skipColon_append e.member.key.blank_after,
    e.formed.skipValue e.member.value.blank_before ends]

/-- A member under a new key sets its value. -/
theorem readMembers_known {key : Key} (named : e.name = key.name) (new : key ∉ seen)
    {value : key.Content} (spelled : key.Spelled e.member.value.text value) :
    readMembers (fuel + 1) seen first s
        (blanks ++ (separator first ++ (e.member.spelled ++ tail))) =
      readMembers fuel (key :: seen) false (s.put key value) (e.member.value.after ++ tail) := by
  have next := nextKey?_key blank e.member.key.blank_before first
    (e.member.key.text ++ '"' :: (e.member.key.after ++ ':' :: (e.member.value.before ++
      (e.member.value.text ++ (e.member.value.after ++ tail)))))
  have absent : seen.contains key = false := by
    rwa [← Bool.not_eq_true, List.contains_iff_mem]
  simp only [Member.spelled, Padded.spelled, quoted, List.append_assoc, List.cons_append,
    List.nil_append]
  rw [readMembers, next]
  simp only [bind, Except.bind, if_true, e.named.readString, String.ofList_toList, named,
    Key.ofName?_name, absent, skipColon_append e.member.key.blank_after,
    readValue_eq s spelled e.member.value.blank_before, Bool.false_eq_true, if_false]

end Steps

theorem readMembers_eq (updates : Updates entries s target) (once : Once entries)
    {seen : List Key} (fresh : ∀ key ∈ seen, ∀ e ∈ entries, e.name ≠ key.name)
    {blanks : List Char} (blank : Blank blanks) (first : Bool) (fuel : Nat) (rest : List Char)
    (enough : entries.length < fuel) :
    readMembers fuel seen first s
      (blanks ++ (continued '\x7d' first ((entries.map Entry.member).map Member.spelled) ++ rest)) =
      .ok (target, rest) := by
  -- The target stays the same while the settings read so far take over its values.
  induction entries generalizing s seen blanks first fuel with
  | nil =>
    obtain ⟨fuel, rfl⟩ := Nat.exists_eq_add_of_lt enough
    have same : target = s := ext_get fun key => updates.kept key (by simp)
    rw [List.map_nil, List.map_nil, continued, List.singleton_append, readMembers,
      nextKey?_closing blank, same]
    rfl
  | cons e entries ih =>
    obtain ⟨fuel, rfl⟩ : ∃ n, fuel = n + 1 := ⟨fuel - 1, by omega⟩
    have fewer : entries.length < fuel := Nat.lt_of_succ_lt_succ enough
    have freshLater : ∀ k ∈ seen, ∀ f ∈ entries, f.name ≠ k.name :=
      fun k mem f there => fresh k mem f (List.mem_cons_of_mem e there)
    rw [List.map_cons, List.map_cons, continued, List.append_assoc, List.append_assoc]
    by_cases known : ∃ key : Key, e.name = key.name
    · obtain ⟨key, named⟩ := known
      have new : key ∉ seen := fun mem => fresh key mem e List.mem_cons_self named
      rw [readMembers_known blank first fuel seen s named new
        (updates.given key e List.mem_cons_self named)]
      exact ih (updates.tail_of_known named) once.tail
        (List.forall_mem_cons.mpr ⟨once.head_ne named, freshLater⟩)
        e.member.value.blank_after false fuel fewer
    · have unknown : ∀ key : Key, e.name ≠ key.name := not_exists.mp known
      have ends := ends_continued (.inr rfl) e.member.value.blank_after
        ((entries.map Entry.member).map Member.spelled) rest
      rw [readMembers_unknown blank first fuel seen s unknown ends]
      exact ih (updates.tail_of_unknown unknown) once.tail freshLater
        e.member.value.blank_after false fuel fewer

/-- The text of an object is read as the settings its members lead to. -/
theorem read_eq {text : List Char} (object : ObjectOf entries text) (once : Once entries)
    (updates : Updates entries {} target) : read text = .ok target := by
  obtain ⟨before, blanks, after, hb, hi, ha, rfl⟩ := object
  have none : ∀ key ∈ ([] : List Key), ∀ e ∈ entries, e.name ≠ key.name := by simp
  have few := length_le_continued '\x7d' true ((entries.map Entry.member).map Member.spelled)
  have members := readMembers_eq updates once none hi true
    ((blanks ++ (continued '\x7d' true ((entries.map Entry.member).map Member.spelled) ++
      after)).length + 1) after
    (by simp only [List.length_map, List.length_append] at few ⊢; omega)
  have whole : readAny (before ++ (objectText blanks (entries.map Entry.member) ++ after)) =
      .ok (target, after) := by
    rw [readAny, skipBlanks_append hb, objectText, enclosed, intercalate_append_closing,
      List.cons_append, skipBlanks_cons rfl, List.append_assoc]
    exact members
  have rest : skipBlanks after = [] := by
    rw [← List.append_nil after, skipBlanks_append ha]
    rfl
  rw [read, readAll, whole]
  exact if_pos rest

theorem Updates.cons_of_unknown (h : Updates entries s target)
    (unknown : ∀ key : Key, e.name ≠ key.name) : Updates (e :: entries) s target where
  given key f mem named := by
    rcases List.mem_cons.mp mem with rfl | mem
    · exact absurd named (unknown key)
    · exact h.given key f mem named
  kept key none := h.kept key (List.forall_mem_cons.mp none).2

theorem Updates.cons_of_known (h : Updates entries s target) {key : Key} {value : key.Content}
    (named : e.name = key.name) (others : ∀ f ∈ entries, f.name ≠ key.name)
    (spelled : key.Spelled e.member.value.text value) :
    Updates (e :: entries) s (target.put key value) where
  given other f mem named' := by
    rcases List.mem_cons.mp mem with rfl | mem
    · obtain rfl : other = key := Key.name_inj (named'.symm.trans named)
      rwa [get_put_self]
    · have ne : other ≠ key := by
        rintro rfl
        exact others f mem named'
      rw [get_put_of_ne target ne]
      exact h.given other f mem named'
  kept other none := by
    rw [List.forall_mem_cons] at none
    have ne : other ≠ key := by
      rintro rfl
      exact none.1 named
    rw [get_put_of_ne target ne]
    exact h.kept other none.2

/-- Each key has a value of its type. -/
def Typed (entries : List Entry) : Prop :=
  ∀ key : Key, ∀ e ∈ entries, e.name = key.name → ∃ value, key.Spelled e.member.value.text value

theorem exists_updates (once : Once entries) (typed : Typed entries) (s : Settings) :
    ∃ target, Updates entries s target := by
  induction entries with
  | nil => exact ⟨s, by simp, fun key _ => rfl⟩
  | cons e entries ih =>
    obtain ⟨target, later⟩ := ih once.tail fun key f mem => typed key f (List.mem_cons_of_mem e mem)
    by_cases known : ∃ key : Key, e.name = key.name
    · obtain ⟨key, named⟩ := known
      obtain ⟨value, spelled⟩ := typed key e List.mem_cons_self named
      exact ⟨_, later.cons_of_known named (once.head_ne named) spelled⟩
    · exact ⟨target, later.cons_of_unknown (not_exists.mp known)⟩

end Members

end Settings

namespace Json

section Written

theorem hexDigit_hexDigit {n : Nat} (h : n < 16) : HexDigit (hexDigit n) n := by
  have all : ∀ n < 16, "0123456789abcdef".toList[n]? = some (hexDigit n) := by decide
  exact .lower (all n h)

theorem spells_writeChar (c : Char) {text value : List Char} (rest : Spells text value) :
    Spells (writeChar c ++ text) (c :: value) := by
  have short {e : Char} (h : (e, c) ∈ shortEscapes) : Spells (['\\', e] ++ text) (c :: value) :=
    .short h rest
  unfold writeChar
  split_ifs with quote backslash _ _ _ _ _ control
  -- The escapes of one letter come first.
  rotate_left 7
  · have zero : HexDigit '0' 0 := .lower rfl
    have number : 4096 * 0 + 256 * 0 + 16 * (c.toNat / 16) + c.toNat % 16 = c.toNat := by omega
    have unit := HexUnit.four zero zero (hexDigit_hexDigit (n := c.toNat / 16) (by omega))
      (hexDigit_hexDigit (n := c.toNat % 16) (by omega))
    rw [number] at unit
    exact .unit unit rest
  · exact .plain ⟨quote, backslash, Nat.not_lt.mp control⟩ rest
  all_goals exact short (by simp [shortEscapes, *])

theorem spells_written (cs : List Char) : Spells (cs.flatMap writeChar) cs := by
  induction cs with
  | nil => exact .empty
  | cons c cs ih => exact spells_writeChar c ih

theorem textOf_writeText (value : String) : TextOf (writeText value) value :=
  ⟨_, rfl, spells_written value.toList⟩

theorem isValue_writeText (value : String) : IsValue (writeText value) :=
  .string (spells_written value.toList).stringText

/-- A text without blanks around it. -/
def Padded.bare (text : List Char) : Padded := ⟨[], text, [], Blank.nil, Blank.nil⟩

theorem writeTexts_eq (values : List String) :
    writeTexts values = listText [] (values.map fun value => Padded.bare (writeText value)) := by
  simp [writeTexts, listText, enclosed, Padded.bare, Padded.spelled, Function.comp_def]

theorem textsOf_writeTexts (values : List String) : TextsOf (writeTexts values) values := by
  refine ⟨[], _, Blank.nil, writeTexts_eq values, List.forall₂_map_left_iff.mpr ?_⟩
  exact List.forall₂_same.mpr fun value _ => textOf_writeText value

theorem isValue_writeTexts (values : List String) : IsValue (writeTexts values) := by
  rw [writeTexts_eq]
  refine .list Blank.nil fun item mem => ?_
  obtain ⟨value, -, rfl⟩ := List.mem_map.mp mem
  exact isValue_writeText value

end Written

end Json

namespace Settings

open Json

section Written

def entryOf (key : Key) {text : List Char} (formed : IsValue text) : Entry where
  name := key.name
  member := ⟨.bare (key.name.toList.flatMap writeChar), .bare text⟩
  named := spells_written key.name.toList
  formed := formed

/-- What is written for a key. -/
def entry? (s : Settings) : Key → Option Entry
  | .includeDirs => some (entryOf .includeDirs (isValue_writeTexts s.includeDirs))
  | .heartDir => s.heartDir.map fun path => entryOf .heartDir (isValue_writeText path)
  | .extensions => some (entryOf .extensions (isValue_writeTexts s.extensions))
  | .output => s.output.map fun path => entryOf .output (isValue_writeText path)

def written (s : Settings) : List Entry := Key.all.filterMap s.entry?

variable {s : Settings} {key : Key} {e : Entry}

theorem entry?_eq_some (h : s.entry? key = some e) :
    e.name = key.name ∧ key.Spelled e.member.value.text (s.get key) := by
  cases key with
  | includeDirs =>
    cases h
    exact ⟨rfl, textsOf_writeTexts s.includeDirs⟩
  | heartDir =>
    obtain ⟨path, set, rfl⟩ := Option.map_eq_some_iff.mp h
    refine ⟨rfl, ?_⟩
    rw [get, set]
    exact textOf_writeText path
  | extensions =>
    cases h
    exact ⟨rfl, textsOf_writeTexts s.extensions⟩
  | output =>
    obtain ⟨path, set, rfl⟩ := Option.map_eq_some_iff.mp h
    refine ⟨rfl, ?_⟩
    rw [get, set]
    exact textOf_writeText path

/-- Only what is not set is left out. -/
theorem entry?_eq_none (h : s.entry? key = none) : s.get key = get {} key := by
  cases key with
  | includeDirs => cases h
  | heartDir => exact Option.map_eq_none_iff.mp h
  | extensions => cases h
  | output => exact Option.map_eq_none_iff.mp h

theorem Key.mem_all (key : Key) : key ∈ Key.all := by cases key <;> decide

theorem updates_written (s : Settings) : Updates s.written {} s where
  given key e mem named := by
    obtain ⟨other, -, there⟩ := List.mem_filterMap.mp mem
    obtain ⟨named', spelled⟩ := entry?_eq_some there
    obtain rfl : other = key := Key.name_inj (named'.symm.trans named)
    exact spelled
  kept key none := by
    cases there : s.entry? key with
    | none => exact entry?_eq_none there
    | some e =>
      have mem : e ∈ s.written := List.mem_filterMap.mpr ⟨key, key.mem_all, there⟩
      exact absurd (entry?_eq_some there).1 (none e mem)

theorem once_written (s : Settings) : Once s.written := by
  obtain ⟨includeDirs, heartDir, extensions, output⟩ := s
  intro key
  cases heartDir <;> cases output <;> cases key <;> exact Nat.le_of_ble_eq_true rfl

theorem write_eq (s : Settings) : s.write = objectText [] (s.written.map Entry.member) := by
  obtain ⟨includeDirs, heartDir, extensions, output⟩ := s
  cases heartDir <;> cases output <;>
    simp [write, written, Key.all, List.filterMap_cons, entry?, entryOf, writeMembers, objectText,
      enclosed, Member.spelled, Padded.bare, Padded.spelled, writeText, quoted]

end Written

section Reordered

variable {entries others permuted : List Entry} {s target : Settings}

theorem Once.of_perm (h : Once entries) (unknown : ∀ e ∈ others, ∀ key : Key, e.name ≠ key.name)
    (perm : permuted.Perm (entries ++ others)) : Once permuted := by
  intro key
  have none : (others.map Entry.name).count key.name = 0 := by
    rw [List.count_eq_zero, List.mem_map]
    rintro ⟨e, mem, named⟩
    exact unknown e mem key named
  rw [(perm.map Entry.name).count_eq, List.map_append, List.count_append, none]
  exact h key

theorem Updates.of_perm (h : Updates entries s target)
    (unknown : ∀ e ∈ others, ∀ key : Key, e.name ≠ key.name)
    (perm : permuted.Perm (entries ++ others)) : Updates permuted s target where
  given key e mem named := by
    have mem := (List.mem_append.mp (perm.subset mem)).resolve_right fun other =>
      unknown e other key named
    exact h.given key e mem named
  kept key none := h.kept key fun e mem =>
    none e (perm.symm.subset (List.mem_append_left others mem))

end Reordered

/-- A written file is read back. The text of any object with at most one member for each key, and
that of the right type, gives the settings with the values of these members and defaults for the
other keys. They are the same for every text that gives the keys these values, whatever else it has
and in whatever order. -/
theorem settings_given_by_keys :
    (∀ s : Settings, read s.write = .ok s) ∧
      ∀ (entries : List Entry) (text : List Char), ObjectOf entries text → Once entries →
        Typed entries → ∃ s, read text = .ok s ∧ Updates entries {} s ∧
          (∀ (others : List Entry) (text' : List Char), ObjectOf others text' → Once others →
            Updates others {} s → read text' = .ok s) ∧
          ∀ (others permuted : List Entry) (text' : List Char),
            (∀ e ∈ others, ∀ key : Key, e.name ≠ key.name) → permuted.Perm (entries ++ others) →
            ObjectOf permuted text' → read text' = .ok s := by
  refine ⟨fun s => ?_, fun entries text object once typed => ?_⟩
  · have object : ObjectOf s.written s.write := by
      refine ⟨[], [], [], Blank.nil, Blank.nil, Blank.nil, ?_⟩
      rw [write_eq, List.nil_append, List.append_nil]
    exact read_eq object s.once_written s.updates_written
  · obtain ⟨s, updates⟩ := exists_updates once typed {}
    refine ⟨s, read_eq object once updates, updates, fun others text' => read_eq, ?_⟩
    intro others permuted text' unknown perm object'
    exact read_eq object' (once.of_perm unknown perm) (updates.of_perm unknown perm)

section Nested

def nestedValue : List Char :=
  listText [] [.bare ['-', '1'],
    ⟨[' '], objectText [] [⟨.bare ['y'], .bare "null".toList⟩], [], by decide, Blank.nil⟩]

theorem isValue_nestedValue : IsValue nestedValue := by
  have whole : Whole ['1'] :=
    .digits (by decide) ⟨by decide, List.forall_mem_singleton.mpr rfl⟩
  have number : IsValue ['-', '1'] := .negative (.parts whole .absent .absent)
  have object : IsValue (objectText [] [⟨.bare ['y'], .bare "null".toList⟩]) := by
    refine .object Blank.nil ?_ ?_ <;> rw [List.forall_mem_singleton]
    · exact .plain ⟨by decide, by decide, by decide⟩ .empty
    · exact .null
  refine .list Blank.nil ?_
  rw [List.forall_mem_cons, List.forall_mem_singleton]
  exact ⟨number, object⟩

/-- A member under a key that means nothing. -/
def nestedEntry : Entry where
  name := "x"
  member := ⟨.bare ['x'], ⟨[' '], nestedValue, [], by decide, Blank.nil⟩⟩
  named := .plain ⟨by decide, by decide, by decide⟩ .empty
  formed := isValue_nestedValue

def pathEntry : Entry := entryOf .heartDir (isValue_writeText "a\n")

theorem nested_entry_ignored :
    ObjectOf [pathEntry] "\x7b\"heartDir\":\"a\\n\"\x7d".toList ∧
      ∃ s, read "\x7b\"heartDir\":\"a\\n\"\x7d".toList = .ok s ∧
        read " \x7b\"x\": [-1, \x7b\"y\":null\x7d],\"heartDir\":\"a\\n\"\x7d".toList = .ok s := by
  have object : ObjectOf [pathEntry] "\x7b\"heartDir\":\"a\\n\"\x7d".toList :=
    ⟨[], [], [], Blank.nil, Blank.nil, Blank.nil, by decide +kernel⟩
  have once : Once [pathEntry] := by intro key; cases key <;> decide +kernel
  have typed : Typed [pathEntry] := by
    intro key e mem named
    obtain rfl := List.mem_singleton.mp mem
    obtain rfl : Key.heartDir = key := Key.name_inj named
    exact ⟨some "a\n", textOf_writeText "a\n"⟩
  obtain ⟨s, done, -, -, same⟩ := settings_given_by_keys.2 _ _ object once typed
  refine ⟨object, s, done,
    same [nestedEntry] [nestedEntry, pathEntry] _ ?_ (List.Perm.swap _ _ _) ?_⟩
  · intro e mem key
    obtain rfl := List.mem_singleton.mp mem
    cases key <;> decide +kernel
  · exact ⟨[' '], [], [], by decide, Blank.nil, Blank.nil, by decide +kernel⟩

end Nested

end Settings

end ReflectGen
