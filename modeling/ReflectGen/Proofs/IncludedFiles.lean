import Mathlib.Data.List.Basic
import ReflectGen.Include
import ReflectGen.Proofs.DecodedBytes
import ReflectGen.Proofs.PlainPaths

namespace ReflectGen

namespace Path

section Pieces

theorem component?_of_idle {piece : List Char} (h : isIdle piece) : component? piece = none :=
  if_pos h

theorem filterMap_dropIdle (body : List (List Char)) :
    (dropIdle body).filterMap component? = body.filterMap component? := by
  induction body with
  | nil => rfl
  | cons piece rest ih =>
    rw [dropIdle] at ih ⊢
    by_cases idle : isIdle piece
    · rw [List.dropWhile_cons_of_pos idle, ih, List.filterMap_cons_none (component?_of_idle idle)]
    · rw [List.dropWhile_cons_of_neg idle]

theorem filterMap_dropIdleEnd (body : List (List Char)) :
    (dropIdleEnd body).filterMap component? = body.filterMap component? := by
  rw [dropIdleEnd, List.filterMap_reverse, filterMap_dropIdle, List.filterMap_reverse,
    List.reverse_reverse]

theorem filterMap_dropComponents (n : Nat) (body : List (List Char)) :
    (dropComponents n body).filterMap component? = (body.filterMap component?).drop n := by
  fun_induction dropComponents n body with
  | case1 body => rfl
  | case2 n => rfl
  | case3 n piece rest idle ih => rw [ih, List.filterMap_cons_none (component?_of_idle idle)]
  | case4 n piece rest busy ih =>
    obtain ⟨c, counts⟩ : ∃ c, component? piece = some c := by
      rw [component?, if_neg busy]
      split <;> exact ⟨_, rfl⟩
    rw [ih, List.filterMap_cons_some counts, List.drop_succ_cons]

theorem dropComponents_subset (n : Nat) (body : List (List Char)) :
    dropComponents n body ⊆ body := by
  fun_induction dropComponents n body with
  | case1 body => exact List.Subset.refl body
  | case2 n => exact List.Subset.refl []
  | case3 n piece rest idle ih => exact List.subset_cons_of_subset piece ih
  | case4 n piece rest busy ih => exact List.subset_cons_of_subset piece ih

theorem segments_joinPieces {body : List (List Char)} (some : body ≠ [])
    (clean : ∀ piece ∈ body, '/' ∉ piece) : segments (joinPieces body) = body := by
  induction body with
  | nil => exact absurd rfl some
  | cons piece rest ih =>
    rw [List.forall_mem_cons] at clean
    cases rest with
    | nil => simpa [joinPieces] using segments_of_notMem clean.1
    | cons next rest =>
      have joined := ih (List.cons_ne_nil next rest) clean.2
      rw [joinPieces] at joined ⊢
      rw [List.intercalate_cons_of_ne_nil (List.cons_ne_nil next rest), List.append_assoc,
        List.singleton_append, segments_append, segments_of_notMem clean.1, joined]
      rfl

theorem flatMap_joinPieces {f : Char → List Char} (slash : f '/' = ['/'])
    (body : List (List Char)) :
    (joinPieces body).flatMap f = joinPieces (body.map fun piece => piece.flatMap f) := by
  induction body with
  | nil => rfl
  | cons piece rest ih =>
    cases rest with
    | nil => simp [joinPieces]
    | cons next rest =>
      rw [joinPieces, joinPieces] at ih
      rw [joinPieces, joinPieces, List.map_cons,
        List.intercalate_cons_of_ne_nil (List.cons_ne_nil next rest), List.flatMap_append,
        List.flatMap_append, ih, List.flatMap_singleton, slash]
      exact (List.intercalate_cons_of_ne_nil (List.cons_ne_nil _ _)).symm

/-- No pieces and one empty piece are written the same, and neither names anything. -/
theorem filterMap_segments_joinPieces {body : List (List Char)}
    (clean : ∀ piece ∈ body, '/' ∉ piece) :
    (segments (joinPieces body)).filterMap component? = body.filterMap component? := by
  cases body with
  | nil => rfl
  | cons piece rest => rw [segments_joinPieces (List.cons_ne_nil piece rest) clean]

end Pieces

section Join

theorem anchor_eq (p : Path) :
    p.spelling.anchor =
      if p.isAbsolute then .root
      else if (segments p.text.toList).head? = some ['.'] then .here else .bare := by
  rw [spelling, isAbsolute]
  cases text : p.text.toList with
  | nil => rfl
  | cons c cs =>
    by_cases slash : c = '/'
    · subst slash
      cases rest : segments cs with
      | nil => exact absurd rest (segments_ne_nil cs)
      | cons next rest' => simp [segments, rest]
    · cases rest : segments cs with
      | nil => exact absurd rest (segments_ne_nil cs)
      | cons piece rest' =>
        by_cases dot : c :: piece = ['.']
        · obtain ⟨rfl, rfl⟩ := List.cons.inj dot
          simp [segments, rest]
        · have shape : segments (c :: cs) = (c :: piece) :: rest' := by
            rw [segments, if_neg slash, rest]
          rw [shape, if_neg (by simpa using slash), if_neg (by simpa using dot)]
          split
          · rename_i cut
            cases cut
          · rename_i cut
            exact absurd (List.cons.inj cut).1 dot
          · rfl

/-- The components of a joined path are those of its two parts; a dot that starts the second one is
idle there. -/
theorem components_join {p q : Path} (hp : p.text.toList ≠ []) (hq : q.isAbsolute = false) :
    (p.join q).components = p.components ++ (segments q.text.toList).filterMap component? := by
  obtain ⟨front, some, joined, whole⟩ := segments_join hp hq
  have same : (segments p.text.toList).filterMap component? = front.filterMap component? ∧
      (segments p.text.toList).head? = front.head? := by
    rcases whole with whole | whole
    · rw [whole]
      exact ⟨rfl, rfl⟩
    · rw [whole, List.filterMap_append, List.head?_append_of_ne_nil _ some]
      exact ⟨List.append_nil _, rfl⟩
  have anchored : (p.join q).spelling.anchor = p.spelling.anchor := by
    rw [anchor_eq, anchor_eq, isAbsolute_join hp hq, joined, same.2,
      List.head?_append_of_ne_nil _ some]
  rw [components_eq, components_eq, anchored, joined, same.1, List.filterMap_append,
    List.append_assoc]

end Join

section Names

/-- What can stand for a file or directory between slashes. -/
structure IsName (text : String) : Prop where
  busy : isIdle text.toList = false
  notUp : text.toList ≠ ['.', '.']
  slash : '/' ∉ text.toList

variable {names : List String}

theorem IsName.component? {text : String} (h : IsName text) :
    component? text.toList = some (.name text) := by
  rw [Path.component?, if_neg (by simp [h.busy]), if_neg h.notUp, String.ofList_toList]

/-- A name in a path is a piece of it. -/
theorem mem_segments_of_mem_components {p : Path} {text : String}
    (h : .name text ∈ p.components) :
    text.toList ∈ segments p.text.toList ∧ isIdle text.toList = false ∧
      text.toList ≠ ['.', '.'] := by
  have named : .name text ∈ (segments p.text.toList).filterMap Path.component? := by
    rw [components_eq] at h
    refine (List.mem_append.mp h).resolve_left ?_
    cases p.spelling.anchor <;> simp [Anchor.components]
  obtain ⟨piece, mem, counts⟩ := List.mem_filterMap.mp named
  rw [Path.component?] at counts
  split at counts
  · cases counts
  · rename_i busy
    split at counts
    · cases counts
    · rename_i notUp
      cases counts
      rw [String.toList_ofList]
      exact ⟨mem, Bool.eq_false_iff.mpr busy, notUp⟩

theorem isName_of_mem_components {p : Path} {text : String} (h : .name text ∈ p.components) :
    IsName text := by
  obtain ⟨mem, busy, notUp⟩ := mem_segments_of_mem_components h
  exact ⟨busy, notUp, (mem_segments mem).1⟩

/-- The path of names below one another. -/
def ofNames (names : List String) : Path := ⟨"/".intercalate names⟩

theorem toList_ofNames (names : List String) :
    (ofNames names).text.toList = joinPieces (names.map String.toList) :=
  String.toList_intercalate

theorem segments_ofNames (some : names ≠ []) (named : ∀ text ∈ names, IsName text) :
    segments (ofNames names).text.toList = names.map String.toList := by
  rw [toList_ofNames, segments_joinPieces (by simpa using some)]
  simpa using fun text mem => (named text mem).slash

theorem filterMap_ofNames (named : ∀ text ∈ names, IsName text) :
    (segments (ofNames names).text.toList).filterMap component? = names.map .name := by
  have clean : ∀ piece ∈ names.map String.toList, '/' ∉ piece := by
    simpa using fun text mem => (named text mem).slash
  rw [toList_ofNames, filterMap_segments_joinPieces clean, List.filterMap_map]
  exact List.filterMap_eq_map_iff_forall_eq_some.mpr fun text mem => (named text mem).component?

/-- A path of names starts with neither a slash nor a dot of its own. -/
theorem anchor_ofNames (named : ∀ text ∈ names, IsName text) :
    (ofNames names).isAbsolute = false ∧ (ofNames names).spelling.anchor = .bare := by
  cases names with
  | nil => exact ⟨rfl, rfl⟩
  | cons text rest =>
    have busy := (named text List.mem_cons_self).busy
    have first : (segments (ofNames (text :: rest)).text.toList).head? = some text.toList := by
      rw [segments_ofNames (List.cons_ne_nil text rest) named]
      rfl
    have relative : (ofNames (text :: rest)).isAbsolute = false := by
      rw [← Bool.not_eq_true]
      intro absolute
      obtain ⟨cs, cut⟩ := List.head?_eq_some_iff.mp (eq_of_beq absolute)
      rw [cut, segments, if_pos rfl] at first
      rw [← Option.some.inj first] at busy
      cases busy
    refine ⟨relative, ?_⟩
    rw [anchor_eq, relative, if_neg Bool.false_ne_true, if_neg]
    rw [first]
    intro dot
    rw [Option.some.inj dot] at busy
    cases busy

theorem components_join_ofNames (root : Path) (named : ∀ text ∈ names, IsName text) :
    (root.join (ofNames names)).components = root.components ++ names.map .name := by
  obtain ⟨relative, bare⟩ := anchor_ofNames named
  by_cases empty : root.text.toList = []
  · obtain rfl : root = ⟨""⟩ := congrArg Path.mk (String.toList_eq_nil_iff.mp empty)
    have self : join ⟨""⟩ (ofNames names) = ofNames names := by simp [join, relative]
    rw [self, components_eq, bare, filterMap_ofNames named]
    rfl
  · rw [components_join empty relative, filterMap_ofNames named]

end Names

section Below

/-- The names of a path below a root, in order. -/
def namesBelow (root file : Path) : List String :=
  (file.components.drop root.components.length).filterMap Component.name?

theorem filterMap_name?_components (p : Path) :
    p.components.filterMap Component.name? =
      ((segments p.text.toList).filterMap component?).filterMap Component.name? := by
  have none : p.spelling.anchor.components.filterMap Component.name? = [] := by
    cases p.spelling.anchor <;> rfl
  rw [components_eq, List.filterMap_append, none, List.nil_append]

theorem Spelling.filterMap_path {s : Spelling} (clean : ∀ piece ∈ s.body, '/' ∉ piece) :
    (segments s.path.text.toList).filterMap component? = s.body.filterMap component? := by
  have joined := filterMap_segments_joinPieces clean
  obtain ⟨anchor, body⟩ := s
  cases anchor with
  | root => simpa [Spelling.path, segments, component?, isIdle] using joined
  | bare => simpa [Spelling.path] using joined
  | here =>
    cases body with
    | nil => rfl
    | cons piece rest => simpa [Spelling.path, segments, component?, isIdle] using joined

theorem drop_components (p : Path) (n : Nat) :
    p.components.drop (n + 1) =
      (p.spelling.body.filterMap component?).drop
        (if p.spelling.anchor = .bare then n + 1 else n) := by
  rw [components]
  cases p.spelling.anchor <;> simp [Anchor.components]

/-- What remains below the root keeps the names. -/
theorem exists_below? {root file : Path} (h : root.components <+: file.components) :
    ∃ rest, root.below? file = some rest ∧
      rest.components.filterMap Component.name? = namesBelow root file := by
  have clean : ∀ piece ∈ file.spelling.body, '/' ∉ piece :=
    fun piece mem => (mem_segments (spelling_body_subset file mem)).1
  rw [below?, if_pos (List.isPrefixOf_iff_prefix.mpr h), namesBelow]
  cases root.components.length with
  | zero =>
    refine ⟨_, rfl, ?_⟩
    rw [filterMap_name?_components, Spelling.filterMap_path, filterMap_dropIdleEnd, List.drop_zero,
      components, List.filterMap_append]
    · cases file.spelling.anchor <;> rfl
    · exact fun piece mem => clean piece (dropIdleEnd_subset _ mem)
  | succ n =>
    refine ⟨_, rfl, ?_⟩
    rw [filterMap_name?_components, String.toList_ofList, filterMap_segments_joinPieces,
      filterMap_dropIdleEnd, filterMap_dropIdle, filterMap_dropComponents, drop_components]
    intro piece mem
    apply clean piece
    have kept := (List.dropWhile_suffix _).subset (dropIdleEnd_subset _ mem)
    exact dropComponents_subset _ _ kept

/-- Below the root a path has names only. -/
def PlainBelow (root file : Path) : Prop :=
  ∀ c ∈ file.components.drop root.components.length, c.name?.isSome

instance (root file : Path) : Decidable (PlainBelow root file) := List.decidableBAll _ _

/-- Components are a list of names just where each of them is one. -/
theorem map_name_eq_iff {names : List String} {cs : List Component} :
    names.map .name = cs ↔
      (∀ c ∈ cs, c.name?.isSome) ∧ names = cs.filterMap Component.name? := by
  induction cs generalizing names with
  | nil => simp
  | cons c cs ih =>
    cases names with
    | nil => cases c <;> simp [Component.name?]
    | cons text names =>
      rw [List.map_cons, List.cons.injEq, ih, List.forall_mem_cons]
      cases c <;> simp [Component.name?, and_left_comm]

/-- Below a root that is not empty, only steps up are no names. -/
theorem plainBelow_iff {root file : Path} (some : root.components ≠ []) :
    PlainBelow root file ↔ .up ∉ file.components.drop root.components.length := by
  obtain ⟨n, length⟩ := Nat.exists_eq_succ_of_ne_zero (mt List.length_eq_zero_iff.mp some)
  rw [PlainBelow, length, drop_components]
  refine ⟨fun plain up => Bool.noConfusion (plain .up up), fun up c mem => ?_⟩
  obtain ⟨piece, -, counts⟩ := List.mem_filterMap.mp (List.mem_of_mem_drop mem)
  rw [component?] at counts
  split at counts
  · cases counts
  · split at counts
    · cases counts
      exact absurd mem up
    · cases counts
      rfl

end Below

section Raw

theorem toNat_char (b : UInt8) : (Char.ofNat b.toNat).toNat = b.toNat :=
  Text.toNat_ofNat (.inl (by have := b.toNat_lt; omega))

theorem toList_rawText (bytes : List UInt8) :
    (rawText bytes).toList = bytes.map fun b => Char.ofNat b.toNat :=
  String.toList_ofList

theorem rawBytes_rawText (bytes : List UInt8) : rawBytes (rawText bytes) = bytes := by
  rw [rawBytes, toList_rawText, List.map_map]
  refine List.map_id'' (fun b => ?_) bytes
  rw [Function.comp_apply, toNat_char, UInt8.ofNat_toNat]

theorem rawText_encode_injective : Function.Injective fun text => rawText (Text.encode text) := by
  intro a b same
  have bytes := congrArg rawBytes same
  rw [rawBytes_rawText, rawBytes_rawText] at bytes
  exact Text.encode_injective bytes

theorem mem_rawText_iff {b : UInt8} {bytes : List UInt8} :
    Char.ofNat b.toNat ∈ (rawText bytes).toList ↔ b ∈ bytes := by
  rw [toList_rawText, List.mem_map]
  refine ⟨fun ⟨a, mem, same⟩ => ?_, fun mem => ⟨b, mem, rfl⟩⟩
  have number := congrArg Char.toNat same
  rw [toNat_char, toNat_char, UInt8.toNat_inj] at number
  exact number ▸ mem

/-- A name in a path of bytes is raw. -/
theorem rawText_rawBytes {file : List UInt8} {text : String}
    (h : .name text ∈ (ofBytes file).components) : rawText (rawBytes text) = text := by
  apply String.toList_injective
  rw [toList_rawText, rawBytes, List.map_map]
  refine (List.map_congr_left fun c mem => ?_).trans (List.map_id _)
  have inside := (mem_segments (mem_segments_of_mem_components h).1).2 mem
  rw [ofBytes, toList_rawText, List.mem_map] at inside
  obtain ⟨b, -, rfl⟩ := inside
  rw [Function.comp_apply, toNat_char, UInt8.ofNat_toNat]
  rfl

/-- What replaces the failures in a name makes no other kind of component of it. -/
theorem isName_repaired {bytes : List UInt8} (h : IsName (rawText bytes)) :
    IsName (rawText (Text.repaired bytes)) := by
  -- Where all bytes are low nothing was replaced, and any other byte keeps the name from being dots.
  by_cases low : ∀ b ∈ Text.repaired bytes, b.toNat < 0x80
  · rwa [Text.eq_of_repaired_low low]
  · simp only [not_forall, Nat.not_lt] at low
    obtain ⟨b, mem, high⟩ := low
    have there := mem_rawText_iff.mpr mem
    have notDot : Char.ofNat b.toNat ≠ '.' := by
      intro dot
      have number := congrArg Char.toNat dot
      rw [toNat_char] at number
      exact absurd (number ▸ high) (by decide)
    refine ⟨?_, fun up => ?_, fun slash => ?_⟩
    · rw [isIdle, Bool.or_eq_false_iff, beq_eq_false_iff_ne, beq_eq_false_iff_ne]
      refine ⟨fun none => ?_, fun dot => ?_⟩
      · rw [none] at there
        cases there
      · rw [dot, List.mem_singleton] at there
        exact notDot there
    · rw [up] at there
      simp [notDot] at there
    · exact h.slash (mem_rawText_iff.mpr
        (Text.mem_of_mem_repaired (b := 47) (by decide) (mem_rawText_iff.mp slash)))

theorem toList_rawText_encode (text : String) :
    (rawText (Text.encode text)).toList = text.toList.flatMap fun c =>
      (String.utf8EncodeChar c).map fun b => Char.ofNat b.toNat := by
  have bytes := Text.encode_ofList text.toList
  rw [String.ofList_toList] at bytes
  rw [toList_rawText, bytes, List.map_flatMap]

/-- Texts joined by slashes are so joined as bytes too. -/
theorem ofBytes_encode_ofNames (texts : List String) :
    ofBytes (Text.encode (ofNames texts).text) =
      ofNames (texts.map fun text => rawText (Text.encode text)) := by
  have same : (rawText (Text.encode (ofNames texts).text)).toList =
      (ofNames (texts.map fun text => rawText (Text.encode text))).text.toList := by
    rw [toList_rawText_encode, toList_ofNames, toList_ofNames, flatMap_joinPieces (by decide),
      List.map_map, List.map_map]
    simp only [Function.comp_def, toList_rawText_encode]
  exact congrArg Path.mk (String.toList_injective same)

end Raw

section Includes

variable {root file other : List UInt8}

theorem relativeInclude_eq (h : (ofBytes root).components <+: (ofBytes file).components) :
    relativeInclude root file =
      (ofNames ((namesBelow (ofBytes root) (ofBytes file)).map shownName)).text := by
  obtain ⟨rest, found, names⟩ := exists_below? h
  simp only [relativeInclude, found, names]
  rfl

theorem mem_components_of_mem_namesBelow {root file : Path} {text : String}
    (h : text ∈ namesBelow root file) : .name text ∈ file.components := by
  obtain ⟨c, there, named⟩ := List.mem_filterMap.mp h
  cases c <;> cases named
  exact List.mem_of_mem_drop there

/-- Seen from the root, the include leads to the names below it as they are shown. -/
theorem components_join_relativeInclude
    (h : (ofBytes root).components <+: (ofBytes file).components) :
    ((ofBytes root).join (ofBytes (Text.encode (relativeInclude root file)))).components =
      (ofBytes root).components ++ ((namesBelow (ofBytes root) (ofBytes file)).map
        fun text => rawText (Text.repaired (rawBytes text))).map .name := by
  rw [relativeInclude_eq h, ofBytes_encode_ofNames, List.map_map, components_join_ofNames]
  · rfl
  · intro shown mem
    obtain ⟨text, there, rfl⟩ := List.mem_map.mp mem
    have named := mem_components_of_mem_namesBelow there
    apply isName_repaired
    rw [rawText_rawBytes named]
    exact isName_of_mem_components named

/-- Below the root all names are UTF-8. -/
def Utf8Below (root file : Path) : Prop :=
  ∀ raw ∈ namesBelow root file, ∃ text, Text.encode text = rawBytes raw

instance (root file : Path) : Decidable (Utf8Below root file) := List.decidableBAll _ _

theorem map_repaired_eq_iff {root : Path} :
    (namesBelow root (ofBytes file)).map (fun raw => rawText (Text.repaired (rawBytes raw))) =
        namesBelow root (ofBytes file) ↔ Utf8Below root (ofBytes file) := by
  have each : ∀ raw ∈ namesBelow root (ofBytes file),
      (rawText (Text.repaired (rawBytes raw)) = id raw ↔
        ∃ text, Text.encode text = rawBytes raw) := by
    intro raw mem
    rw [← Text.repaired_eq_self_iff]
    refine ⟨fun same => ?_, fun same => ?_⟩
    · rw [← rawBytes_rawText (Text.repaired (rawBytes raw)), same, id]
    · rw [same, rawText_rawBytes (mem_components_of_mem_namesBelow mem), id]
  calc
    _ ↔ (namesBelow root (ofBytes file)).map (fun raw => rawText (Text.repaired (rawBytes raw))) =
          (namesBelow root (ofBytes file)).map id := by rw [List.map_id]
    _ ↔ Utf8Below root (ofBytes file) := List.map_inj_left.trans (forall₂_congr each)

/-- An include leads to its file just where the path has only names below the root, which is to say
no step up unless the root is empty, and these are UTF-8. Two files share one just where their names
there look the same. -/
theorem include_leads_to_file_iff (root file other : List UInt8)
    (inside : (ofBytes root).components <+: (ofBytes file).components)
    (otherInside : (ofBytes root).components <+: (ofBytes other).components) :
    (((ofBytes root).join (ofBytes (Text.encode (relativeInclude root file)))).components =
        (ofBytes file).components ↔
      PlainBelow (ofBytes root) (ofBytes file) ∧ Utf8Below (ofBytes root) (ofBytes file)) ∧
    ((ofBytes root).components ≠ [] →
      (PlainBelow (ofBytes root) (ofBytes file) ↔
        .up ∉ (ofBytes file).components.drop (ofBytes root).components.length)) ∧
    (relativeInclude root file = relativeInclude root other ↔
      (namesBelow (ofBytes root) (ofBytes file)).map shownName =
        (namesBelow (ofBytes root) (ofBytes other)).map shownName) ∧
    (PlainBelow (ofBytes root) (ofBytes file) → Utf8Below (ofBytes root) (ofBytes file) →
      PlainBelow (ofBytes root) (ofBytes other) → Utf8Below (ofBytes root) (ofBytes other) →
      relativeInclude root file = relativeInclude root other →
      (ofBytes file).components = (ofBytes other).components) := by
  have leads {file : List UInt8}
      (inside : (ofBytes root).components <+: (ofBytes file).components) :
      ((ofBytes root).join (ofBytes (Text.encode (relativeInclude root file)))).components =
          (ofBytes file).components ↔
        PlainBelow (ofBytes root) (ofBytes file) ∧ Utf8Below (ofBytes root) (ofBytes file) := by
    rw [components_join_relativeInclude inside, ← map_repaired_eq_iff, PlainBelow, namesBelow]
    obtain ⟨rest, whole⟩ := inside
    rw [← whole, List.drop_left, List.append_right_inj, map_name_eq_iff]
  refine ⟨leads inside, plainBelow_iff, ⟨fun same => ?_, fun same => ?_⟩,
    fun plain utf8 otherPlain otherUtf8 same => ?_⟩
  · have joined := components_join_relativeInclude inside
    rw [same, components_join_relativeInclude otherInside, List.append_right_inj] at joined
    have raw := List.map_injective_iff.mpr (fun _ _ => Component.name.inj) joined.symm
    apply List.map_injective_iff.mpr rawText_encode_injective
    rw [List.map_map, List.map_map]
    exact raw
  · rw [relativeInclude_eq inside, relativeInclude_eq otherInside, same]
  · rw [← (leads inside).mpr ⟨plain, utf8⟩, same, (leads otherInside).mpr ⟨otherPlain, otherUtf8⟩]

/-- A step up is left out, and bytes that are no text look alike. Either way the include leads to
another file than it is for, and two files share it. -/
theorem climbing_header_misnamed :
    (let root := bytes ⟨"/proj"⟩
    let file := bytes ⟨"/proj/x/../a.h"⟩
    let other := bytes ⟨"/proj/x/a.h"⟩
    (ofBytes root).components <+: (ofBytes file).components ∧
      (ofBytes root).components <+: (ofBytes other).components ∧
      ((ofBytes root).join (ofBytes (Text.encode (relativeInclude root file)))).components ≠
        (ofBytes file).components ∧
      relativeInclude root file = relativeInclude root other ∧
      (ofBytes file).components ≠ (ofBytes other).components) ∧
    let root := bytes ⟨"/proj"⟩
    let file := root ++ [47, 97, 0xff, 46, 104]
    let other := root ++ [47, 97, 0xfe, 46, 104]
    PlainBelow (ofBytes root) (ofBytes file) ∧ PlainBelow (ofBytes root) (ofBytes other) ∧
      relativeInclude root file = relativeInclude root other ∧
      (ofBytes file).components ≠ (ofBytes other).components := by
  decide +kernel

theorem nested_header_named :
    let root := bytes ⟨"./lib//src/."⟩
    let file := bytes ⟨"./lib/src//gén/./a.h"⟩
    let other := bytes ⟨"./lib/src/a.h"⟩
    PlainBelow (ofBytes root) (ofBytes file) ∧ Utf8Below (ofBytes root) (ofBytes file) ∧
      ((ofBytes root).join (ofBytes (Text.encode (relativeInclude root file)))).components =
        (ofBytes file).components ∧
      relativeInclude root file ≠ relativeInclude root other := by
  intro root file other
  have named := include_leads_to_file_iff root file other (by decide +kernel) (by decide +kernel)
  have plain : PlainBelow (ofBytes root) (ofBytes file) := by decide +kernel
  have utf8 : Utf8Below (ofBytes root) (ofBytes file) := by decide +kernel
  refine ⟨plain, utf8, named.1.mpr ⟨plain, utf8⟩, fun same => ?_⟩
  exact absurd (named.2.2.2 plain utf8 (by decide +kernel) (by decide +kernel) same)
    (by decide +kernel)

end Includes

end Path

end ReflectGen
