import ReflectGen.FileTree.Walk

namespace ReflectGen

namespace Path

theorem segments_ne_nil (cs : List Char) : segments cs ≠ [] := by
  cases cs with
  | nil => simp [segments]
  | cons c cs =>
    unfold segments
    split
    · simp
    · split <;> simp

theorem segments_append (cs ds : List Char) :
    segments (cs ++ '/' :: ds) = segments cs ++ segments ds := by
  induction cs with
  | nil => simp [segments]
  | cons c cs ih =>
    rw [List.cons_append, segments, segments, ih]
    split
    · rfl
    · cases first : segments cs with
      | nil => exact absurd first (segments_ne_nil cs)
      | cons piece rest => rfl

theorem segments_of_notMem {cs : List Char} (h : '/' ∉ cs) : segments cs = [cs] := by
  induction cs with
  | nil => rfl
  | cons c cs ih =>
    rw [List.mem_cons, not_or] at h
    rw [segments, if_neg (Ne.symm h.1), ih h.2]

/-- A piece between slashes holds none, and only characters of the path. -/
theorem mem_segments {cs piece : List Char} (h : piece ∈ segments cs) :
    '/' ∉ piece ∧ piece ⊆ cs := by
  induction cs generalizing piece with
  | nil =>
    rw [segments, List.mem_singleton] at h
    subst h
    simp
  | cons c cs ih =>
    rw [segments] at h
    split at h
    · rcases List.mem_cons.mp h with rfl | h
      · simp
      · exact ⟨(ih h).1, List.subset_cons_of_subset c (ih h).2⟩
    · rename_i hc
      cases first : segments cs with
      | nil => exact absurd first (segments_ne_nil cs)
      | cons front rest =>
        rw [first] at h ih
        rcases List.mem_cons.mp h with rfl | h
        · obtain ⟨slash, sub⟩ := ih List.mem_cons_self
          refine ⟨?_, List.cons_subset_cons c sub⟩
          rw [List.mem_cons, not_or]
          exact ⟨Ne.symm hc, slash⟩
        · obtain ⟨slash, sub⟩ := ih (List.mem_cons_of_mem _ h)
          exact ⟨slash, List.subset_cons_of_subset c sub⟩

theorem spelling_body_subset (p : Path) : p.spelling.body ⊆ segments p.text.toList := by
  unfold spelling
  split
  · rename_i cut
    rw [cut]
    exact List.subset_cons_self _ _
  · rename_i cut
    rw [cut]
    exact List.subset_cons_self _ _
  · exact List.Subset.refl _

theorem dropIdleEnd_subset (body : List (List Char)) : dropIdleEnd body ⊆ body := by
  intro piece mem
  exact List.mem_reverse.mp ((List.dropWhile_suffix _).subset (List.mem_reverse.mp mem))

theorem toList_join {p q : Path} (hp : p.text.toList ≠ []) (hq : q.isAbsolute = false) :
    (p.join q).text.toList =
      if p.text.toList.getLast? = some '/' then p.text.toList ++ q.text.toList
      else p.text.toList ++ '/' :: q.text.toList := by
  have text : p.text ≠ "" := fun h => hp (by simp [h])
  unfold join
  by_cases slashed : p.text.toList.getLast? = some '/' <;> simp [hq, slashed, text]

theorem isAbsolute_join {p q : Path} (hp : p.text.toList ≠ []) (hq : q.isAbsolute = false) :
    (p.join q).isAbsolute = p.isAbsolute := by
  obtain ⟨c, cs, hcs⟩ := List.exists_cons_of_ne_nil hp
  rw [isAbsolute, isAbsolute, toList_join hp hq, hcs]
  split <;> rfl

/-- The pieces of a joined path are those of its two parts; a slash at the end of the first one
leaves no piece of its own. -/
theorem segments_join {p q : Path} (hp : p.text.toList ≠ []) (hq : q.isAbsolute = false) :
    ∃ front, front ≠ [] ∧
      segments (p.join q).text.toList = front ++ segments q.text.toList ∧
      (segments p.text.toList = front ∨ segments p.text.toList = front ++ [[]]) := by
  rw [toList_join hp hq]
  split
  · rename_i slashed
    obtain ⟨cs, hcs⟩ := List.getLast?_eq_some_iff.mp slashed
    refine ⟨segments cs, segments_ne_nil cs, ?_, .inr ?_⟩
    · rw [hcs, List.append_assoc, List.singleton_append, segments_append]
    · rw [hcs, segments_append]
      rfl
  · exact ⟨segments p.text.toList, segments_ne_nil _, segments_append .., .inl rfl⟩

theorem components_eq (p : Path) :
    p.components =
      p.spelling.anchor.components ++ (segments p.text.toList).filterMap component? := by
  have body : p.spelling.body.filterMap component? =
      (segments p.text.toList).filterMap component? := by
    -- The piece that the start takes away is idle.
    unfold spelling
    split
    · rename_i next rest cut
      rw [cut]
      rfl
    · rename_i rest _ cut
      rw [cut]
      rfl
    · rfl
  rw [components, body]

/-- A path without parent components has none among its pieces. -/
theorem notMem_segments_of_components {p : Path} (h : .up ∉ p.components) :
    ['.', '.'] ∉ segments p.text.toList := by
  intro mem
  apply h
  rw [components_eq]
  exact List.mem_append_right _ (List.mem_filterMap.mpr ⟨_, mem, rfl⟩)

/-- The name that a piece stands for. -/
def name? (piece : List Char) : Option String :=
  if isIdle piece then none else some (String.ofList piece)

theorem filterMap_component? {pieces : List (List Char)} (noUp : ['.', '.'] ∉ pieces) :
    pieces.filterMap component? = (pieces.filterMap name?).map .name := by
  induction pieces with
  | nil => rfl
  | cons piece rest ih =>
    rw [List.mem_cons, not_or] at noUp
    by_cases idle : isIdle piece
    · simp [component?, name?, idle, ih noUp.2]
    · simp [component?, name?, idle, Ne.symm noUp.1, ih noUp.2]

/-- The last of the names that a path ends with is the file name. -/
theorem fileName?_eq {p : Path} {front pieces : List (List Char)}
    (h : segments p.text.toList = front ++ pieces) (noUp : ['.', '.'] ∉ pieces)
    (some_ : pieces.filterMap name? ≠ []) :
    p.fileName? = (pieces.filterMap name?).getLast? := by
  rcases List.eq_nil_or_concat (pieces.filterMap name?) with none_ | ⟨names, last, ends⟩
  · exact absurd none_ some_
  · rw [fileName?, components_eq, h, List.filterMap_append, filterMap_component? noUp, ends]
    simp

end Path

namespace FileTree

open Text

/-- A name that an entry can have. -/
structure ValidName (name : String) : Prop where
  busy : Path.isIdle name.toList = false
  notUp : name.toList ≠ ['.', '.']
  slash : '/' ∉ name.toList
  nul : Char.ofNat 0 ∉ name.toList
  short : byteLength name.toList ≤ maxNameLength

instance (name : String) : Decidable (ValidName name) :=
  decidable_of_iff
    (Path.isIdle name.toList = false ∧ name.toList ≠ ['.', '.'] ∧ '/' ∉ name.toList ∧
      Char.ofNat 0 ∉ name.toList ∧ byteLength name.toList ≤ maxNameLength)
    ⟨fun ⟨busy, notUp, slash, nul, short⟩ => ⟨busy, notUp, slash, nul, short⟩,
      fun ⟨busy, notUp, slash, nul, short⟩ => ⟨busy, notUp, slash, nul, short⟩⟩

theorem ValidName.ne_nil {name : String} (h : ValidName name) : name.toList ≠ [] := by
  intro empty
  have busy := h.busy
  rw [empty] at busy
  cases busy

theorem ValidName.not_isAbsolute {name : String} (h : ValidName name) :
    Path.isAbsolute ⟨name⟩ = false := by
  obtain ⟨c, cs, hcs⟩ := List.exists_cons_of_ne_nil h.ne_nil
  have slash := h.slash
  rw [hcs, List.mem_cons, not_or] at slash
  simp [Path.isAbsolute, hcs, Ne.symm slash.1]

/-- A joined name is the file name. -/
theorem fileName?_join {p : Path} {name : String} (hp : p.text.toList ≠ []) (h : ValidName name) :
    (p.join ⟨name⟩).fileName? = some name := by
  obtain ⟨front, -, joined, -⟩ := Path.segments_join hp h.not_isAbsolute
  rw [Path.segments_of_notMem h.slash] at joined
  have last : [name.toList].filterMap Path.name? = [name] := by simp [Path.name?, h.busy]
  rw [Path.fileName?_eq joined (by simp [Ne.symm h.notUp]) (by simp [last]), last]
  rfl

/-- No entry is a link. -/
def LinkFree (t : FileTree) : Prop := ∀ a target, t.get? a ≠ some (.link target)

/-- The address that one piece of a path leads to. -/
def descend (a : Address) (piece : List Char) : Address :=
  if Path.isIdle piece then a
  else if piece = ['.', '.'] then a.dropLast
  else a ++ [String.ofList piece]

/-- Pieces that do not go up lead down by their names. -/
theorem foldl_descend {pieces : List (List Char)} (noUp : ['.', '.'] ∉ pieces) (a : Address) :
    pieces.foldl descend a = a ++ pieces.filterMap Path.name? := by
  induction pieces generalizing a with
  | nil => simp
  | cons piece rest ih =>
    rw [List.mem_cons, not_or] at noUp
    rw [List.foldl_cons, ih noUp.2]
    by_cases idle : Path.isIdle piece
    · simp [descend, Path.name?, idle]
    · simp [descend, Path.name?, idle, Ne.symm noUp.1]

/-- A piece of a path is taken from a directory, and a name is there. -/
structure Enters (t : FileTree) (fits : Address → Bool) (a : Address) (piece : List Char) :
    Prop where
  dir : t.get? a = some .dir
  named : Path.isIdle piece = false → piece ≠ ['.', '.'] →
    byteLength piece ≤ maxNameLength ∧ fits (descend a piece) ∧ (t.get? (descend a piece)).isSome

/-- All pieces of a path can be taken, one after the other. -/
def Passes (t : FileTree) (fits : Address → Bool) : Address → List (List Char) → Prop
  | _, [] => True
  | a, piece :: rest => Enters t fits a piece ∧ Passes t fits (descend a piece) rest

section Descent

variable {t : FileTree} {fits : Address → Bool} {a b : Address}

theorem passes_append {front rest : List (List Char)} :
    Passes t fits a (front ++ rest) ↔
      Passes t fits a front ∧ Passes t fits (front.foldl descend a) rest := by
  induction front generalizing a with
  | nil => simp [Passes]
  | cons piece front ih => simp [Passes, ih, and_assoc]

theorem descend_of_valid {name : String} (h : ValidName name) :
    descend a name.toList = a ++ [name] := by
  simp [descend, h.busy, h.notUp]

/-- What comes of the pieces of a path in a file system without links. -/
inductive Descends (t : FileTree) (last : Last) (fits : Address → Bool) :
    Address → List (List Char) → Except FileError Target → Prop
  | arrives (a : Address) : Descends t last fits a [] (.ok (.found a))
  | fails {a pieces} (e : FileError) : Descends t last fits a pieces (.error e)
  | moves {a piece rest r} (dir : t.get? a = some .dir)
      (h : Path.isIdle piece ∨ piece = ['.', '.'])
      (next : Descends t last fits (descend a piece) rest r) :
      Descends t last fits a (piece :: rest) r
  | frees {a name rest} (dir : t.get? a = some .dir) (busy : Path.isIdle name = false)
      (up : name ≠ ['.', '.']) (short : byteLength name ≤ maxNameLength)
      (fit : fits (descend a name)) (absent : t.get? (descend a name) = none)
      (ends : last = .create → rest = []) :
      Descends t last fits a (name :: rest) (.ok (.free a (String.ofList name)))
  | enters {a name rest r} (dir : t.get? a = some .dir) (busy : Path.isIdle name = false)
      (up : name ≠ ['.', '.']) (short : byteLength name ≤ maxNameLength)
      (fit : fits (descend a name)) (there : (t.get? (descend a name)).isSome)
      (next : Descends t last fits (descend a name) rest r) :
      Descends t last fits a (name :: rest) r

theorem descend_of_busy {piece : List Char} (busy : Path.isIdle piece = false)
    (up : piece ≠ ['.', '.']) : descend a piece = a ++ [String.ofList piece] := by
  simp [descend, busy, up]

theorem advance_descends (links : t.LinkFree) (last : Last)
    (resume : Address → Path → List (List Char) → Except FileError Target)
    (pieces : List (List Char)) :
    Descends t last fits a pieces (t.advance last fits resume a pieces) := by
  induction pieces generalizing a with
  | nil => exact .arrives a
  | cons piece rest ih =>
    rw [advance]
    by_cases dir : t.get? a = some .dir
    · rw [if_neg (not_not_intro dir)]
      by_cases idle : Path.isIdle piece
      · have stays : descend a piece = a := if_pos idle
        rw [if_pos idle]
        refine .moves dir (.inl idle) ?_
        rw [stays]
        exact ih
      · by_cases up : piece = ['.', '.']
        · have climbs : descend a piece = a.dropLast := (if_neg idle).trans (if_pos up)
          rw [if_neg idle, if_pos up]
          refine .moves dir (.inr up) ?_
          rw [climbs]
          exact ih
        · rw [if_neg idle, if_neg up]
          rw [Bool.not_eq_true] at idle
          dsimp only
          rw [← descend_of_busy idle up]
          split
          · exact .fails _
          · rename_i short
            rw [Nat.not_lt] at short
            split
            · exact .fails _
            · rename_i fit
              rw [Bool.not_eq_true, Bool.not_eq_false'] at fit
              split
              · exact .fails _
              · rename_i slashed
                cases found : t.get? (descend a piece) with
                | none =>
                  dsimp only
                  split
                  · rename_i ends
                    refine .frees dir idle up short fit found fun create => ?_
                    exact ends.resolve_right fun h => slashed ⟨create, h⟩
                  · exact .fails _
                | some e =>
                  have there : (t.get? (descend a piece)).isSome := by rw [found]; rfl
                  cases e with
                  | link target => exact absurd found (links _ target)
                  | file bytes => exact .enters dir idle up short fit there ih
                  | dir => exact .enters dir idle up short fit there ih
    · rw [if_pos dir]
      exact .fails _

theorem Descends.passes {last : Last} {pieces : List (List Char)}
    (h : Descends t last fits a pieces (.ok (.found b))) :
    Passes t fits a pieces ∧ pieces.foldl descend a = b := by
  generalize result : (.ok (.found b) : Except FileError Target) = r at h
  induction h with
  | arrives a =>
    cases result
    exact ⟨trivial, rfl⟩
  | fails e => cases result
  | frees => cases result
  | moves dir h _ ih =>
    obtain ⟨passes, lands⟩ := ih result
    refine ⟨⟨⟨dir, fun busy up => ?_⟩, passes⟩, lands⟩
    rcases h with idle | same
    · rw [idle] at busy
      cases busy
    · exact absurd same up
  | enters dir busy up short fit there _ ih =>
    obtain ⟨passes, lands⟩ := ih result
    exact ⟨⟨⟨dir, fun _ _ => ⟨short, fit, there⟩⟩, passes⟩, lands⟩

/-- A free name stands in a directory, and an entry may take it. -/
theorem Descends.free {last : Last} {pieces : List (List Char)} {dir : Address} {name : String}
    (h : Descends t last fits a pieces (.ok (.free dir name)))
    (clean : ∀ piece ∈ pieces, '/' ∉ piece ∧ Char.ofNat 0 ∉ piece) :
    t.get? dir = some .dir ∧ t.get? (dir ++ [name]) = none ∧ ValidName name := by
  generalize result : (.ok (.free dir name) : Except FileError Target) = r at h
  induction h with
  | arrives a => cases result
  | fails e => cases result
  | frees here busy up short _ absent _ =>
    cases result
    obtain ⟨slash, nul⟩ := clean _ List.mem_cons_self
    rw [descend_of_busy busy up] at absent
    exact ⟨here, absent, by simpa using busy, by simpa using up, by simpa using slash,
      by simpa using nul, by simpa using short⟩
  | moves _ _ _ ih => exact ih (fun piece hp => clean piece (List.mem_cons_of_mem _ hp)) result
  | enters _ _ _ _ _ _ _ ih =>
    exact ih (fun piece hp => clean piece (List.mem_cons_of_mem _ hp)) result

theorem advance_of_passes (links : t.LinkFree)
    (resume : Address → Path → List (List Char) → Except FileError Target)
    {pieces : List (List Char)} (h : Passes t fits a pieces) :
    t.advance .follow fits resume a pieces = .ok (.found (pieces.foldl descend a)) := by
  induction pieces generalizing a with
  | nil => rfl
  | cons piece rest ih =>
    obtain ⟨⟨dir, named⟩, later⟩ := h
    rw [advance, if_neg (not_not_intro dir), List.foldl_cons, ← ih later]
    by_cases idle : Path.isIdle piece
    · simp [idle, descend]
    · by_cases up : piece = ['.', '.']
      · simp [up, descend, Path.isIdle]
      · rw [Bool.not_eq_true] at idle
        obtain ⟨short, fit, there⟩ := named idle up
        obtain ⟨e, found⟩ := Option.isSome_iff_exists.mp there
        rw [descend_of_busy idle up] at fit found ⊢
        cases e with
        | link target => exact absurd found (links _ target)
        | file bytes => simp [idle, up, Nat.not_lt.mpr short, fit, found]
        | dir => simp [idle, up, Nat.not_lt.mpr short, fit, found]

end Descent

/-- Where the pieces of a path lead, if they can all be taken. -/
def landing (t : FileTree) (p : Path) : Address :=
  (Path.segments p.text.toList).foldl descend (t.startOf p)

/-- A path leads to an address, through addresses that fit. -/
structure Leads (t : FileTree) (fits : Address → Bool) (p : Path) (a : Address) : Prop where
  ne_nil : p.text.toList ≠ []
  nul : Char.ofNat 0 ∉ p.text.toList
  passes : Passes t fits (t.startOf p) (Path.segments p.text.toList)
  lands : t.landing p = a

section Leads

variable {t : FileTree} {fits : Address → Bool} {p : Path} {a : Address}

theorem exists_locateFrom_eq (t : FileTree) (last : Last) (fits : Address → Bool) (count : Nat) :
    ∃ resume, t.locateFrom last fits count = t.advance last fits resume := by
  cases count <;> exact ⟨_, rfl⟩

theorem locateFrom_follow_iff (links : t.LinkFree) {count : Nat} {pieces : List (List Char)}
    {b : Address} :
    t.locateFrom .follow fits count a pieces = .ok (.found b) ↔
      Passes t fits a pieces ∧ pieces.foldl descend a = b := by
  obtain ⟨resume, same⟩ := exists_locateFrom_eq t .follow fits count
  rw [same]
  constructor
  · intro h
    have descends : Descends t .follow fits a pieces (t.advance .follow fits resume a pieces) :=
      advance_descends links .follow resume pieces
    rw [h] at descends
    exact descends.passes
  · rintro ⟨passes, rfl⟩
    exact advance_of_passes links resume passes

theorem canonical?_eq_some_iff (links : t.LinkFree) :
    t.canonical? p = some a ↔ Leads t fitsWritten p a := by
  unfold canonical?
  dsimp only
  split
  · rename_i unusable
    constructor
    · rintro ⟨⟩
    · intro leads
      rcases unusable with empty | nul
      · exact absurd empty leads.ne_nil
      · exact absurd (List.contains_iff_mem.mp nul) leads.nul
  · rename_i usable
    rw [not_or] at usable
    constructor
    · intro h
      split at h
      · rename_i found
        cases h
        obtain ⟨passes, lands⟩ := (locateFrom_follow_iff links).mp found
        exact ⟨usable.1, fun nul => usable.2 (List.contains_iff_mem.mpr nul), passes, lands⟩
      · cases h
    · intro leads
      have found : t.locateFrom .follow fitsWritten maxLinks (t.startOf p)
          (Path.segments p.text.toList) = .ok (.found a) :=
        (locateFrom_follow_iff links).mpr ⟨leads.passes, leads.lands⟩
      rw [found]

theorem locate_of_usable (last : Last) (ne_nil : p.text.toList ≠ [])
    (nul : Char.ofNat 0 ∉ p.text.toList) (short : byteLength p.text.toList ≤ maxPathLength) :
    t.locate last p = t.locateFrom last (fun _ => true) maxLinks (t.startOf p)
      (Path.segments p.text.toList) := by
  rw [locate, if_neg ne_nil, if_neg fun h => nul (List.contains_iff_mem.mp h),
    if_neg (Nat.not_lt.mpr short)]

/-- A path that leads nowhere by being too long or empty gives the error that it gives in any file
system. -/
theorem usable_of_locate {last : Last} {target : Target} (h : t.locate last p = .ok target) :
    p.text.toList ≠ [] ∧ Char.ofNat 0 ∉ p.text.toList ∧
      byteLength p.text.toList ≤ maxPathLength := by
  rw [locate] at h
  split at h
  · cases h
  · rename_i ne_nil
    split at h
    · cases h
    · rename_i nul
      split at h
      · cases h
      · rename_i short
        exact ⟨ne_nil, fun mem => nul (List.contains_iff_mem.mpr mem), Nat.not_lt.mp short⟩

theorem address_eq_ok_iff (links : t.LinkFree) :
    t.address p = .ok a ↔
      Leads t (fun _ => true) p a ∧ byteLength p.text.toList ≤ maxPathLength := by
  have located : t.address p = .ok a ↔ t.locate .follow p = .ok (.found a) := by
    unfold address
    split <;> simp_all
  rw [located]
  constructor
  · intro h
    obtain ⟨ne_nil, nul, short⟩ := usable_of_locate h
    rw [locate_of_usable .follow ne_nil nul short, locateFrom_follow_iff links] at h
    exact ⟨⟨ne_nil, nul, h.1, h.2⟩, short⟩
  · rintro ⟨leads, short⟩
    rw [locate_of_usable .follow leads.ne_nil leads.nul short, locateFrom_follow_iff links]
    exact ⟨leads.passes, leads.lands⟩

section Join

variable {q : Path}

theorem startOf_join (hp : p.text.toList ≠ []) (hq : q.isAbsolute = false) :
    t.startOf (p.join q) = t.startOf p := by
  rw [startOf, startOf, Path.isAbsolute_join hp hq]

theorem landing_join (hp : p.text.toList ≠ []) (hq : q.isAbsolute = false) :
    t.landing (p.join q) = (Path.segments q.text.toList).foldl descend (t.landing p) := by
  obtain ⟨front, -, joined, parts⟩ := Path.segments_join hp hq
  rw [landing, landing, startOf_join hp hq, joined, List.foldl_append]
  rcases parts with same | slashed
  · rw [same]
  · rw [slashed, List.foldl_append]
    rfl

theorem passes_join (hp : p.text.toList ≠ []) (hq : q.isAbsolute = false) :
    Passes t fits (t.startOf (p.join q)) (Path.segments (p.join q).text.toList) ↔
      Passes t fits (t.startOf p) (Path.segments p.text.toList) ∧
        Passes t fits (t.landing p) (Path.segments q.text.toList) := by
  obtain ⟨front, -, joined, parts⟩ := Path.segments_join hp hq
  rw [startOf_join hp hq, joined, passes_append, landing]
  rcases parts with same | slashed
  · rw [same]
  · obtain ⟨piece, rest, pieces⟩ := List.exists_cons_of_ne_nil (Path.segments_ne_nil q.text.toList)
    rw [slashed, passes_append, List.foldl_append, pieces]
    -- The empty piece asks for a directory, and so does the first piece of the second part.
    constructor
    · rintro ⟨passes, enters, later⟩
      exact ⟨⟨passes, ⟨enters.dir, fun busy => by cases busy⟩, trivial⟩, enters, later⟩
    · rintro ⟨⟨passes, -⟩, enters, later⟩
      exact ⟨passes, enters, later⟩

theorem notMem_join {c : Char} (hp : p.text.toList ≠ []) (hq : q.isAbsolute = false)
    (first : c ∉ p.text.toList) (second : c ∉ q.text.toList) (slash : c ≠ '/') :
    c ∉ (p.join q).text.toList := by
  rw [Path.toList_join hp hq]
  split <;> simp [first, second, slash]

theorem join_ne_nil (hp : p.text.toList ≠ []) (hq : q.isAbsolute = false) :
    (p.join q).text.toList ≠ [] := by
  rw [Path.toList_join hp hq]
  split <;> simp [hp]

end Join

/-- A name in a directory is led to by the path of the directory with the name. -/
theorem Leads.join {name : String} (h : Leads t fits p a) (dir : t.get? a = some .dir)
    (valid : ValidName name) (there : (t.get? (a ++ [name])).isSome) (fit : fits (a ++ [name])) :
    Leads t fits (p.join ⟨name⟩) (a ++ [name]) := by
  have relative := valid.not_isAbsolute
  have piece : Path.segments name.toList = [name.toList] := Path.segments_of_notMem valid.slash
  have goes := descend_of_valid valid (a := a)
  refine ⟨join_ne_nil h.ne_nil relative, notMem_join h.ne_nil relative h.nul valid.nul (by decide),
    (passes_join h.ne_nil relative).mpr ⟨h.passes, ?_⟩, ?_⟩
  · rw [piece, h.lands]
    exact ⟨⟨dir, fun _ _ => ⟨valid.short, goes ▸ fit, goes ▸ there⟩⟩, trivial⟩
  · rw [landing_join h.ne_nil relative, piece, h.lands]
    exact goes

end Leads

end FileTree

end ReflectGen
