import ReflectGen.Proofs.LinkedPaths
import ReflectGen.Proofs.SecondRun

namespace ReflectGen

namespace FileTree

open Text

section Joined

variable {t : FileTree} {last : Last} {fits : Address → Bool} {links : Nat} {a b : Address}
variable {piece : List Char} {more front : List (List Char)}

/-- An empty piece before another one makes no difference, if it makes none behind a link. -/
theorem advance_empty {resume : Address → Path → List (List Char) → Except FileError Target}
    (resumes : ∀ a link front,
      resume a link (front ++ [] :: piece :: more) = resume a link (front ++ piece :: more)) :
    t.advance last fits resume a (front ++ [] :: piece :: more) =
      t.advance last fits resume a (front ++ piece :: more) := by
  induction front generalizing a with
  | nil =>
    by_cases dir : t.get? a = some .dir
    · exact advance_moves dir (.inl rfl)
    · simp [advance, dir]
  | cons first front ih => simp [advance, ih, resumes]

theorem locateFrom_empty :
    t.locateFrom last fits links a (front ++ [] :: piece :: more) =
      t.locateFrom last fits links a (front ++ piece :: more) := by
  induction links generalizing a front with
  | zero => exact advance_empty fun _ _ _ => rfl
  | succ links ih =>
    apply advance_empty
    intro a link front
    rw [← List.append_assoc, ← List.append_assoc, ih]

/-- The pieces of a joined path are taken like those of its two parts. -/
theorem locateFrom_join {p q : Path} (hp : p.text.toList ≠ []) (hq : q.isAbsolute = false) :
    t.locateFrom last fits links a (Path.segments (p.join q).text.toList) =
      t.locateFrom last fits links a
        (Path.segments p.text.toList ++ Path.segments q.text.toList) := by
  obtain ⟨front, -, joined, parts⟩ := Path.segments_join hp hq
  obtain ⟨piece, more, pieces⟩ := List.exists_cons_of_ne_nil (Path.segments_ne_nil q.text.toList)
  rcases parts with same | slashed
  · rw [joined, same]
  · rw [joined, slashed, List.append_assoc, List.singleton_append, pieces, locateFrom_empty]

/-- The way through the first pieces of a path is gone in the same way whatever comes behind them,
and leaves a number of links to go through. -/
theorem Reaches.exists_left (h : Reaches t .follow fits links a front (.found b)) :
    ∃ left, ∀ last rest, last ≠ .create → rest ≠ [] →
      t.locateFrom last fits links a (front ++ rest) = t.locateFrom last fits left b rest := by
  generalize found : Target.found b = target at h
  -- Behind the last piece more pieces come, so a link there is followed however the path is taken.
  induction h with
  | arrives links a =>
    cases found
    exact ⟨links, fun _ _ _ _ => rfl⟩
  | moves dir idle _ ih =>
    obtain ⟨left, same⟩ := ih found
    refine ⟨left, fun last rest reads some => ?_⟩
    rw [List.cons_append, locateFrom_moves dir idle, same last rest reads some]
  | frees => cases found
  | enters asks there plain _ ih =>
    obtain ⟨left, same⟩ := ih found
    refine ⟨left, fun last rest reads some => ?_⟩
    rw [List.cons_append, locateFrom_enters reads asks there plain, same last rest reads some]
  | follows asks there text _ ih =>
    obtain ⟨left, same⟩ := ih found
    refine ⟨left, fun last rest reads some => ?_⟩
    rw [List.cons_append, locateFrom_follows reads (by simp [some]) asks there text,
      ← List.append_assoc, same last rest reads some]

theorem Reaches.mono {fits' : Address → Bool} {target : Target}
    (h : Reaches t last fits links a front target) (weaker : ∀ b, fits b → fits' b) :
    Reaches t last fits' links a front target := by
  have asks {a : Address} {piece : List Char} (h : Asks t fits a piece) : Asks t fits' a piece :=
    { h with fit := weaker _ h.fit }
  induction h with
  | arrives links a => exact .arrives links a
  | moves dir idle _ ih => exact .moves dir idle ih
  | frees h absent slashes bare => exact .frees (asks h) absent slashes bare
  | enters h there plain _ ih => exact .enters (asks h) there plain ih
  | follows h there text _ ih => exact .follows (asks h) there text ih

end Joined

/-- A path leads to an address through links. How long the path is does not matter. -/
structure Arrives (t : FileTree) (p : Path) (a : Address) : Prop where
  ne_nil : p.text.toList ≠ []
  located : t.locateFrom .follow (fun _ => true) maxLinks (t.startOf p)
    (Path.segments p.text.toList) = .ok (.found a)

section Arrives

variable {t : FileTree} {p : Path} {a b : Address} {name : String} {e : FileEntry}

theorem ValidName.asks (valid : ValidName name) (dir : t.get? a = some .dir) :
    Asks t (fun _ => true) a name.toList :=
  ⟨dir, valid.busy, valid.notUp, valid.short, rfl⟩

theorem arrives_of_address (h : t.address p = .ok a) : Arrives t p a := by
  have located := locate_of_address h
  obtain ⟨ne_nil, nul, short⟩ := usable_of_locate located
  rw [locate_of_usable .follow ne_nil nul short] at located
  exact ⟨ne_nil, located⟩

theorem arrives_of_canonical? (h : t.canonical? p = some a) : Arrives t p a := by
  rw [canonical?] at h
  split at h
  · cases h
  · rename_i usable
    split at h
    · rename_i located
      cases h
      have reaches : Reaches t .follow (fun _ => true) maxLinks (t.startOf p)
          (Path.segments p.text.toList) (.found a) :=
        (reaches_of_locateFrom (by simp) located).mono fun _ _ => rfl
      exact ⟨(not_or.mp usable).1, reaches.locateFrom_eq (.refl t) taken_found⟩
    · cases h

namespace Arrives

theorem unique (h : Arrives t p a) (k : Arrives t p b) : a = b := by
  have same := h.located.symm.trans k.located
  cases same
  rfl

/-- A name in a directory is looked up behind the path of the directory, through the links that are
left. -/
theorem exists_left (h : Arrives t p a) (valid : ValidName name) :
    ∃ left, ∀ last, last ≠ .create →
      t.locateFrom last (fun _ => true) maxLinks (t.startOf (p.join ⟨name⟩))
          (Path.segments (p.join ⟨name⟩).text.toList) =
        t.locateFrom last (fun _ => true) left a [name.toList] := by
  have relative := valid.not_isAbsolute
  obtain ⟨left, same⟩ := (reaches_of_locateFrom (by simp) h.located).exists_left
  refine ⟨left, fun last reads => ?_⟩
  rw [startOf_join h.ne_nil relative, locateFrom_join h.ne_nil relative,
    Path.segments_of_notMem valid.slash]
  exact same last [name.toList] reads (by simp)

theorem join (h : Arrives t p a) (valid : ValidName name) (dir : t.get? a = some .dir)
    (there : t.get? (a ++ [name]) = some e) (plain : ∀ link, e ≠ .link link) :
    Arrives t (p.join ⟨name⟩) (a ++ [name]) := by
  obtain ⟨left, same⟩ := h.exists_left valid
  refine ⟨join_ne_nil h.ne_nil valid.not_isAbsolute, ?_⟩
  rw [← descend_of_valid valid] at there ⊢
  rw [same .follow (by decide), locateFrom_enters (by decide) (valid.asks dir) there plain,
    locateFrom_nil]

end Arrives

end Arrives

/-- The path of an open directory with the name of an entry in it. -/
structure Listed (t : FileTree) (p : Path) (dir : Opened) (name : String) : Prop where
  path : p = dir.path.join ⟨name⟩
  arrives : Arrives t dir.path dir.address
  inside : t.get? dir.address = some .dir
  valid : ValidName name

/-- The path ends at a link, which leads on. -/
def EndsAtLink (t : FileTree) (p : Path) : Prop :=
  ∃ a link, t.locate .keep p = .ok (.found a) ∧ t.get? a = some (.link link)

/-- How a walk meets a file: under its own name, or under that of a link. -/
inductive Met (t : FileTree) (p : Path) : Prop
  | itself {dir name id} (listed : Listed t p dir name)
      (there : t.get? (dir.address ++ [name]) = some (.file id))
  | through {dir name link a} (listed : Listed t p dir name)
      (there : t.get? (dir.address ++ [name]) = some (.link link)) (leads : t.address p = .ok a)

section Met

variable {t : FileTree} {p : Path} {dir : Opened} {name : String} {a out : Address}

theorem Listed.fileName? (h : Listed t p dir name) : p.fileName? = some name := by
  rw [h.path]
  exact fileName?_join h.arrives.ne_nil h.valid

theorem Listed.endsAtLink (h : Listed t p dir name) {link : Path}
    (there : t.get? (dir.address ++ [name]) = some (.link link)) (leads : t.address p = .ok a) :
    EndsAtLink t p := by
  obtain ⟨ne_nil, nul, short⟩ := usable_of_locate (locate_of_address leads)
  obtain ⟨left, same⟩ := h.arrives.exists_left h.valid
  obtain ⟨resume, here⟩ := exists_locateFrom_eq t .keep (fun _ => true) left
  refine ⟨dir.address ++ [name], link, ?_, there⟩
  rw [← descend_of_valid h.valid] at there ⊢
  rw [locate_of_usable .keep ne_nil nul short, h.path, same .keep (by decide), here,
    advance_link (h.valid.asks h.inside) there]
  simp

/-- A file that is met under a name other than its own is met through a link. -/
theorem Met.fileName?_or_endsAtLink (h : Met t p) (leads : t.canonical? p = some out) :
    p.fileName? = out.getLast? ∨ EndsAtLink t p := by
  cases h with
  | itself listed there =>
    have itself := listed.arrives.join listed.valid listed.inside there (by simp)
    rw [← listed.path] at itself
    left
    rw [listed.fileName?, (arrives_of_canonical? leads).unique itself, List.getLast?_concat]
  | through listed there address => exact .inr (listed.endsAtLink there address)

/-- A walk goes on from directories that the paths so far lead to, so every file that it meets
stands in such a directory, itself or by a link. -/
theorem met_of_mem_walkFrom (wf : t.WellFormed) {fuel : Nat} {above : List Opened}
    (arrives : Arrives t dir.path dir.address) (h : .file p ∈ t.walkFrom fuel above dir) :
    Met t p := by
  induction fuel generalizing above dir with
  | zero => cases h
  | succ fuel ih =>
    rw [walkFrom, List.mem_flatMap] at h
    obtain ⟨name, listed, h⟩ := h
    have there := isSome_of_mem_names listed
    have valid := wf.named _ _ there
    have inside := wf.parents _ _ there
    obtain ⟨e, found⟩ := Option.isSome_iff_exists.mp there
    cases e with
    | file id =>
      simp only [found, List.mem_ite_nil_right, List.mem_singleton] at h
      cases h.2
      exact .itself ⟨rfl, arrives, inside, valid⟩ found
    | dir =>
      simp only [found] at h
      split at h
      · simp at h
      · refine ih ?_ h
        exact arrives.join valid inside found (by simp)
    | link link =>
      simp only [found] at h
      split at h
      · simp at h
      · rename_i target leads
        split at h
        · split at h
          · simp at h
          · refine ih ?_ h
            exact arrives_of_address leads
        · simp only [List.mem_ite_nil_right, List.mem_singleton] at h
          cases h.2
          exact .through ⟨rfl, arrives, inside, valid⟩ found leads

theorem met_of_mem_walk (wf : t.WellFormed) {root : Path} (h : .file p ∈ t.walk root) :
    Met t p := by
  rw [walk, address?] at h
  cases leads : t.address root with
  | error e => simp [leads, Except.toOption] at h
  | ok a =>
    simp only [leads, Except.toOption] at h
    refine met_of_mem_walkFrom wf ?_ h
    exact arrives_of_address leads

end Met

end FileTree

namespace Project

open FileTree (EndsAtLink)

section Discovered

variable {t : FileTree} {o : Options} {p : Path} {out : Address}

theorem isOutput_some_iff :
    isOutput t (some out) p ↔ p.fileName? = out.getLast? ∧ t.canonical? p = some out := by
  simp [isOutput]

theorem mem_inputs_iff {found : List FileTree.Found} :
    p ∈ inputs t o found ↔ .file p ∈ found ∧ isInput t o p := by
  rw [inputs_eq, List.mem_mergeSort, List.mem_filter, List.mem_filterMap]
  refine and_congr_left fun _ => ⟨?_, fun mem => ⟨_, mem, rfl⟩⟩
  rintro ⟨f, mem, file⟩
  exact FileTree.Found.eq_of_file? file ▸ mem

theorem inputs_of_discover {files : List Path} (h : discover t o = .ok files) :
    files = inputs t o (t.walk o.root) := by
  rw [discover, survey] at h
  split at h
  · cases h
    rfl
  · cases h

/-- A path that a walk meets is taken for the output just where it leads to the output, unless it
ends at a link of another name. Of the paths that lead to the output just these are scanned, where
their names are those of sources. -/
theorem output_known_but_for_renaming_links (wf : t.WellFormed)
    (output : t.canonical? o.outputPath = some out) :
    (∀ p, .file p ∈ t.walk o.root →
      (isOutput t (some out) p ↔
        t.canonical? p = some out ∧ (EndsAtLink t p → p.fileName? = out.getLast?))) ∧
      ∀ files, discover t o = .ok files → ∀ p,
        (p ∈ files ∧ t.canonical? p = some out ↔
          .file p ∈ t.walk o.root ∧ t.canonical? p = some out ∧ isCandidate o p ∧
            EndsAtLink t p ∧ p.fileName? ≠ out.getLast?) := by
  have known : ∀ p, .file p ∈ t.walk o.root →
      (isOutput t (some out) p ↔
        t.canonical? p = some out ∧ (EndsAtLink t p → p.fileName? = out.getLast?)) := by
    intro p walked
    rw [isOutput_some_iff]
    constructor
    · rintro ⟨name, leads⟩
      exact ⟨leads, fun _ => name⟩
    · rintro ⟨leads, name⟩
      refine ⟨?_, leads⟩
      rcases (FileTree.met_of_mem_walk wf walked).fileName?_or_endsAtLink leads with same | link
      · exact same
      · exact name link
  refine ⟨known, fun files found p => ?_⟩
  rw [inputs_of_discover found, mem_inputs_iff, isInput_eq, output, Bool.and_eq_true,
    Bool.not_eq_true', ← Bool.not_eq_true]
  constructor
  · rintro ⟨⟨walked, other, candidate⟩, leads⟩
    rw [known p walked] at other
    have renamed : ¬(EndsAtLink t p → p.fileName? = out.getLast?) := fun same => other ⟨leads, same⟩
    exact ⟨walked, leads, candidate, Classical.not_imp.mp renamed⟩
  · rintro ⟨walked, leads, candidate, link, renamed⟩
    refine ⟨⟨walked, ?_, candidate⟩, leads⟩
    rw [known p walked]
    exact fun same => renamed (same.2 link)

end Discovered

section Renamed

/-- A file outside of the project. -/
def outsideTree : FileTree :=
  ((({} : FileTree).set ["q"] .dir).addFile ["q", "r.cpp"] ⟨.stored [], {}⟩).set ["p"] .dir

/-- Three ways to the file: a link to its directory, a link of its name and one of another name. -/
def renamedTree : FileTree :=
  ((outsideTree.set ["p", "d"] (.link ⟨"../q"⟩)).set ["p", "r.cpp"] (.link ⟨"../q/r.cpp"⟩)).set
    ["p", "o.cpp"] (.link ⟨"../q/r.cpp"⟩)

/-- The output is given by the link of another name. -/
def renamedOptions : Options := { root := ⟨"/p"⟩, output := ⟨"o.cpp"⟩ }

theorem wellFormed_outsideTree : outsideTree.WellFormed := by
  have directory : (({} : FileTree).set ([] ++ ["q"]) .dir).WellFormed :=
    FileTree.wellFormed_empty.set rfl (by decide) (fun _ => rfl) (by simp)
  have file : ((({} : FileTree).set ["q"] .dir).addFile (["q"] ++ ["r.cpp"])
      ⟨.stored [], {}⟩).WellFormed :=
    directory.addFile (by decide) (by decide) (by decide) _
  exact file.set (a := []) rfl (by decide) (fun _ => rfl) (by simp)

theorem wellFormed_renamedTree : renamedTree.WellFormed := by
  have directory : (outsideTree.set (["p"] ++ ["d"]) (.link ⟨"../q"⟩)).WellFormed :=
    wellFormed_outsideTree.set (by decide) (by decide) (by decide) (by simp)
  have sameName : ((outsideTree.set ["p", "d"] (.link ⟨"../q"⟩)).set (["p"] ++ ["r.cpp"])
      (.link ⟨"../q/r.cpp"⟩)).WellFormed :=
    directory.set (by decide) (by decide) (by decide) (by simp)
  exact sameName.set (a := ["p"]) (by decide) (by decide) (by decide) (by simp)

theorem discover_renamedTree : discover renamedTree renamedOptions = .ok [⟨"/p/o.cpp"⟩] := by
  have files : ((renamedTree.walk ⟨"/p"⟩).filterMap FileTree.Found.file?).filter
      (isInput renamedTree renamedOptions) = [⟨"/p/o.cpp"⟩] := by
    decide +kernel
  have scanned : inputs renamedTree renamedOptions (renamedTree.walk ⟨"/p"⟩) = [⟨"/p/o.cpp"⟩] := by
    rw [inputs_eq, files, List.mergeSort_singleton]
  have dir : renamedTree.isDir renamedOptions.root := by decide +kernel
  rw [discover_of_isDir dir]
  exact congrArg Except.ok scanned

/-- The path that is given for the output is scanned, though it leads to the output. -/
theorem renamed_output_is_scanned :
    renamedTree.WellFormed ∧
      renamedTree.canonical? renamedOptions.outputPath = some ["q", "r.cpp"] ∧
      .file ⟨"/p/o.cpp"⟩ ∈ renamedTree.walk renamedOptions.root ∧
      renamedTree.canonical? ⟨"/p/o.cpp"⟩ = some ["q", "r.cpp"] ∧
      isOutput renamedTree (some ["q", "r.cpp"]) ⟨"/p/o.cpp"⟩ = false ∧
      discover renamedTree renamedOptions = .ok [⟨"/p/o.cpp"⟩] := by
  refine ⟨wellFormed_renamedTree, ?_, ?_, ?_, ?_, discover_renamedTree⟩ <;> decide +kernel

/-- The output is known under its own name, behind a link and through one; the link of another name
is the only way to it that is scanned. -/
theorem renamedTree_output_known :
    renamedTree.canonical? renamedOptions.outputPath = some ["q", "r.cpp"] ∧
      isOutput renamedTree (some ["q", "r.cpp"]) ⟨"/p/d/r.cpp"⟩ ∧
      isOutput renamedTree (some ["q", "r.cpp"]) ⟨"/p/r.cpp"⟩ ∧
      EndsAtLink renamedTree ⟨"/p/o.cpp"⟩ := by
  have output : renamedTree.canonical? renamedOptions.outputPath = some ["q", "r.cpp"] := by
    decide +kernel
  obtain ⟨known, scanned⟩ :=
    output_known_but_for_renaming_links wellFormed_renamedTree output
  have behind := known ⟨"/p/d/r.cpp"⟩ (by decide +kernel)
  have through := known ⟨"/p/r.cpp"⟩ (by decide +kernel)
  have missed := scanned _ discover_renamedTree ⟨"/p/o.cpp"⟩
  refine ⟨output, behind.mpr ⟨?_, fun _ => ?_⟩, through.mpr ⟨?_, fun _ => ?_⟩,
    (missed.mp ⟨List.mem_singleton_self _, ?_⟩).2.2.2.1⟩ <;> decide +kernel

end Renamed

end Project

end ReflectGen
