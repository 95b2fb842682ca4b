import ReflectGen.Proofs.EnumerationOrder
import ReflectGen.Proofs.GrowingTree

namespace ReflectGen

namespace FileTree

open Text

section Write

variable {t t' : FileTree} {p : Path} {bytes : List UInt8}

theorem write_replaced {u : FileTree} (grown : Grows t u) (wf : t.WellFormed) (links : t.LinkFree)
    (h : u.write p bytes = (t', .ok ())) :
    ∃ out id, Replaced t t' out id bytes ∧ Leads t' (fun _ => true) p out ∧
      byteLength p.text.toList ≤ maxPathLength := by
  have clear := grown.linkFree links
  have wf' := grown.wellFormed wf
  rcases write_cases u p bytes with ⟨e, -, failed⟩ | ⟨v, id, node, taken, opened, -, took, answer⟩
  · rw [failed] at h
    cases h
  · rw [h] at took answer
    obtain ⟨-, rfl⟩ | ⟨failed, -⟩ := answer
    · -- Either way the file stands at a name in a directory, and no directory stands there.
      obtain ⟨target, located, openAt, wellFormed, linkFree⟩ :
          ∃ target, u.locate .create p = .ok target ∧ OpenAt u v target.address id ∧
            v.WellFormed ∧ v.LinkFree := by
        rcases openFile_cases opened with
          ⟨a, _, located, there, -, rfl⟩ | ⟨dir, name, located, rfl, rfl⟩
        · exact ⟨_, located, openAt_self there, wf', clear⟩
        · obtain ⟨nul, descends⟩ := descends_of_locate clear located
          obtain ⟨parent, absent, valid⟩ := descends.free (clean_segments nul)
          exact ⟨_, located, openAt_addFile absent _,
            wf'.addFile parent valid (by simp [absent]) _, clear.set (by simp) (by simp)⟩
      obtain ⟨ne_nil, nul, short⟩ := usable_of_locate located
      obtain ⟨-, descends⟩ := descends_of_locate clear located
      have there : t'.get? target.address = some (.file id) := by
        rw [took.get?_eq]
        exact openAt.entry
      have here : t'.startOf p = u.startOf p := by
        rw [startOf, startOf, took.here, openAt.here]
      obtain ⟨passes, lands⟩ := descends.written
        (fun b e found => (took.get?_eq b).trans (openAt.kept b e found)) (by rw [there]; rfl)
      refine ⟨target.address, id, grown.replaced wf openAt wellFormed linkFree took,
        ⟨ne_nil, nul, ?_, ?_⟩, short⟩
      · rw [here]
        exact passes
      · rw [landing, here]
        exact lands
    · cases failed

theorem replace_replaced (wf : t.WellFormed) (links : t.LinkFree) {outcome : WriteOutcome}
    (h : t.replace p bytes = (t', .ok outcome)) :
    ∃ out id, Replaced t t' out id bytes ∧ Leads t' (fun _ => true) p out ∧
      byteLength p.text.toList ≤ maxPathLength := by
  have grown : Grows t (p.parent?.elim (t, .ok ()) t.makeDirs).1 := by
    cases p.parent? with
    | none => exact .refl
    | some above => exact makeDirsUpTo_grows links _ above
  rw [replace] at h
  split at h
  rename_i u made elim
  rw [elim] at grown
  split at h
  · cases h
  · split at h
    · cases h
    · rename_i written
      cases h
      exact write_replaced grown wf links written

/-- A write that succeeds finds the contents in place, or puts them there. -/
theorem writeIfChanged_spec (wf : t.WellFormed) (links : t.LinkFree) {outcome : WriteOutcome}
    (h : t.writeIfChanged p bytes = (t', .ok outcome)) :
    t' = t ∧ outcome = .unchanged ∨
      ∃ out id, Replaced t t' out id bytes ∧ Leads t' (fun _ => true) p out ∧
        byteLength p.text.toList ≤ maxPathLength := by
  rw [writeIfChanged] at h
  split at h
  · cases h
    exact .inl ⟨rfl, rfl⟩
  · exact .inr (replace_replaced wf links h)

theorem writeIfChanged_of_read (h : t.read p = .ok bytes) :
    t.writeIfChanged p bytes = (t, .ok .unchanged) := by
  simp [writeIfChanged, isCurrent, h]

end Write

section Walk

variable {t t' : FileTree} {fuel : Nat} {above : List Opened} {dir : Opened} {name : String}

/-- What a walk without links meets under one name in a directory. -/
def visitName (t : FileTree) (fuel : Nat) (above : List Opened) (dir : Opened) (name : String) :
    List Found :=
  match t.get? (dir.address ++ [name]) with
  | some (.file _) =>
    if t.isRegular (dir.address ++ [name]) then [.file (dir.path.join ⟨name⟩)] else []
  | some .dir =>
    if maxPathLength < byteLength (dir.path.join ⟨name⟩).text.toList then
      [.failed (.entry (dir.path.join ⟨name⟩) .nameTooLong)]
    else t.walkFrom fuel (dir :: above) ⟨dir.path.join ⟨name⟩, dir.address ++ [name]⟩
  | _ => []

theorem walkFrom_succ (links : t.LinkFree) :
    t.walkFrom (fuel + 1) above dir =
      (t.names dir.address).flatMap (t.visitName fuel above dir) := by
  rw [walkFrom]
  congr 1
  funext name
  unfold visitName
  dsimp only
  cases found : t.get? (dir.address ++ [name]) with
  | none => rfl
  | some e =>
    cases e with
    | link target => exact absurd found (links _ target)
    | file id => rfl
    | dir => rfl

theorem visitName_file {id : Nat} (h : t.get? (dir.address ++ [name]) = some (.file id)) :
    t.visitName fuel above dir name =
      if t.isRegular (dir.address ++ [name]) then [.file (dir.path.join ⟨name⟩)] else [] := by
  simp [visitName, h]

theorem visitName_dir (h : t.get? (dir.address ++ [name]) = some .dir) :
    t.visitName fuel above dir name =
      if maxPathLength < byteLength (dir.path.join ⟨name⟩).text.toList then
        [.failed (.entry (dir.path.join ⟨name⟩) .nameTooLong)]
      else t.walkFrom fuel (dir :: above) ⟨dir.path.join ⟨name⟩, dir.address ++ [name]⟩ := by
  simp [visitName, h]

/-- The path of an open directory leads to its address. -/
structure Standing (t : FileTree) (dir : Opened) : Prop where
  ne_nil : dir.path.text.toList ≠ []
  lands : t.landing dir.path = dir.address

theorem Standing.landing_join (h : t.Standing dir) (valid : ValidName name) :
    t.landing (dir.path.join ⟨name⟩) = dir.address ++ [name] := by
  rw [FileTree.landing_join h.ne_nil valid.not_isAbsolute, h.lands,
    Path.segments_of_notMem valid.slash]
  exact descend_of_valid valid

theorem Standing.down (h : t.Standing dir) (valid : ValidName name) :
    t.Standing ⟨dir.path.join ⟨name⟩, dir.address ++ [name]⟩ :=
  ⟨join_ne_nil h.ne_nil valid.not_isAbsolute, h.landing_join valid⟩

/-- A walk of this depth meets all that stands below an address. -/
def Enough (t : FileTree) (depth : Nat) (a : Address) : Prop :=
  ∀ below, (t.get? (a ++ below)).isSome → below.length < depth

theorem Enough.down {a : Address} (h : t.Enough (fuel + 1) a) (name : String) :
    t.Enough fuel (a ++ [name]) := by
  intro below there
  rw [List.append_assoc] at there
  have less := h _ there
  rw [List.length_append, List.length_singleton] at less
  omega

theorem not_enough_zero {a : Address} (there : (t.get? a).isSome) : ¬t.Enough 0 a := by
  intro enough
  have less := enough [] (by rw [List.append_nil]; exact there)
  cases less

theorem enough_maxDepth (wf : t.WellFormed) (a : Address) : t.Enough t.maxDepth a := by
  intro below there
  have bound := wf.length_le there
  rw [List.length_append] at bound
  have shallow : below.length < t.entries.length + 2 := by omega
  exact Nat.lt_of_lt_of_le shallow (Nat.le_mul_self _)

/-- The path of a file that does not lead to `out`. -/
def otherFile (t : FileTree) (out : Address) (f : Found) : Option Path :=
  f.file?.filter fun p => t.landing p ≠ out

theorem visitName_output {u : FileTree} {out : Address} {id : Nat}
    (standing : t.Standing dir) (valid : ValidName name) (same : dir.address ++ [name] = out)
    (file : u.get? out = some (.file id)) :
    (u.visitName fuel above dir name).filterMap (t.otherFile out) = [] := by
  subst same
  rw [visitName_file file]
  split
  · simp [otherFile, Found.file?, Option.filter, standing.landing_join valid]
  · rfl

theorem flatMap_filter {α β : Type} {l : List α} {keep : α → Bool} {g : α → List β}
    (h : ∀ x ∈ l, keep x = false → g x = []) : (l.filter keep).flatMap g = l.flatMap g := by
  induction l with
  | nil => rfl
  | cons x l ih =>
    have later := ih fun y hy => h y (List.mem_cons_of_mem x hy)
    cases kept : keep x with
    | true => rw [List.filter_cons_of_pos kept, List.flatMap_cons, List.flatMap_cons, later]
    | false =>
      rw [List.filter_cons_of_neg (by simp [kept]), List.flatMap_cons, later,
        h x List.mem_cons_self kept, List.nil_append]

namespace Replaced

variable {out : Address} {id : Nat} {bytes : List UInt8}

theorem landing_eq (h : Replaced t t' out id bytes) : t'.landing = t.landing := by
  funext p
  rw [landing, landing, startOf, startOf, h.here]

/-- At a new name that is not the output's stands a directory, with nothing to show for it if the
same holds further down. -/
theorem visitName_new (h : Replaced t t' out id bytes) (standing : t.Standing dir)
    (listed : name ∈ t'.names dir.address) (ne : dir.address ++ [name] ≠ out)
    (fresh : t.get? (dir.address ++ [name]) = none)
    (deeper : ∀ {above : List Opened} {dir : Opened}, t.Standing dir →
      t.get? dir.address = none → (t'.walkFrom fuel above dir).filterMap (t.otherFile out) = []) :
    (t'.visitName fuel above dir name).filterMap (t.otherFile out) = [] := by
  have there := isSome_of_mem_names listed
  rcases h.added _ ne fresh with gone | made
  · rw [gone] at there
    cases there
  · rw [visitName_dir made]
    split
    · rfl
    · exact deeper (standing.down (h.wellFormed.named _ _ there)) fresh

/-- No file but the output stands in a directory that is new. -/
theorem walkFrom_new (h : Replaced t t' out id bytes) (wf : t.WellFormed)
    (standing : t.Standing dir) (absent : t.get? dir.address = none) :
    (t'.walkFrom fuel above dir).filterMap (t.otherFile out) = [] := by
  induction fuel generalizing above dir with
  | zero => rfl
  | succ fuel ih =>
    rw [walkFrom_succ h.linkFree, List.filterMap_flatMap, List.flatMap_eq_nil_iff]
    intro name listed
    by_cases same : dir.address ++ [name] = out
    · have valid := h.wellFormed.named _ _ (isSome_of_mem_names listed)
      exact visitName_output standing valid same h.written
    · -- Below a new directory all is new.
      have fresh : t.get? (dir.address ++ [name]) = none := by
        cases old : t.get? (dir.address ++ [name]) with
        | none => rfl
        | some e =>
          have parent := wf.parents _ _ (by rw [old]; rfl)
          rw [absent] at parent
          cases parent
      exact h.visitName_new standing listed same fresh ih

/-- Apart from the output, a walk meets the same files in the same order. -/
theorem walkFrom_other (h : Replaced t t' out id bytes) (wf : t.WellFormed) (links : t.LinkFree)
    {fuel' : Nat} (inside : t.get? dir.address = some .dir) (standing : t.Standing dir)
    (enough : t.Enough fuel dir.address) (enough' : t'.Enough fuel' dir.address) :
    (t'.walkFrom fuel' above dir).filterMap (t.otherFile out) =
      (t.walkFrom fuel above dir).filterMap (t.otherFile out) := by
  induction fuel generalizing fuel' above dir with
  | zero => exact absurd enough (not_enough_zero (by rw [inside]; rfl))
  | succ fuel ih =>
    have inside' := h.kept _ _ inside
    cases fuel' with
    | zero => exact absurd enough' (not_enough_zero (by rw [inside']; rfl))
    | succ fuel' =>
      obtain ⟨new, names, fresh⟩ := h.names dir.address
      have others {n : String} {ns : List String}
          (hn : n ∈ ns.filter fun n => dir.address ++ [n] ≠ out) :
          n ∈ ns ∧ dir.address ++ [n] ≠ out := by
        simpa using hn
      rw [walkFrom_succ h.linkFree, walkFrom_succ links, List.filterMap_flatMap,
        List.filterMap_flatMap]
      -- The name of the output is left out first, then the new directories.
      calc
        (t'.names dir.address).flatMap
            (fun n => (t'.visitName fuel' above dir n).filterMap (t.otherFile out)) =
          ((t'.names dir.address).filter (fun n => dir.address ++ [n] ≠ out)).flatMap
            fun n => (t'.visitName fuel' above dir n).filterMap (t.otherFile out) := by
          refine (flatMap_filter fun n listed same => ?_).symm
          have valid := h.wellFormed.named _ _ (isSome_of_mem_names listed)
          exact visitName_output standing valid (by simpa using same) h.written
        _ = ((t.names dir.address).filter (fun n => dir.address ++ [n] ≠ out)).flatMap
            fun n => (t'.visitName fuel' above dir n).filterMap (t.otherFile out) := by
          rw [names, List.flatMap_append, List.flatMap_eq_nil_iff.mpr, List.nil_append]
          intro n hn
          have mem := List.mem_append_left
            ((t.names dir.address).filter fun n => dir.address ++ [n] ≠ out) hn
          rw [← names] at mem
          exact h.visitName_new standing (others mem).1 (others mem).2 (fresh n hn)
            (h.walkFrom_new wf)
        _ = ((t.names dir.address).filter (fun n => dir.address ++ [n] ≠ out)).flatMap
            fun n => (t.visitName fuel above dir n).filterMap (t.otherFile out) := by
          apply List.flatMap_congr
          intro n hn
          have there := isSome_of_mem_names (others hn).1
          obtain ⟨e, found⟩ := Option.isSome_iff_exists.mp there
          have found' := h.kept _ _ found
          cases e with
          | link target => exact absurd found (links _ target)
          | file i => rw [visitName_file found, visitName_file found', h.regular _ _ found]
          | dir =>
            rw [visitName_dir found, visitName_dir found']
            split
            · rfl
            · exact ih found (standing.down (wf.named _ _ there)) (enough.down n) (enough'.down n)
        _ = (t.names dir.address).flatMap
            fun n => (t.visitName fuel above dir n).filterMap (t.otherFile out) := by
          refine flatMap_filter fun n listed same => ?_
          have same : dir.address ++ [n] = out := by simpa using same
          have there := isSome_of_mem_names listed
          have valid := wf.named _ _ there
          obtain ⟨e, found⟩ := Option.isSome_iff_exists.mp there
          rw [same] at found
          cases e with
          | link target => exact absurd found (links _ target)
          | file i => exact visitName_output standing valid same found
          | dir => exact absurd found h.notDir

end Replaced

/-- A file that a walk meets has the path that the walk took to it. -/
theorem file_of_mem_walkFrom (wf : t.WellFormed) (links : t.LinkFree) {p : Path}
    (inside : t.get? dir.address = some .dir) (standing : t.Standing dir)
    (h : .file p ∈ t.walkFrom fuel above dir) :
    ∃ a id, t.get? a = some (.file id) ∧ dir.address <+: a ∧ t.landing p = a ∧
      p.fileName? = a.getLast? ∧
      ∀ fits : Address → Bool, (∀ b, b <+: a → fits b) → Leads t fits dir.path dir.address →
        Leads t fits p a := by
  induction fuel generalizing above dir with
  | zero => cases h
  | succ fuel ih =>
    rw [walkFrom_succ links, List.mem_flatMap] at h
    obtain ⟨name, listed, h⟩ := h
    have there := isSome_of_mem_names listed
    have valid := wf.named _ _ there
    obtain ⟨e, found⟩ := Option.isSome_iff_exists.mp there
    have down (fits : Address → Bool) (fit : fits (dir.address ++ [name]))
        (leads : Leads t fits dir.path dir.address) :
        Leads t fits (dir.path.join ⟨name⟩) (dir.address ++ [name]) :=
      leads.join inside valid there fit
    cases e with
    | link target => exact absurd found (links _ target)
    | file id =>
      rw [visitName_file found, List.mem_ite_nil_right, List.mem_singleton] at h
      cases h.2
      refine ⟨_, id, found, List.prefix_append _ _, standing.landing_join valid, ?_, ?_⟩
      · rw [fileName?_join standing.ne_nil valid]
        simp
      · intro fits fit leads
        exact down fits (fit _ (List.prefix_refl _)) leads
    | dir =>
      rw [visitName_dir found] at h
      split at h
      · simp at h
      · obtain ⟨a, id, file, above, lands, last, leads⟩ := ih found (standing.down valid) h
        refine ⟨a, id, file, (List.prefix_append _ _).trans above, lands, last, ?_⟩
        intro fits fit first
        exact leads fits fit (down fits (fit _ above) first)

end Walk

section Prefix

variable {t t' : FileTree} {fits : Address → Bool} {a b out : Address} {id : Nat}
  {bytes : List UInt8} {pieces : List (List Char)}

theorem writtenLength_append (a b : Address) :
    writtenLength (a ++ b) = writtenLength a + writtenLength b := by
  induction a with
  | nil => simp [writtenLength]
  | cons name a ih =>
    rw [List.cons_append, writtenLength, ih, writtenLength]
    omega

theorem fitsWritten_of_prefix (h : b <+: a) (fit : fitsWritten a) : fitsWritten b := by
  obtain ⟨rest, rfl⟩ := h
  rw [fitsWritten, decide_eq_true_eq] at fit ⊢
  rw [writtenLength_append] at fit
  omega

theorem prefix_descend {piece : List Char} (h : piece ≠ ['.', '.']) : a <+: descend a piece := by
  unfold descend
  split
  · exact List.prefix_refl a
  · exact List.prefix_append a _

theorem fits_of_passes (h : ['.', '.'] ∉ pieces) (passes : Passes t fits a pieces) :
    pieces.foldl descend a = a ∨ fits (pieces.foldl descend a) := by
  induction pieces generalizing a with
  | nil => exact .inl rfl
  | cons piece rest ih =>
    rw [List.mem_cons, not_or] at h
    obtain ⟨enters, later⟩ := passes
    rw [List.foldl_cons]
    cases idle : Path.isIdle piece with
    | true =>
      have stays : descend a piece = a := if_pos idle
      rw [stays] at later ⊢
      exact ih h.2 later
    | false =>
      have fit := (enters.named idle (Ne.symm h.1)).2.1
      rcases ih h.2 later with same | fit'
      · rw [same]
        exact .inr fit
      · exact .inr fit'

namespace Replaced

theorem passes (h : Replaced t t' out id bytes) (passes : Passes t fits a pieces) :
    Passes t' fits a pieces := by
  induction pieces generalizing a with
  | nil => trivial
  | cons piece rest ih =>
    obtain ⟨⟨dir, named⟩, later⟩ := passes
    refine ⟨⟨h.kept _ _ dir, fun busy up => ?_⟩, ih later⟩
    obtain ⟨short, fit, there⟩ := named busy up
    obtain ⟨e, found⟩ := Option.isSome_iff_exists.mp there
    refine ⟨short, fit, ?_⟩
    rw [h.kept _ _ found]
    rfl

theorem leads (h : Replaced t t' out id bytes) {p : Path} (leads : Leads t fits p a) :
    Leads t' fits p a := by
  refine ⟨leads.ne_nil, leads.nul, ?_, by rw [h.landing_eq, leads.lands]⟩
  rw [startOf, h.here]
  exact h.passes leads.passes

/-- If the output was there before, the path to it could be taken before. -/
theorem passes_before (h : Replaced t t' out id bytes) (wf : t.WellFormed)
    (there : (t.get? out).isSome) (noUp : ['.', '.'] ∉ pieces)
    (lands : pieces.foldl descend a = out) (passes : Passes t' fits a pieces) :
    Passes t fits a pieces := by
  induction pieces generalizing a with
  | nil => trivial
  | cons piece rest ih =>
    rw [List.mem_cons, not_or] at noUp
    obtain ⟨⟨dir, named⟩, later⟩ := passes
    rw [List.foldl_cons] at lands
    have before {b : Address} (hb : b <+: out) : b = out ∨ t.get? b = some .dir := by
      obtain ⟨below, rfl⟩ := hb
      by_cases empty : below = []
      · exact .inl (by rw [empty, List.append_nil])
      · exact .inr (wf.dir_of_append empty there)
    have onWay : descend a piece <+: out := by
      rw [← lands, foldl_descend noUp.2]
      exact List.prefix_append _ _
    refine ⟨⟨?_, fun busy up => ?_⟩, ih noUp.2 lands later⟩
    · rcases before ((prefix_descend (Ne.symm noUp.1)).trans onWay) with rfl | dir'
      · rw [h.written] at dir
        cases dir
      · exact dir'
    · obtain ⟨short, fit, -⟩ := named busy up
      refine ⟨short, fit, ?_⟩
      rcases before onWay with same | dir'
      · rw [same]
        exact there
      · rw [dir']
        rfl

end Replaced

end Prefix

theorem read_of_leads {t : FileTree} {p : Path} {a : Address} {id : Nat} (links : t.LinkFree)
    (leads : Leads t (fun _ => true) p a) (file : t.get? a = some (.file id)) :
    t.read p =
      if byteLength p.text.toList ≤ maxPathLength then
        (t.files[id]?).elim (.error .isDirectory) FileNode.read
      else .error .nameTooLong := by
  split
  · rename_i short
    have address := (address_eq_ok_iff links).mpr ⟨leads, short⟩
    simp only [read, address, node?, file]
    cases t.files[id]? <;> rfl
  · rename_i long
    have located : t.locate .follow p = .error .nameTooLong := by
      rw [locate, if_neg leads.ne_nil, if_neg fun h => leads.nul (List.contains_iff_mem.mp h),
        if_pos (Nat.not_le.mp long)]
    simp [read, address, located]

/-- A path that leads somewhere leads there through addresses that can be written out, if it has a
canonical address at all. -/
theorem Leads.written_of_canonical? {t : FileTree} {fits : Address → Bool} {p : Path} {a : Address}
    (h : Leads t fits p a) (links : t.LinkFree) (known : (t.canonical? p).isSome) :
    Leads t fitsWritten p a := by
  obtain ⟨b, canonical⟩ := Option.isSome_iff_exists.mp known
  have leads := (canonical?_eq_some_iff links).mp canonical
  have same : b = a := leads.lands.symm.trans h.lands
  exact same ▸ leads

end FileTree

end ReflectGen
