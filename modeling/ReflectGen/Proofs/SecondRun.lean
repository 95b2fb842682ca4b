import ReflectGen.Proofs.WrittenTree

namespace ReflectGen

namespace Project

open FileTree (Found Leads Passes Replaced fitsWritten)

section Inputs

variable {u : FileTree} {o : Options} {r out : Address}

/-- A walked file leads to the output just if it is taken for it. -/
theorem isOutput_eq (links : u.LinkFree) (lands : u.landing o.outputPath = out) {p : Path}
    (excluded : u.landing p = out → Leads u fitsWritten o.outputPath out ∧
      Leads u fitsWritten p out ∧ p.fileName? = out.getLast?) :
    isOutput u (u.canonical? o.outputPath) p = decide (u.landing p = out) := by
  rw [Bool.eq_iff_iff, decide_eq_true_eq]
  constructor
  · intro taken
    cases output : u.canonical? o.outputPath with
    | none => simp [isOutput, output] at taken
    | some x =>
      have atOutput := ((FileTree.canonical?_eq_some_iff links).mp output).lands
      have path : u.canonical? p = some x := by
        simp only [isOutput, output, Option.any_some, Bool.and_eq_true, beq_iff_eq] at taken
        exact taken.2
      rw [((FileTree.canonical?_eq_some_iff links).mp path).lands, ← atOutput, lands]
  · intro same
    obtain ⟨output, path, last⟩ := excluded same
    rw [(FileTree.canonical?_eq_some_iff links).mpr output]
    simp [isOutput, last, (FileTree.canonical?_eq_some_iff links).mpr path]

theorem exists_address_of_isDir (dir : u.isDir o.root) :
    ∃ r, u.get? r = some .dir ∧ u.address o.root = .ok r := by
  rw [FileTree.isDir, FileTree.address?] at dir
  cases found : u.address o.root with
  | error e =>
    rw [found] at dir
    cases dir
  | ok a =>
    rw [found] at dir
    exact ⟨a, by simpa [Except.toOption] using dir, rfl⟩

theorem isDir_of_address (inside : u.get? r = some .dir) (address : u.address o.root = .ok r) :
    u.isDir o.root := by
  simp [FileTree.isDir, FileTree.address?, address, Except.toOption, inside]

theorem walk_of_address (address : u.address o.root = .ok r) :
    u.walk o.root = u.walkFrom u.maxDepth [] ⟨o.root, r⟩ := by
  simp [FileTree.walk, FileTree.address?, address, Except.toOption]

/-- Whether a file of this name is scanned if it is not the output. -/
def isCandidate (o : Options) (p : Path) : Bool := isSource o p && !isGenerated p

theorem isCandidate_congr {p q : Path} (h : p.fileName? = q.fileName?) :
    isCandidate o p = isCandidate o q := by
  simp only [isCandidate, isSource, isGenerated, Path.extension?, h]

/-- The output is kept out by its address only if its name does not keep it out. -/
theorem isInput_eq (u : FileTree) (o : Options) (p : Path) :
    isInput u o p = (!isOutput u (u.canonical? o.outputPath) p && isCandidate o p) := by
  rw [isInput, isCandidate]
  cases isSource o p <;> simp

/-- Which files are scanned, told by where they lead. That the output can be written out matters
only if its name could be that of a source. -/
theorem inputs_walk (wf : u.WellFormed) (links : u.LinkFree) (inside : u.get? r = some .dir)
    (address : u.address o.root = .ok r) (lands : u.landing o.outputPath = out)
    (name : o.outputPath.fileName? = out.getLast?)
    (known : isCandidate o o.outputPath → fitsWritten out ∧ Leads u fitsWritten o.root r ∧
      ((u.get? out).isSome → Leads u fitsWritten o.outputPath out)) :
    inputs u o (u.walk o.root) =
      (((u.walk o.root).filterMap (u.otherFile out)).filter (isCandidate o)).mergeSort
        Path.le := by
  have root := ((FileTree.address_eq_ok_iff links).mp address).1
  have standing : u.Standing ⟨o.root, r⟩ := ⟨root.ne_nil, root.lands⟩
  have input : ∀ p ∈ (u.walk o.root).filterMap Found.file?,
      isInput u o p = (decide (u.landing p ≠ out) && isCandidate o p) := by
    intro p hp
    obtain ⟨f, hf, path⟩ := List.mem_filterMap.mp hp
    rw [Found.eq_of_file? path, walk_of_address address] at hf
    obtain ⟨a, id, there, -, landing, last, leads⟩ :=
      FileTree.file_of_mem_walkFrom wf links inside standing hf
    rw [isInput_eq]
    cases candidate : isCandidate o p with
    | false => simp
    | true =>
      have taken := isOutput_eq links lands fun same => by
        have reached : a = out := landing.symm.trans same
        subst reached
        rw [isCandidate_congr (last.trans name.symm)] at candidate
        obtain ⟨fit, rootKnown, output⟩ := known candidate
        refine ⟨output (by rw [there]; rfl), leads fitsWritten ?_ rootKnown, last⟩
        intro b before
        exact FileTree.fitsWritten_of_prefix before fit
      rw [taken]
      simp
  have files : (u.walk o.root).filterMap (u.otherFile out) =
      ((u.walk o.root).filterMap Found.file?).filter fun p => u.landing p ≠ out :=
    (List.filter_filterMap ..).symm
  rw [inputs_eq, List.filter_congr input, files, List.filter_filter]
  congr 2
  funext p
  rw [Bool.and_comm]

end Inputs

/-- A generation has written its output, in a file system without links. -/
structure Committed (t t' : FileTree) (o : Options) (r out : Address) (id : Nat)
    (bytes : List UInt8) : Prop where
  wellFormed : t.WellFormed
  linkFree : t.LinkFree
  replaced : Replaced t t' out id bytes
  inside : t.get? r = some .dir
  address : t.address o.root = .ok r
  output : Leads t' (fun _ => true) o.outputPath out
  noUp : .up ∉ o.output.components
  known : isCandidate o o.outputPath →
    Leads t fitsWritten o.root r ∧ Leads t' fitsWritten o.outputPath out

namespace Committed

variable {t t' : FileTree} {o : Options} {r out : Address} {id : Nat} {bytes : List UInt8}

theorem root (h : Committed t t' o r out id bytes) : Leads t (fun _ => true) o.root r :=
  ((FileTree.address_eq_ok_iff h.linkFree).mp h.address).1

theorem standing (h : Committed t t' o r out id bytes) : t.Standing ⟨o.root, r⟩ :=
  ⟨h.root.ne_nil, h.root.lands⟩

theorem landing_outputPath (h : Committed t t' o r out id bytes) :
    t.landing o.outputPath = out := by
  rw [← h.replaced.landing_eq]
  exact h.output.lands

/-- The output is reached from an old directory through the pieces that the options give. -/
theorem descent (h : Committed t t' o r out id bytes) {fits : Address → Bool}
    (root : Leads t fits o.root r) (output : Leads t' fits o.outputPath out) :
    ∃ start front, t.get? start = some .dir ∧
      Path.segments o.outputPath.text.toList = front ++ Path.segments o.output.text.toList ∧
      Passes t' fits start (Path.segments o.output.text.toList) ∧
      (Path.segments o.output.text.toList).foldl FileTree.descend start = out ∧
      (Passes t fits start (Path.segments o.output.text.toList) →
        Leads t fits o.outputPath out) := by
  have lands := h.landing_outputPath
  have passes := output.passes
  -- An absolute output starts at the root of the file system, any other one where the root of the
  -- project leads.
  cases abs : o.output.isAbsolute with
  | true =>
    have whole : o.outputPath = o.output := by simp [Options.outputPath, Path.join, abs]
    have start (u : FileTree) : u.startOf o.outputPath = [] := by
      rw [whole, FileTree.startOf, if_pos abs]
    rw [start, whole] at passes
    rw [FileTree.landing, start, whole] at lands
    refine ⟨[], [], rfl, by rw [whole]; rfl, passes, lands, fun before =>
      ⟨output.ne_nil, output.nul, ?_, h.landing_outputPath⟩⟩
    rw [start, whole]
    exact before
  | false =>
    have ne_nil := root.ne_nil
    obtain ⟨front, -, joined, -⟩ := Path.segments_join ne_nil abs
    rw [Options.outputPath, FileTree.passes_join ne_nil abs, h.replaced.landing_eq, root.lands]
      at passes
    rw [Options.outputPath, FileTree.landing_join ne_nil abs, root.lands] at lands
    refine ⟨r, front, h.inside, joined, passes.2, lands, fun before =>
      ⟨output.ne_nil, output.nul, ?_, h.landing_outputPath⟩⟩
    rw [Options.outputPath, FileTree.passes_join ne_nil abs, root.lands]
    exact ⟨root.passes, before⟩

theorem fileName?_outputPath (h : Committed t t' o r out id bytes) :
    o.outputPath.fileName? = out.getLast? := by
  obtain ⟨start, front, dir, pieces, -, lands, -⟩ := h.descent h.root h.output
  have noUp := Path.notMem_segments_of_components h.noUp
  rw [FileTree.foldl_descend noUp] at lands
  have some_ : (Path.segments o.output.text.toList).filterMap Path.name? ≠ [] := by
    intro none_
    rw [none_, List.append_nil] at lands
    exact h.replaced.notDir (lands ▸ dir)
  rw [Path.fileName?_eq pieces noUp some_, ← lands, List.getLast?_append_of_ne_nil _ some_]

theorem fits (h : Committed t t' o r out id bytes) (candidate : isCandidate o o.outputPath) :
    fitsWritten out := by
  obtain ⟨root, output⟩ := h.known candidate
  obtain ⟨start, -, dir, -, passes, lands, -⟩ := h.descent root output
  have fit := FileTree.fits_of_passes (Path.notMem_segments_of_components h.noUp) passes
  rw [lands] at fit
  rcases fit with same | fit
  · exact absurd (same ▸ dir) h.replaced.notDir
  · exact fit

/-- An output that was there before was known for what it is. -/
theorem output_before (h : Committed t t' o r out id bytes) (candidate : isCandidate o o.outputPath)
    (there : (t.get? out).isSome) : Leads t fitsWritten o.outputPath out := by
  obtain ⟨root, output⟩ := h.known candidate
  obtain ⟨start, -, -, -, passes, lands, leads⟩ := h.descent root output
  have noUp := Path.notMem_segments_of_components h.noUp
  exact leads (h.replaced.passes_before h.wellFormed there noUp lands passes)

theorem inside_after (h : Committed t t' o r out id bytes) : t'.get? r = some .dir :=
  h.replaced.kept r _ h.inside

theorem address_after (h : Committed t t' o r out id bytes) : t'.address o.root = .ok r := by
  obtain ⟨leads, short⟩ := (FileTree.address_eq_ok_iff h.linkFree).mp h.address
  exact (FileTree.address_eq_ok_iff h.replaced.linkFree).mpr ⟨h.replaced.leads leads, short⟩

theorem inputs_before (h : Committed t t' o r out id bytes) :
    inputs t o (t.walk o.root) =
      (((t.walk o.root).filterMap (t.otherFile out)).filter (isCandidate o)).mergeSort Path.le :=
  inputs_walk h.wellFormed h.linkFree h.inside h.address h.landing_outputPath
    h.fileName?_outputPath fun candidate =>
      ⟨h.fits candidate, (h.known candidate).1, h.output_before candidate⟩

theorem inputs_after (h : Committed t t' o r out id bytes) :
    inputs t' o (t'.walk o.root) =
      (((t'.walk o.root).filterMap (t'.otherFile out)).filter (isCandidate o)).mergeSort Path.le :=
  inputs_walk h.replaced.wellFormed h.replaced.linkFree h.inside_after h.address_after
    h.output.lands h.fileName?_outputPath fun candidate =>
      ⟨h.fits candidate, h.replaced.leads (h.known candidate).1, fun _ => (h.known candidate).2⟩

/-- The files that are scanned are those that were. -/
theorem inputs_walk_eq (h : Committed t t' o r out id bytes) :
    inputs t' o (t'.walk o.root) = inputs t o (t.walk o.root) := by
  have other : t'.otherFile out = t.otherFile out := by
    funext f
    rw [FileTree.otherFile, FileTree.otherFile, h.replaced.landing_eq]
  have files : (t'.walk o.root).filterMap (t.otherFile out) =
      (t.walk o.root).filterMap (t.otherFile out) := by
    rw [walk_of_address h.address, walk_of_address h.address_after]
    exact h.replaced.walkFrom_other h.wellFormed h.linkFree h.inside h.standing
      (FileTree.enough_maxDepth h.wellFormed r)
      (FileTree.enough_maxDepth h.replaced.wellFormed r)
  rw [h.inputs_before, h.inputs_after, other, files]

/-- A scanned file reads as it did, unless it is the output under another name. -/
theorem read_eq (h : Committed t t' o r out id bytes) {p : Path}
    (hp : p ∈ inputs t o (t.walk o.root)) (apart : t'.file? p ≠ some id) :
    t'.read p = t.read p := by
  rw [h.inputs_before, List.mem_mergeSort, List.mem_filter, List.mem_filterMap] at hp
  obtain ⟨⟨f, hf, path⟩, -⟩ := hp
  obtain ⟨file, -⟩ := Option.filter_eq_some_iff.mp path
  rw [Found.eq_of_file? file, walk_of_address h.address] at hf
  obtain ⟨a, i, there, -, -, -, leads⟩ :=
    FileTree.file_of_mem_walkFrom h.wellFormed h.linkFree h.inside h.standing hf
  have before : Leads t (fun _ => true) p a := leads (fun _ => true) (fun _ _ => rfl) h.root
  have after := h.replaced.leads before
  have there' := h.replaced.kept a _ there
  rw [FileTree.read_of_leads h.linkFree before there,
    FileTree.read_of_leads h.replaced.linkFree after there']
  split
  · rename_i short
    have address := (FileTree.address_eq_ok_iff h.replaced.linkFree).mpr ⟨after, short⟩
    rw [FileTree.file?_of_address address there'] at apart
    rw [h.replaced.others a i there fun same => apart (congrArg some same)]
  · rfl

theorem scanFiles_eq (frontEnd : FrontEnd) (h : Committed t t' o r out id bytes)
    (apart : ∀ p ∈ inputs t o (t.walk o.root), t'.file? p ≠ some id) :
    scanFiles frontEnd t' o.root (inputs t o (t.walk o.root)) =
      scanFiles frontEnd t o.root (inputs t o (t.walk o.root)) := by
  have same : ∀ p ∈ inputs t o (t.walk o.root),
      scanFile frontEnd t' o.root p = scanFile frontEnd t o.root p := by
    intro p hp
    simp only [scanFile, parse, h.read_eq hp (apart p hp)]
  rw [scanFiles, scanFiles, List.map_congr_left same]

theorem report_eq (frontEnd : FrontEnd) (h : Committed t t' o r out id bytes)
    (apart : ∀ p ∈ inputs t o (t.walk o.root), t'.file? p ≠ some id) :
    let first := report frontEnd t o (t.walk o.root)
    let second := report frontEnd t' o (t'.walk o.root)
    second.filesScanned = first.filesScanned ∧ second.metadata = first.metadata ∧
      second.rendered = first.rendered := by
  simp only [report, h.inputs_walk_eq, h.scanFiles_eq frontEnd apart, and_self]

end Committed

theorem discover_of_isDir {t : FileTree} {o : Options} (dir : t.isDir o.root) :
    discover t o = .ok (inputs t o (t.walk o.root)) := by
  rw [discover, survey, if_pos dir]
  rfl

/-- A generation with what became of its output. -/
def Generation.withOutcome (g : Generation) (outcome : WriteOutcome) : Generation :=
  { g with outcome := some outcome }

section WithOutcome

variable (g : Generation) (outcome : WriteOutcome)

@[simp]
theorem Generation.withOutcome_outcome : (g.withOutcome outcome).outcome = some outcome := rfl

@[simp]
theorem Generation.withOutcome_filesScanned :
    (g.withOutcome outcome).filesScanned = g.filesScanned := rfl

@[simp]
theorem Generation.withOutcome_metadata : (g.withOutcome outcome).metadata = g.metadata := rfl

@[simp]
theorem Generation.withOutcome_rendered : (g.withOutcome outcome).rendered = g.rendered := rfl

end WithOutcome

/-- When a generation gives a result, and which. -/
theorem run_eq_ok_iff {frontEnd : FrontEnd} {t t' : FileTree} {o : Options} {g : Generation} :
    run frontEnd t o = (t', .ok g) ↔
      t.isDir o.root ∧ ∃ outcome,
        t.writeIfChanged o.outputPath
            (Text.encode (report frontEnd t o (t.walk o.root)).rendered) = (t', .ok outcome) ∧
          g = (report frontEnd t o (t.walk o.root)).withOutcome outcome := by
  rw [run, render_eq_report]
  by_cases dir : t.isDir o.root
  · have path : (report frontEnd t o (t.walk o.root)).outputPath = o.outputPath := rfl
    simp only [dir, if_true, true_and]
    rw [← path]
    generalize report frontEnd t o (t.walk o.root) = first
    rcases t.writeIfChanged first.outputPath (Text.encode first.rendered) with ⟨u, e | outcome⟩
    · simp
    · constructor
      · intro same
        cases same
        exact ⟨outcome, rfl, rfl⟩
      · rintro ⟨outcome', same, rfl⟩
        cases same
        rfl
  · simp [dir]

theorem filesScanned_of_run {frontEnd : FrontEnd} {t t' : FileTree} {o : Options} {g : Generation}
    (h : run frontEnd t o = (t', .ok g)) :
    g.filesScanned = (inputs t o (t.walk o.root)).length := by
  obtain ⟨-, outcome, -, rfl⟩ := run_eq_ok_iff.mp h
  rw [Generation.withOutcome_filesScanned, report]

/-- After a generation, the next one gives the same and leaves all as it is, if the output can be
read back and is not a scanned file under another name. Where the output could be taken for a
source, the root and the output must have addresses that can be written out. -/
theorem second_run_changes_nothing (frontEnd : FrontEnd) {t t' : FileTree} {o : Options}
    {g : Generation} {files : List Path} (wf : t.WellFormed) (links : t.LinkFree)
    (noUp : .up ∉ o.output.components) (scanned : discover t o = .ok files)
    (ran : run frontEnd t o = (t', .ok g)) (back : t'.ReadsBack o.outputPath)
    (apart : ∀ p ∈ files, t'.file? p ≠ t'.file? o.outputPath)
    (known : isCandidate o o.outputPath →
      (t.canonical? o.root).isSome ∧ (t'.canonical? o.outputPath).isSome) :
    ∃ g', run frontEnd t' o = (t', .ok g') ∧ g'.outcome = some .unchanged ∧
      discover t' o = .ok files ∧ g'.filesScanned = g.filesScanned ∧
      g'.metadata = g.metadata ∧ g'.rendered = g.rendered := by
  obtain ⟨dir, outcome, wrote, rfl⟩ := run_eq_ok_iff.mp ran
  rcases FileTree.writeIfChanged_spec wf links wrote with
    ⟨rfl, rfl⟩ | ⟨out, id, replaced, leads, short⟩
  · -- The output was current, so the second generation is the first one.
    exact ⟨_, ran, rfl, scanned, rfl, rfl, rfl⟩
  · obtain ⟨r, inside, address⟩ := exists_address_of_isDir dir
    have root := ((FileTree.address_eq_ok_iff links).mp address).1
    have committed : Committed t t' o r out id _ :=
      ⟨wf, links, replaced, inside, address, leads, noUp, fun candidate =>
        ⟨root.written_of_canonical? links (known candidate).1,
          leads.written_of_canonical? replaced.linkFree (known candidate).2⟩⟩
    have output := (FileTree.address_eq_ok_iff replaced.linkFree).mpr ⟨leads, short⟩
    have led := FileTree.file?_of_address output replaced.written
    rw [led] at apart
    rw [discover_of_isDir dir, Except.ok.injEq] at scanned
    subst scanned
    obtain ⟨files, metadata, rendered⟩ := committed.report_eq frontEnd apart
    have dir' := isDir_of_address committed.inside_after committed.address_after
    have read := back.read_eq led replaced.holds
    refine ⟨_, run_eq_ok_iff.mpr ⟨dir', .unchanged, ?_, rfl⟩, ?_, ?_, ?_⟩
    · rw [rendered]
      exact FileTree.writeIfChanged_of_read read
    · exact Generation.withOutcome_outcome ..
    · rw [discover_of_isDir dir', committed.inputs_walk_eq]
    · simp only [Generation.withOutcome_filesScanned, Generation.withOutcome_metadata,
        Generation.withOutcome_rendered]
      exact ⟨files, metadata, rendered⟩

section Overwritten

/-- Finds nothing in any file. -/
def blind : FrontEnd := fun p _ => .ok { file := p }

/-- A project whose output, with these contents, is one of its sources. -/
def sourceTree (output : List UInt8) : FileTree :=
  ((({} : FileTree).set ["p"] .dir).addFile ["p", "o.cpp"] ⟨.stored output, {}⟩).addFile
    ["p", "a.h"] ⟨.stored [], {}⟩

def sourceOptions : Options := { root := ⟨"/p"⟩, output := ⟨"o.cpp"⟩ }

theorem wellFormed_sourceTree : (sourceTree [0]).WellFormed := by
  have project : (({} : FileTree).set ([] ++ ["p"]) .dir).WellFormed :=
    FileTree.wellFormed_empty.set rfl (by decide) (fun _ => rfl) (by simp)
  have first : ((({} : FileTree).set ["p"] .dir).addFile (["p"] ++ ["o.cpp"])
      ⟨.stored [0], {}⟩).WellFormed :=
    project.addFile (by decide) (by decide) (by decide) _
  exact first.addFile (a := ["p"]) (by decide) (by decide) (by decide) _

theorem linkFree_sourceTree : (sourceTree [0]).LinkFree := by
  have project := FileTree.linkFree_empty.set (a := ["p"]) (e := .dir) (by simp) (by simp)
  have first : ((({} : FileTree).set ["p"] .dir).addFile ["p", "o.cpp"]
      ⟨.stored [0], {}⟩).LinkFree := project.set (by simp) (by simp)
  exact first.set (by simp) (by simp)

theorem writeIfChanged_sourceTree (output bytes : List UInt8) :
    ∃ held outcome, (sourceTree output).writeIfChanged ⟨"/p/o.cpp"⟩ bytes =
      (sourceTree held, .ok outcome) := by
  rw [FileTree.writeIfChanged]
  split
  · exact ⟨output, _, rfl⟩
  · have parent : Path.parent? ⟨"/p/o.cpp"⟩ = some ⟨"/p"⟩ := by decide
    have made : (sourceTree output).makeDirs ⟨"/p"⟩ = (sourceTree output, .ok ()) := rfl
    have opened : (sourceTree output).openFile ⟨"/p/o.cpp"⟩ = .ok (sourceTree output, 0) := rfl
    have filled : (sourceTree output).fill 0 bytes = (sourceTree bytes, .ok ()) := by
      simp [FileTree.fill, sourceTree, FileTree.addFile, FileTree.set, FileBody.take]
    refine ⟨bytes, .written, ?_⟩
    simp [FileTree.replace, parent, made, FileTree.write, opened, filled]

theorem readsBack_sourceTree (output : List UInt8) :
    (sourceTree output).ReadsBack ⟨"/p/o.cpp"⟩ :=
  ⟨0, _, rfl, rfl, rfl, rfl⟩

theorem inputs_sourceTree :
    inputs (sourceTree [0]) sourceOptions ((sourceTree [0]).walk ⟨"/p"⟩) = [⟨"/p/a.h"⟩] := by
  have files : (((sourceTree [0]).walk ⟨"/p"⟩).filterMap Found.file?).filter
      (isInput (sourceTree [0]) sourceOptions) = [⟨"/p/a.h"⟩] := by
    decide
  rw [inputs_eq, files, List.mergeSort_singleton]

theorem sourceTree_second_run :
    ∃ t' g, run blind (sourceTree [0]) sourceOptions = (t', .ok g) ∧ g.filesScanned = 1 ∧
      ∃ g', run blind t' sourceOptions = (t', .ok g') ∧ g'.outcome = some .unchanged ∧
        discover t' sourceOptions = .ok [⟨"/p/a.h"⟩] ∧ g'.rendered = g.rendered := by
  have path : sourceOptions.outputPath = ⟨"/p/o.cpp"⟩ := by decide
  obtain ⟨held, outcome, wrote⟩ := writeIfChanged_sourceTree [0]
    (Text.encode
      (report blind (sourceTree [0]) sourceOptions ((sourceTree [0]).walk ⟨"/p"⟩)).rendered)
  have dir : (sourceTree [0]).isDir ⟨"/p"⟩ := by decide
  rw [← path] at wrote
  have ran := run_eq_ok_iff.mpr ⟨dir, outcome, wrote, rfl⟩
  have scanned : discover (sourceTree [0]) sourceOptions = .ok [⟨"/p/a.h"⟩] := by
    rw [discover_of_isDir dir]
    exact congrArg Except.ok inputs_sourceTree
  have back : (sourceTree held).ReadsBack sourceOptions.outputPath := by
    rw [path]
    exact readsBack_sourceTree held
  have apart : ∀ p ∈ [(⟨"/p/a.h"⟩ : Path)],
      (sourceTree held).file? p ≠ (sourceTree held).file? sourceOptions.outputPath := by
    have header : (sourceTree held).file? ⟨"/p/a.h"⟩ = some 1 := rfl
    have output : (sourceTree held).file? ⟨"/p/o.cpp"⟩ = some 0 := rfl
    rw [path, output]
    simp [header]
  obtain ⟨g', again, unchanged, files, -, -, rendered⟩ :=
    second_run_changes_nothing blind wellFormed_sourceTree linkFree_sourceTree (by decide)
      scanned ran back apart fun _ => ⟨by decide, rfl⟩
  exact ⟨_, _, ran, congrArg List.length inputs_sourceTree, g', again, unchanged, files,
    rendered⟩

end Overwritten

section Deep

/-- Directories one inside the other, with paths taken from the innermost one. -/
def nested (name : String) : Nat → FileTree
  | 0 => {}
  | n + 1 =>
    { (nested name n).set (List.replicate n name ++ [name]) .dir with
      here := List.replicate n name ++ [name] }

def hereOptions : Options := { root := ⟨"."⟩, output := ⟨"o.cpp"⟩ }

variable {name : String} (n : Nat)

theorem here_nested : (nested name n).here = List.replicate n name := by
  cases n with
  | zero => rfl
  | succ n => exact List.replicate_succ'.symm

theorem wellFormed_nested (valid : FileTree.ValidName name) : (nested name n).WellFormed := by
  induction n with
  | zero => exact FileTree.wellFormed_empty
  | succ n ih =>
    have inside := ih.here
    rw [here_nested] at inside
    obtain ⟨distinct, named, parents, -, files⟩ := ih.set inside valid (fun _ => rfl) (by simp)
    refine ⟨distinct, named, parents, ?_, files⟩
    exact (FileTree.get?_set _ _ _ _ (by simp)).trans (if_pos rfl)

theorem linkFree_nested : (nested name n).LinkFree := by
  induction n with
  | zero => exact FileTree.linkFree_empty
  | succ n ih => exact ih.set (by simp) (by simp)

theorem room_nested : (nested name n).room = none := by
  induction n with
  | zero => rfl
  | succ n ih => exact ih

theorem length_entries_nested : (nested name n).entries.length ≤ n := by
  induction n with
  | zero => exact Nat.le_refl 0
  | succ n ih => exact Nat.succ_le_succ ((List.length_filter_le _ _).trans ih)

theorem names_here_nested (valid : FileTree.ValidName name) :
    (nested name n).names (nested name n).here = [] := by
  rw [List.eq_nil_iff_forall_not_mem]
  intro x listed
  have deep := (wellFormed_nested n valid).length_le (FileTree.isSome_of_mem_names listed)
  rw [here_nested, List.length_append, List.length_replicate, List.length_singleton] at deep
  have bound : (nested name n).entries.length ≤ n := length_entries_nested n
  omega

end Deep

section Vacant

variable {t : FileTree} {bytes : List UInt8}

theorem vacant_of_names {a : Address} {name : String} (empty : t.names a = []) :
    t.get? (a ++ [name]) = none := by
  rw [← Option.not_isSome_iff_eq_none, FileTree.isSome_get?_iff (by simp),
    ← FileTree.mem_names_iff, empty]
  exact List.not_mem_nil

theorem leads_dot (wf : t.WellFormed) {fits : Address → Bool} : Leads t fits ⟨"."⟩ t.here := by
  refine ⟨by decide, by decide, ⟨⟨wf.here, fun busy => by cases busy⟩, trivial⟩, rfl⟩

theorem isDir_dot (wf : t.WellFormed) (links : t.LinkFree) : t.isDir ⟨"."⟩ := by
  have address := (FileTree.address_eq_ok_iff links).mpr ⟨leads_dot wf, by decide⟩
  simp [FileTree.isDir, FileTree.address?, address, Except.toOption, wf.here]

theorem walk_dot (wf : t.WellFormed) (links : t.LinkFree) :
    t.walk ⟨"."⟩ =
      (t.names t.here).flatMap (t.visitName (t.maxDepth - 1) [] ⟨⟨"."⟩, t.here⟩) := by
  have deep : t.maxDepth = t.maxDepth - 1 + 1 := by
    have : 0 < t.maxDepth := Nat.mul_pos (by omega) (by omega)
    omega
  have walked : t.walk hereOptions.root = t.walkFrom t.maxDepth [] ⟨⟨"."⟩, t.here⟩ :=
    walk_of_address ((FileTree.address_eq_ok_iff links).mpr ⟨leads_dot wf, by decide⟩)
  rw [deep, FileTree.walkFrom_succ links] at walked
  exact walked

theorem locate_dot (wf : t.WellFormed) (last : FileTree.Last) :
    t.locate last ⟨"."⟩ = .ok (.found t.here) := by
  obtain ⟨resume, same⟩ :=
    FileTree.exists_locateFrom_eq t last (fun _ => true) FileTree.maxLinks
  have pieces : Path.segments ".".toList = [['.']] := by decide
  rw [FileTree.locate_of_usable last (by decide) (by decide) (by decide), same, pieces]
  simp [FileTree.advance, FileTree.startOf, Path.isAbsolute, Path.isIdle, wf.here]

theorem advance_vacant {a : Address} {name : String} (dir : t.get? a = some .dir)
    (valid : FileTree.ValidName name) (vacant : t.get? (a ++ [name]) = none)
    (last : FileTree.Last)
    (resume : Address → Path → List (List Char) → Except FileError FileTree.Target) :
    t.advance last (fun _ => true) resume a [name.toList] = .ok (.free a name) := by
  simp [FileTree.advance, dir, valid.busy, valid.notUp, Nat.not_lt.mpr valid.short, vacant]

theorem locate_output (wf : t.WellFormed) (vacant : t.get? (t.here ++ ["o.cpp"]) = none)
    (last : FileTree.Last) : t.locate last ⟨"./o.cpp"⟩ = .ok (.free t.here "o.cpp") := by
  obtain ⟨resume, same⟩ :=
    FileTree.exists_locateFrom_eq t last (fun _ => true) FileTree.maxLinks
  have pieces : Path.segments "./o.cpp".toList = [['.'], "o.cpp".toList] := by decide
  rw [FileTree.locate_of_usable last (by decide) (by decide) (by decide), same, pieces,
    ← advance_vacant wf.here (by decide) vacant last resume, FileTree.advance]
  simp [FileTree.startOf, Path.isAbsolute, Path.isIdle, wf.here]

/-- The file system with an output in the directory that paths start from. -/
def created (t : FileTree) (bytes : List UInt8) : FileTree :=
  t.addFile (t.here ++ ["o.cpp"]) ⟨.stored bytes, t.newAccess⟩

/-- The output is created where nothing else stands. -/
theorem writeIfChanged_dot (wf : t.WellFormed) (links : t.LinkFree)
    (vacant : t.get? (t.here ++ ["o.cpp"]) = none) (room : t.room = none) :
    t.writeIfChanged ⟨"./o.cpp"⟩ bytes = (created t bytes, .ok .written) := by
  have read : t.read ⟨"./o.cpp"⟩ = .error .notFound := by
    rw [FileTree.read, FileTree.address, locate_output wf vacant]
  have parent : Path.parent? ⟨"./o.cpp"⟩ = some ⟨"."⟩ := by decide
  have made : t.makeDirs ⟨"."⟩ = (t, .ok ()) := by
    have slashes : FileTree.withoutSlashes ⟨"."⟩ = ⟨"."⟩ := by decide
    have make : t.makeDir ⟨"."⟩ = .error .alreadyExists := by
      rw [FileTree.makeDir, FileTree.place, slashes, locate_dot wf]
    rw [FileTree.makeDirs, FileTree.makeDirsUpTo]
    simp [make, FileTree.makeDirUnlessThere, isDir_dot wf links]
  have opened : t.openFile ⟨"./o.cpp"⟩ = .ok (created t [], t.files.length) := by
    rw [FileTree.openFile, locate_output wf vacant]
    rfl
  have filled : (created t []).fill t.files.length bytes = (created t bytes, .ok ()) := by
    simp [FileTree.fill, created, FileTree.addFile, FileTree.set, FileBody.take, room]
  simp [FileTree.writeIfChanged, FileTree.isCurrent, read, FileTree.replace, parent, made,
    FileTree.write, opened, filled]

theorem names_set (t : FileTree) (a : Address) (name : String) (e : FileEntry)
    (empty : t.names a = []) : (t.set (a ++ [name]) e).names a = [name] := by
  have rest : ((t.entries.filter (·.1 != a ++ [name])).filterMap
      fun x => FileTree.nameIn a x.1).Sublist (t.names a) :=
    List.filter_sublist.filterMap _
  rw [empty, List.sublist_nil] at rest
  have whole : (t.set (a ++ [name]) e).names a =
      ((a ++ [name], e) :: t.entries.filter (·.1 != a ++ [name])).filterMap
        fun x => FileTree.nameIn a x.1 := rfl
  have first : FileTree.nameIn a (a ++ [name]) = some name := FileTree.nameIn_eq_some_iff.mpr rfl
  simp only [whole, List.filterMap_cons, first, rest]

theorem wellFormed_created (wf : t.WellFormed) (empty : t.names t.here = []) :
    (created t bytes).WellFormed := by
  refine wf.addFile wf.here (by decide) ?_ _
  rw [vacant_of_names empty]
  simp

theorem linkFree_created (links : t.LinkFree) : (created t bytes).LinkFree :=
  links.set (by simp) (by simp)

theorem walk_created (wf : t.WellFormed) (links : t.LinkFree) (empty : t.names t.here = []) :
    (created t bytes).walk ⟨"."⟩ = [.file ⟨"./o.cpp"⟩] := by
  have path : Path.join ⟨"."⟩ ⟨"o.cpp"⟩ = ⟨"./o.cpp"⟩ := by decide
  have names : (created t bytes).names (created t bytes).here = ["o.cpp"] :=
    names_set t t.here "o.cpp" _ empty
  have file : (created t bytes).get?
      ((⟨⟨"."⟩, (created t bytes).here⟩ : FileTree.Opened).address ++ ["o.cpp"]) =
        some (.file t.files.length) :=
    (FileTree.get?_set _ _ _ _ (by simp)).trans (if_pos rfl)
  have regular : (created t bytes).isRegular
      ((⟨⟨"."⟩, (created t bytes).here⟩ : FileTree.Opened).address ++ ["o.cpp"]) = true := by
    rw [FileTree.isRegular, FileTree.node?, file]
    simp [created, FileTree.addFile, FileBody.isStored]
  rw [walk_dot (wellFormed_created wf empty) (linkFree_created links), names,
    List.flatMap_singleton, FileTree.visitName_file file, if_pos regular, path]

theorem canonical?_created (links : t.LinkFree)
    (long : fitsWritten (t.here ++ ["o.cpp"]) = false) :
    (created t bytes).canonical? ⟨"./o.cpp"⟩ = none := by
  rw [Option.eq_none_iff_forall_ne_some]
  intro a found
  have passes := ((FileTree.canonical?_eq_some_iff (linkFree_created links)).mp found).passes
  have pieces : Path.segments "./o.cpp".toList = [['.'], "o.cpp".toList] := by decide
  rw [pieces] at passes
  have fit := (passes.2.1.named (by decide) (by decide)).2.1
  have lands : FileTree.descend t.here "o.cpp".toList = t.here ++ ["o.cpp"] :=
    FileTree.descend_of_valid (by decide)
  exact Bool.false_ne_true (long.symm.trans (lands ▸ fit))

/-- An output whose address cannot be written out is taken for a source. -/
theorem inputs_created (wf : t.WellFormed) (links : t.LinkFree) (empty : t.names t.here = [])
    (long : fitsWritten (t.here ++ ["o.cpp"]) = false) :
    inputs (created t bytes) hereOptions ((created t bytes).walk ⟨"."⟩) = [⟨"./o.cpp"⟩] := by
  have path : hereOptions.outputPath = ⟨"./o.cpp"⟩ := by decide
  have source : isSource hereOptions ⟨"./o.cpp"⟩ = true := by decide
  have plain : isGenerated ⟨"./o.cpp"⟩ = false := by decide +kernel
  have input : isInput (created t bytes) hereOptions ⟨"./o.cpp"⟩ = true := by
    simp [isInput, path, canonical?_created links long, isOutput, source, plain]
  simp [inputs_eq, walk_created wf links empty, Found.file?, input]

/-- In an empty directory whose entries have addresses too long to be written out, the output of the
first generation is a source of the second one. -/
theorem overlong_output_scanned (frontEnd : FrontEnd) (wf : t.WellFormed) (links : t.LinkFree)
    (empty : t.names t.here = []) (room : t.room = none)
    (long : fitsWritten (t.here ++ ["o.cpp"]) = false) :
    ∃ t' g, run frontEnd t hereOptions = (t', .ok g) ∧ discover t hereOptions = .ok [] ∧
      discover t' hereOptions = .ok [⟨"./o.cpp"⟩] ∧
      ∀ u g', run frontEnd t' hereOptions = (u, .ok g') → g'.filesScanned ≠ g.filesScanned := by
  have dir : t.isDir hereOptions.root := isDir_dot wf links
  have dir' (bytes : List UInt8) : (created t bytes).isDir hereOptions.root :=
    isDir_dot (wellFormed_created wf empty) (linkFree_created links)
  have root : hereOptions.root = ⟨"."⟩ := rfl
  have path : hereOptions.outputPath = ⟨"./o.cpp"⟩ := by decide
  have none : inputs t hereOptions (t.walk ⟨"."⟩) = [] := by
    simp [inputs_eq, walk_dot wf links, empty]
  have wrote (bytes : List UInt8) :
      t.writeIfChanged hereOptions.outputPath bytes = (created t bytes, .ok .written) := by
    rw [path]
    exact writeIfChanged_dot wf links (vacant_of_names empty) room
  have one (bytes : List UInt8) :
      inputs (created t bytes) hereOptions ((created t bytes).walk ⟨"."⟩) = [⟨"./o.cpp"⟩] :=
    inputs_created wf links empty long
  have ran : run frontEnd t hereOptions = (created t _, .ok _) :=
    run_eq_ok_iff.mpr ⟨dir, .written, wrote _, rfl⟩
  refine ⟨_, _, ran, ?_, ?_, fun u g' again => ?_⟩
  · rw [discover_of_isDir dir, root, none]
  · rw [discover_of_isDir (dir' _), root, one]
  · rw [filesScanned_of_run again, filesScanned_of_run ran, root, one, none]
    exact Nat.one_ne_zero

/-- A name of so many bytes. -/
def longName (n : Nat) : String := String.ofList (List.replicate n 'd')

theorem byteLength_longName (n : Nat) : Text.byteLength (longName n).toList = n := by
  rw [longName, String.toList_ofList]
  induction n with
  | zero => rfl
  | succ n ih =>
    rw [List.replicate_succ, Text.byteLength_cons, ih]
    exact Nat.add_comm 1 n

theorem writtenLength_nested (n k : Nat) :
    FileTree.writtenLength (List.replicate k (longName n)) = k * (n + 1) := by
  induction k with
  | zero => simp [FileTree.writtenLength]
  | succ k ih =>
    rw [List.replicate_succ, FileTree.writtenLength, ih, byteLength_longName, Nat.succ_mul,
      Nat.add_comm]

theorem validName_longName {n : Nat} (h : n < FileTree.maxNameLength) :
    FileTree.ValidName (longName (n + 1)) := by
  refine ⟨?_, ?_, ?_, ?_, (byteLength_longName _).trans_le h⟩ <;>
    simp [longName, Path.isIdle, List.replicate_succ]

/-- The directory has an address of the greatest length. -/
theorem deep_output_is_scanned :
    let deep := nested (longName 194) 21
    deep.WellFormed ∧ deep.LinkFree ∧ .up ∉ hereOptions.output.components ∧
      ∃ t' g, run blind deep hereOptions = (t', .ok g) ∧ discover deep hereOptions = .ok [] ∧
        discover t' hereOptions = .ok [⟨"./o.cpp"⟩] ∧
        ∀ u g', run blind t' hereOptions = (u, .ok g') → g'.filesScanned ≠ g.filesScanned := by
  intro deep
  have valid : FileTree.ValidName (longName 194) := validName_longName (by decide)
  have wf : deep.WellFormed := wellFormed_nested 21 valid
  have long : fitsWritten (deep.here ++ ["o.cpp"]) = false := by
    rw [here_nested, fitsWritten, decide_eq_false_iff_not, FileTree.writtenLength_append,
      writtenLength_nested]
    decide
  exact ⟨wf, linkFree_nested 21, by decide,
    overlong_output_scanned blind wf (linkFree_nested 21) (names_here_nested 21 valid)
      (room_nested 21) long⟩

end Vacant

end Project

end ReflectGen
