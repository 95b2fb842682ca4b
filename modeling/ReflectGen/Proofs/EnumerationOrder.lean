import ReflectGen.Proofs.DirectiveAccount
import ReflectGen.Proofs.PathOrder
import ReflectGen.Proofs.StoreViews
import ReflectGen.Project

namespace ReflectGen

namespace FileTree.Found

def path : Found → Path
  | file p => p
  | failed e => e.path

def file? : Found → Option Path
  | file p => some p
  | failed _ => none

def failure? : Found → Option WalkError
  | file _ => none
  | failed e => some e

theorem eq_of_file? {f : Found} {p : Path} (h : f.file? = some p) : f = .file p := by
  cases f with
  | file q => rw [Option.some.inj h]
  | failed e => cases h

theorem path_of_file? {f : Found} {p : Path} (h : f.file? = some p) : f.path = p := by
  rw [eq_of_file? h, path]

theorem path_of_failure? {f : Found} {e : WalkError} (h : f.failure? = some e) :
    f.path = e.path := by
  cases f with
  | file q => cases h
  | failed e' => rw [Option.some.inj h, path]

end FileTree.Found

namespace FileTree

/-- Two file systems that hold the same entries, listed in different orders. -/
structure Reordered (t t' : FileTree) : Prop where
  here : t'.here = t.here
  entries : t'.entries.Perm t.entries
  files : t'.files = t.files
  distinct : (t.entries.map Prod.fst).Nodup

theorem find?_eq_some_iff_mem {entries : List (Address × FileEntry)} {a : Address}
    {e : Address × FileEntry} (distinct : (entries.map Prod.fst).Nodup) :
    entries.find? (·.1 == a) = some e ↔ e ∈ entries ∧ e.1 = a := by
  induction entries with
  | nil => simp
  | cons d rest ih =>
    rw [List.map_cons, List.nodup_cons] at distinct
    rw [List.find?_cons]
    by_cases hd : d.1 = a
    · rw [beq_iff_eq.mpr hd]
      constructor
      · rintro ⟨⟩
        exact ⟨List.mem_cons_self, hd⟩
      · rintro ⟨he, rfl⟩
        rcases List.mem_cons.mp he with rfl | he
        · rfl
        · exact absurd (hd ▸ List.mem_map_of_mem he) distinct.1
    · rw [beq_eq_false_iff_ne.mpr hd]
      refine (ih distinct.2).trans (and_congr_left ?_)
      rintro rfl
      exact (or_iff_right fun same => hd (congrArg Prod.fst same).symm).symm.trans
        List.mem_cons.symm

section Congr

variable {t t' : FileTree}

/-- Where a path leads turns on the entries by address, and not on how they are listed. -/
theorem advance_congr (h : ∀ a, t'.get? a = t.get? a) (last : Last) (fits : Address → Bool)
    (resume : Address → Path → List (List Char) → Except FileError Target) (a : Address)
    (pieces : List (List Char)) :
    t'.advance last fits resume a pieces = t.advance last fits resume a pieces := by
  induction pieces generalizing a with
  | nil => rfl
  | cons piece rest ih => simp only [advance, h, ih]

theorem locateFrom_congr (h : ∀ a, t'.get? a = t.get? a) (last : Last) (fits : Address → Bool)
    (links : Nat) (a : Address) (pieces : List (List Char)) :
    t'.locateFrom last fits links a pieces = t.locateFrom last fits links a pieces := by
  induction links generalizing a pieces with
  | zero => exact advance_congr h last fits _ a pieces
  | succ links ih =>
    simp only [locateFrom, ih]
    exact advance_congr h last fits _ a pieces

end Congr

namespace Reordered

variable {t t' : FileTree}

theorem get?_eq (h : Reordered t t') (a : Address) : t'.get? a = t.get? a := by
  have distinct' : (t'.entries.map Prod.fst).Nodup :=
    (h.entries.map Prod.fst).nodup_iff.mpr h.distinct
  have found : t'.entries.find? (·.1 == a) = t.entries.find? (·.1 == a) := by
    apply Option.ext
    intro e
    rw [find?_eq_some_iff_mem distinct', find?_eq_some_iff_mem h.distinct, h.entries.mem_iff]
  rw [get?, get?, found]

theorem names_perm (h : Reordered t t') (a : Address) : (t'.names a).Perm (t.names a) :=
  h.entries.filterMap _

theorem startOf_eq (h : Reordered t t') (p : Path) : t'.startOf p = t.startOf p := by
  rw [startOf, startOf, h.here]

theorem address_eq (h : Reordered t t') (p : Path) : t'.address p = t.address p := by
  simp only [address, locate, h.startOf_eq, locateFrom_congr h.get?_eq]

theorem canonical?_eq (h : Reordered t t') (p : Path) : t'.canonical? p = t.canonical? p := by
  simp only [canonical?, h.startOf_eq, locateFrom_congr h.get?_eq]

theorem node?_eq (h : Reordered t t') (a : Address) : t'.node? a = t.node? a := by
  simp only [node?, h.get?_eq, h.files]

theorem read_eq (h : Reordered t t') (p : Path) : t'.read p = t.read p := by
  simp only [read, h.address_eq, h.node?_eq]

/-- A walk meets the same entries, in an order of its own. -/
theorem walkFrom_perm (h : Reordered t t') (fuel : Nat) (above : List Opened) (dir : Opened) :
    (t'.walkFrom fuel above dir).Perm (t.walkFrom fuel above dir) := by
  induction fuel generalizing above dir with
  | zero => exact .refl _
  | succ fuel ih =>
    unfold walkFrom
    apply (h.names_perm dir.address).flatMap
    intro name _
    simp only [h.get?_eq, h.address_eq, isRegular, h.node?_eq]
    split
    · exact .refl _
    · exact .refl _
    · split
      · exact .refl _
      · exact ih ..
    · split
      · exact .refl _
      · split
        · split
          · exact .refl _
          · exact ih ..
        · exact .refl _

theorem walk_perm (h : Reordered t t') (root : Path) : (t'.walk root).Perm (t.walk root) := by
  have depth : t'.maxDepth = t.maxDepth := by
    rw [maxDepth, maxDepth, h.entries.length_eq]
  simp only [walk, address?, h.address_eq, depth]
  split
  · exact .refl _
  · exact h.walkFrom_perm ..

end Reordered

end FileTree

namespace Project

open FileTree (Found)

variable (frontEnd : FrontEnd) (t : FileTree) (o : Options)

/-- No two entries are met under the same path. -/
def DistinctPaths (found : List Found) : Prop := found.Pairwise fun a b => ¬a.path.same b.path

instance (found : List Found) : Decidable (DistinctPaths found) := by
  unfold DistinctPaths
  infer_instance

/-- The generation from the entries that a walk met. -/
def report (found : List Found) : Generation :=
  let scanned := scanFiles frontEnd t o.root (inputs t o found)
  { filesScanned := (inputs t o found).length
    metadata := scanned.1
    rendered := Emit.render scanned.1
    outputPath := o.outputPath
    errors := walkErrors found ++ scanned.2 }

theorem rendered_report (found : List Found) :
    (report frontEnd t o found).rendered = Emit.render (report frontEnd t o found).metadata := by
  rw [report]

theorem render_eq_report :
    render frontEnd t o =
      if t.isDir o.root then .ok (report frontEnd t o (t.walk o.root))
      else .error (.noRoot o.root) := by
  unfold render survey
  split <;> rfl

section Order

variable {t o} {found found' : List Found}

theorem DistinctPaths.files (h : DistinctPaths found) :
    (found.filterMap Found.file?).Pairwise fun p q => ¬p.same q := by
  apply h.filterMap
  intro a b apart p hp q hq
  rw [← Found.path_of_file? hp, ← Found.path_of_file? hq]
  exact apart

theorem DistinctPaths.failures (h : DistinctPaths found) :
    (found.filterMap Found.failure?).Pairwise fun d e => ¬d.path.same e.path := by
  apply h.filterMap
  intro a b apart d hd e he
  rw [← Found.path_of_failure? hd, ← Found.path_of_failure? he]
  exact apart

theorem inputs_eq (t : FileTree) (o : Options) (found : List Found) :
    inputs t o found = ((found.filterMap Found.file?).filter (isInput t o)).mergeSort Path.le := by
  unfold inputs
  rw [List.filter_filterMap]
  congr 2
  funext f
  cases f <;> simp [Found.file?, Option.filter]

theorem walkErrors_eq (found : List Found) :
    walkErrors found = ((found.filterMap Found.failure?).mergeSort
      fun a b => a.path.le b.path).map fun e => ⟨.walk e, ⟨e.path, 1, 1⟩⟩ := by
  unfold walkErrors
  congr 3

theorem inputs_eq_of_perm (distinct : DistinctPaths found) (perm : found.Perm found') :
    inputs t o found = inputs t o found' := by
  rw [inputs_eq, inputs_eq]
  exact mergeSort_eq_of_perm id (distinct.files.filter _) ((perm.filterMap _).filter _)

theorem walkErrors_eq_of_perm (distinct : DistinctPaths found) (perm : found.Perm found') :
    walkErrors found = walkErrors found' := by
  rw [walkErrors_eq, walkErrors_eq,
    mergeSort_eq_of_perm WalkError.path distinct.failures (perm.filterMap _)]

theorem report_eq_of_perm (distinct : DistinctPaths found) (perm : found.Perm found') :
    report frontEnd t o found = report frontEnd t o found' := by
  unfold report
  rw [inputs_eq_of_perm distinct perm, walkErrors_eq_of_perm distinct perm]

theorem isDir_eq {t' : FileTree} (h : t.Reordered t') (p : Path) : t'.isDir p = t.isDir p := by
  simp only [FileTree.isDir, FileTree.address?, h.address_eq, h.get?_eq]

theorem parse_eq {t' : FileTree} (h : t.Reordered t') (p : Path) :
    parse frontEnd t' p = parse frontEnd t p := by
  rw [parse, parse, h.read_eq]

theorem report_eq_of_reordered {t' : FileTree} (h : t.Reordered t') (found : List Found) :
    report frontEnd t' o found = report frontEnd t o found := by
  have input : isInput t' o = isInput t o := by
    funext p
    simp only [isInput, isOutput, h.canonical?_eq]
  have scanned : scanFile frontEnd t' o.root = scanFile frontEnd t o.root := by
    funext p
    simp only [scanFile, parse_eq frontEnd h]
  simp only [report, inputs, scanFiles, input, scanned]

/-- File systems that list their entries in different orders give the same generation. -/
theorem render_eq_of_reordered {t' : FileTree} (h : t.Reordered t')
    (distinct : DistinctPaths (t.walk o.root)) : render frontEnd t' o = render frontEnd t o := by
  rw [render_eq_report, render_eq_report, isDir_eq h, report_eq_of_reordered frontEnd h,
    report_eq_of_perm frontEnd distinct (h.walk_perm o.root).symm]

theorem sorted_inputs (t : FileTree) (o : Options) (found : List Found) :
    (inputs t o found).Pairwise fun p q => p.le q := by
  rw [inputs_eq]
  exact sorted_mergeSort id _

end Order

section Failures

/-- Whether a file gives declarations. -/
def reads (p : Path) : Bool := (parse frontEnd t p).isOk

/-- The entries of a walk without the files that give no declarations. -/
def readable (found : List Found) : List Found :=
  found.filter fun f => f.file?.all (reads frontEnd t)

/-- The errors that one file gives. -/
def errorsOf (root p : Path) : List ScanError :=
  match parse frontEnd t p with
  | .ok tree => (scan root tree).errors
  | .error e => [⟨.frontEnd e, ⟨p, 1, 1⟩⟩]

theorem scanFiles_errors (root : Path) (files : List Path) :
    (scanFiles frontEnd t root files).2 = files.flatMap (errorsOf frontEnd t root) := by
  have each (p : Path) : (scanFile frontEnd t root p).errors = errorsOf frontEnd t root p := by
    unfold scanFile errorsOf
    cases parse frontEnd t p <;> rfl
  simp only [scanFiles, combine, List.flatMap_map, each]

theorem metadata_scanFile_of_not_reads {p : Path} (root : Path) (h : reads frontEnd t p = false) :
    (scanFile frontEnd t root p).metadata = {} := by
  unfold reads at h
  unfold scanFile
  cases hp : parse frontEnd t p with
  | ok tree =>
    rw [hp] at h
    cases h
  | error e => rfl

/-- A file without declarations adds nothing to what the files before it gave. -/
theorem scanFiles_filter (root : Path) (files : List Path) :
    (scanFiles frontEnd t root (files.filter (reads frontEnd t))).1 =
      (scanFiles frontEnd t root files).1 := by
  unfold scanFiles combine
  simp only [List.foldl_map]
  -- A file is merged into what the files before it gave, whatever that is.
  generalize ({} : Metadata) = start
  induction files generalizing start with
  | nil => rfl
  | cons p files ih =>
    cases hp : reads frontEnd t p with
    | true => rw [List.filter_cons_of_pos hp, List.foldl_cons, List.foldl_cons, ih]
    | false =>
      rw [List.filter_cons_of_neg (by simp [hp]), List.foldl_cons,
        metadata_scanFile_of_not_reads frontEnd t root hp, Metadata.merge_empty, ih]

variable {t o} {found : List Found}

theorem files_readable (found : List Found) :
    (readable frontEnd t found).filterMap Found.file? =
      (found.filterMap Found.file?).filter (reads frontEnd t) := by
  unfold readable
  rw [List.filterMap_filter, List.filter_filterMap]
  congr 1
  funext f
  cases f with
  | file p => cases h : reads frontEnd t p <;> simp [Found.file?, Option.filter, h]
  | failed e => rfl

theorem failures_readable (found : List Found) :
    (readable frontEnd t found).filterMap Found.failure? = found.filterMap Found.failure? := by
  unfold readable
  rw [List.filterMap_filter]
  congr 1
  funext f
  cases f with
  | file p => cases h : reads frontEnd t p <;> simp [Found.file?, Found.failure?, h]
  | failed e => rfl

theorem inputs_readable (distinct : DistinctPaths found) :
    inputs t o (readable frontEnd t found) =
      (inputs t o found).filter (reads frontEnd t) := by
  rw [inputs_eq, inputs_eq, files_readable, List.filter_comm]
  exact mergeSort_filter id (reads frontEnd t) (distinct.files.filter _)

theorem walkErrors_readable (found : List Found) :
    walkErrors (readable frontEnd t found) = walkErrors found := by
  rw [walkErrors_eq, walkErrors_eq, failures_readable]

end Failures

/-- A generation is the same in whatever order a walk meets its entries. Files that give no
declarations leave what the others register as it is; of the errors, each brings one, where its path
has its place. -/
theorem generation_independent_of_order {found found' : List Found}
    (distinct : DistinctPaths found) (perm : found.Perm found') :
    (found = t.walk o.root →
        (t.isDir o.root → render frontEnd t o = .ok (report frontEnd t o found')) ∧
        ∀ t', t.Reordered t' → render frontEnd t' o = render frontEnd t o) ∧
      inputs t o found = inputs t o found' ∧
      report frontEnd t o found = report frontEnd t o found' ∧
      (report frontEnd t o found).metadata =
        (report frontEnd t o (readable frontEnd t found)).metadata ∧
      (report frontEnd t o found).rendered =
        (report frontEnd t o (readable frontEnd t found)).rendered ∧
      (inputs t o found).Pairwise (fun p q => p.le q) ∧
      (report frontEnd t o found).errors =
        walkErrors found ++ (inputs t o found).flatMap (errorsOf frontEnd t o.root) ∧
      (report frontEnd t o (readable frontEnd t found)).errors =
        walkErrors found ++
          ((inputs t o found).filter (reads frontEnd t)).flatMap (errorsOf frontEnd t o.root) ∧
      ∀ p, (∀ e, parse frontEnd t p = .error e →
          errorsOf frontEnd t o.root p = [⟨.frontEnd e, ⟨p, 1, 1⟩⟩]) ∧
        (reads frontEnd t p → ∀ e ∈ errorsOf frontEnd t o.root p, e.fault.kind ≠ .frontEnd) := by
  have metadata : (report frontEnd t o found).metadata =
      (report frontEnd t o (readable frontEnd t found)).metadata := by
    simp only [report, inputs_readable frontEnd distinct, scanFiles_filter]
  have rendered : (report frontEnd t o found).rendered =
      (report frontEnd t o (readable frontEnd t found)).rendered := by
    rw [rendered_report, rendered_report, metadata]
  refine ⟨?_, inputs_eq_of_perm distinct perm, report_eq_of_perm frontEnd distinct perm, metadata,
    rendered, sorted_inputs t o found, ?_, ?_, fun p => ⟨?_, ?_⟩⟩
  · rintro rfl
    refine ⟨fun dir => ?_, fun t' reordered => render_eq_of_reordered frontEnd reordered distinct⟩
    rw [render_eq_report, if_pos dir, report_eq_of_perm frontEnd distinct perm]
  · simp only [report, scanFiles_errors]
  · simp only [report, inputs_readable frontEnd distinct, walkErrors_readable, scanFiles_errors]
  · intro e he
    simp only [errorsOf, he]
  · intro read
    unfold errorsOf
    cases hp : parse frontEnd t p with
    | ok tree => exact Scan.scan_kind_ne_frontEnd o.root tree
    | error e =>
      rw [reads, hp] at read
      cases read

section Mixed

/-- Two files, the later one listed first. -/
def mixedTree : FileTree :=
  { entries := [(["p", "b.h"], .file 1), (["p", "a.h"], .file 0), (["p"], .dir)]
    files := [⟨.stored [], {}⟩, ⟨.stored [0], {}⟩] }

def mixedOptions : Options := { root := ⟨"/p"⟩ }

/-- Fails on an empty file, and finds a lone directive in any other. -/
def wantsContents : FrontEnd := fun p bytes =>
  if bytes = [] then .error (.read p .notText)
  else .ok (.ofForest p
    (.leaves [⟨.function, Directive.reflectType.marker, ⟨p, 1, 1⟩, {}, .nonMember⟩]))

theorem inputs_mixedTree :
    inputs mixedTree mixedOptions [.file ⟨"/p/a.h"⟩, .file ⟨"/p/b.h"⟩] =
      [⟨"/p/a.h"⟩, ⟨"/p/b.h"⟩] := by
  have files : ([.file ⟨"/p/a.h"⟩, .file ⟨"/p/b.h"⟩].filterMap Found.file?).filter
      (isInput mixedTree mixedOptions) = [⟨"/p/a.h"⟩, ⟨"/p/b.h"⟩] := by
    decide +kernel
  rw [inputs_eq, files, List.mergeSort_of_pairwise (by decide)]

theorem mixedTree_errors_in_place :
    DistinctPaths (mixedTree.walk ⟨"/p"⟩) ∧
      (mixedTree.walk ⟨"/p"⟩).Perm [.file ⟨"/p/a.h"⟩, .file ⟨"/p/b.h"⟩] ∧
      ∃ g, render wantsContents mixedTree mixedOptions = .ok g ∧
        g.errors = [⟨.frontEnd (.read ⟨"/p/a.h"⟩ .notText), ⟨⟨"/p/a.h"⟩, 1, 1⟩⟩,
          ⟨.danglingReflection, ⟨⟨"/p/b.h"⟩, 1, 1⟩⟩] := by
  have distinct : DistinctPaths (mixedTree.walk ⟨"/p"⟩) := by decide +kernel
  have perm : (mixedTree.walk ⟨"/p"⟩).Perm [.file ⟨"/p/a.h"⟩, .file ⟨"/p/b.h"⟩] := by
    decide +kernel
  have dir : mixedTree.isDir ⟨"/p"⟩ := by decide +kernel
  have errors : ([⟨"/p/a.h"⟩, ⟨"/p/b.h"⟩] : List Path).flatMap
      (errorsOf wantsContents mixedTree ⟨"/p"⟩) =
      [⟨.frontEnd (.read ⟨"/p/a.h"⟩ .notText), ⟨⟨"/p/a.h"⟩, 1, 1⟩⟩,
        ⟨.danglingReflection, ⟨⟨"/p/b.h"⟩, 1, 1⟩⟩] := by
    decide +kernel
  obtain ⟨rendered, files, same, -, -, -, written, -⟩ :=
    generation_independent_of_order wantsContents mixedTree mixedOptions distinct perm
  refine ⟨distinct, perm, _, (rendered rfl).1 dir, ?_⟩
  have walked : walkErrors [.file ⟨"/p/a.h"⟩, .file ⟨"/p/b.h"⟩] = [] := by simp [walkErrors]
  rw [← same, written, files, inputs_mixedTree, walkErrors_eq_of_perm distinct perm, walked]
  exact errors

end Mixed

end Project

end ReflectGen
