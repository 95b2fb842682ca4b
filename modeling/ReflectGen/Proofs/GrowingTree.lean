import Mathlib.Data.List.Induction
import Mathlib.Data.List.Nodup
import Mathlib.Data.List.Perm.Subperm
import ReflectGen.Proofs.FileWrites
import ReflectGen.Proofs.PlainPaths

namespace ReflectGen.FileTree

open Text

/-- Each entry stands once, under a name that it can have, in a directory, and the name of a file is
that of one there is. -/
structure WellFormed (t : FileTree) : Prop where
  distinct : (t.entries.map Prod.fst).Nodup
  named : ∀ a name, (t.get? (a ++ [name])).isSome → ValidName name
  parents : ∀ a name, (t.get? (a ++ [name])).isSome → t.get? a = some .dir
  here : t.get? t.here = some .dir
  files : ∀ a id, t.get? a = some (.file id) → id < t.files.length

section Basic

variable {t : FileTree} {a : Address} {e : FileEntry} {name : String}

theorem isSome_get?_iff (h : a ≠ []) : (t.get? a).isSome ↔ a ∈ t.entries.map Prod.fst := by
  simp [get?, h, List.find?_isSome]

/-- The name under which an address stands in a directory. -/
def nameIn (a : Address) (x : Address) : Option String :=
  if x.dropLast = a then x.getLast? else none

theorem nameIn_eq_some_iff {x : Address} : nameIn a x = some name ↔ x = a ++ [name] := by
  unfold nameIn
  constructor
  · intro h
    split at h
    · rename_i front
      obtain ⟨ys, rfl⟩ := List.getLast?_eq_some_iff.mp h
      rw [List.dropLast_concat] at front
      rw [front]
    · cases h
  · rintro rfl
    simp

theorem mem_names_iff : name ∈ t.names a ↔ a ++ [name] ∈ t.entries.map Prod.fst := by
  have each (x : Address × FileEntry) :
      (if x.1.dropLast = a then x.1.getLast? else none) = some name ↔ x.1 = a ++ [name] :=
    nameIn_eq_some_iff
  simp only [names, List.mem_filterMap, each, List.mem_map]

theorem isSome_of_mem_names (h : name ∈ t.names a) : (t.get? (a ++ [name])).isSome :=
  (isSome_get?_iff (by simp)).mpr (mem_names_iff.mp h)

theorem wellFormed_empty : ({} : FileTree).WellFormed := by
  refine ⟨List.nodup_nil, ?_, ?_, rfl, ?_⟩ <;> simp [get?]

theorem linkFree_empty : ({} : FileTree).LinkFree := by
  intro a target
  rw [get?]
  split <;> simp

namespace WellFormed

theorem set (h : t.WellFormed) (dir : t.get? a = some .dir) (valid : ValidName name)
    (keeps : t.get? (a ++ [name]) = some .dir → e = .dir)
    (file : ∀ id, e = .file id → id < t.files.length) :
    (t.set (a ++ [name]) e).WellFormed := by
  have ne : a ++ [name] ≠ [] := by simp
  have stays {b : Address} (hb : t.get? b = some .dir) :
      (t.set (a ++ [name]) e).get? b = some .dir := by
    rw [get?_set t _ b e ne]
    split
    · rename_i same
      rw [keeps (same ▸ hb)]
    · exact hb
  -- The new entry is one more, or takes the place of the one at its address.
  have old {b : Address} {other : String}
      (h : ((t.set (a ++ [name]) e).get? (b ++ [other])).isSome) :
      b = a ∧ other = name ∨ (t.get? (b ++ [other])).isSome := by
    rw [get?_set t _ _ e ne] at h
    split at h
    · rename_i same
      exact .inl (by simpa [eq_comm] using same)
    · exact .inr h
  refine ⟨?_, fun b other there => ?_, fun b other there => ?_, stays h.here, fun b id there => ?_⟩
  · have rest : (t.entries.filter (·.1 != a ++ [name])).map Prod.fst |>.Nodup :=
      h.distinct.sublist (List.filter_sublist.map _)
    simp only [FileTree.set, List.map_cons, List.nodup_cons]
    refine ⟨?_, rest⟩
    simp [List.mem_map, List.mem_filter]
  · rcases old there with ⟨-, rfl⟩ | there
    · exact valid
    · exact h.named b other there
  · rcases old there with ⟨rfl, -⟩ | there
    · exact stays dir
    · exact stays (h.parents b other there)
  · rw [get?_set t _ b e ne] at there
    split at there
    · exact file id (Option.some.inj there)
    · exact h.files b id there

/-- A file can be put at a name where no directory stands. -/
theorem addFile (h : t.WellFormed) (dir : t.get? a = some .dir) (valid : ValidName name)
    (notDir : t.get? (a ++ [name]) ≠ some .dir) (node : FileNode) :
    (t.addFile (a ++ [name]) node).WellFormed := by
  have more : ({ t with files := t.files ++ [node] } : FileTree).WellFormed := by
    refine ⟨h.distinct, h.named, h.parents, h.here, fun b id there => ?_⟩
    have inside := h.files b id there
    rw [List.length_append]
    omega
  refine more.set dir valid (fun same => absurd same notDir) fun id same => ?_
  cases same
  simp

/-- A file that takes bytes changes no entry. -/
theorem took {u : FileTree} {id : Nat} {bytes : List UInt8} (h : t.WellFormed)
    (took : Took t u id bytes) : u.WellFormed := by
  refine ⟨by rw [took.entries]; exact h.distinct, fun b other there => ?_, fun b other there => ?_,
    by rw [took.get?_eq, took.here]; exact h.here, fun b i there => ?_⟩
  · rw [took.get?_eq] at there
    exact h.named b other there
  · rw [took.get?_eq] at there ⊢
    exact h.parents b other there
  · rw [took.get?_eq] at there
    rw [took.length_files]
    exact h.files b i there

/-- What stands above an entry is a directory. -/
theorem dir_of_append (h : t.WellFormed) {below : Address} (ne : below ≠ [])
    (there : (t.get? (a ++ below)).isSome) : t.get? a = some .dir := by
  induction below using List.reverseRecOn with
  | nil => exact absurd rfl ne
  | append_singleton front last ih =>
    rw [← List.append_assoc] at there
    have above := h.parents _ _ there
    by_cases empty : front = []
    · rw [empty, List.append_nil] at above
      exact above
    · exact ih empty (by rw [above]; rfl)

/-- Each step down an address is an entry of its own. -/
theorem length_le (h : t.WellFormed) (there : (t.get? a).isSome) :
    a.length ≤ t.entries.length := by
  have steps : ((List.range a.length).map fun i => a.take (i + 1)).Nodup := by
    rw [List.nodup_map_iff_inj_on List.nodup_range]
    intro i hi j hj same
    have lengths := congrArg List.length same
    rw [List.mem_range] at hi hj
    rw [List.length_take, List.length_take] at lengths
    omega
  have entries : ((List.range a.length).map fun i => a.take (i + 1)) ⊆ t.entries.map Prod.fst := by
    intro x hx
    obtain ⟨i, hi, rfl⟩ := List.mem_map.mp hx
    rw [List.mem_range] at hi
    have ne : a.take (i + 1) ≠ [] := by
      rw [ne_eq, List.take_eq_nil_iff]
      rintro (h | rfl)
      · cases h
      · cases hi
    rw [← isSome_get?_iff ne]
    by_cases whole : a.drop (i + 1) = []
    · rw [List.take_of_length_le (List.drop_eq_nil_iff.mp whole)]
      exact there
    · rw [h.dir_of_append whole (by rw [List.take_append_drop]; exact there)]
      rfl
  simpa using (steps.subperm entries).length_le

end WellFormed

theorem LinkFree.set (h : t.LinkFree) (ne : a ≠ []) (plain : ∀ target, e ≠ .link target) :
    (t.set a e).LinkFree := by
  intro b target
  rw [get?_set t a b e ne]
  split
  · intro same
    exact plain target (Option.some.inj same)
  · exact h b target

theorem LinkFree.took {u : FileTree} {id : Nat} {bytes : List UInt8} (h : t.LinkFree)
    (took : Took t u id bytes) : u.LinkFree := by
  intro b target
  rw [took.get?_eq]
  exact h b target

end Basic

/-- A file system after directories were made, each at a free name. -/
inductive Grows (t : FileTree) : FileTree → Prop
  | refl : Grows t t
  | makes {u : FileTree} {dir : Address} {name : String} (h : Grows t u)
      (parent : u.get? dir = some .dir) (valid : ValidName name)
      (absent : u.get? (dir ++ [name]) = none) : Grows t (u.set (dir ++ [name]) .dir)

namespace Grows

variable {t u v : FileTree}

theorem trans (h : Grows t u) (k : Grows u v) : Grows t v := by
  induction k with
  | refl => exact h
  | makes _ parent valid absent ih => exact ih.makes parent valid absent

theorem wellFormed (h : Grows t u) (wf : t.WellFormed) : u.WellFormed := by
  induction h with
  | refl => exact wf
  | makes _ parent valid _ ih =>
    refine ih.set parent valid (fun _ => rfl) fun id same => ?_
    cases same

theorem linkFree (h : Grows t u) (links : t.LinkFree) : u.LinkFree := by
  induction h with
  | refl => exact links
  | makes _ _ _ _ ih => exact ih.set (by simp) (by simp)

theorem here_eq (h : Grows t u) : u.here = t.here := by
  induction h with
  | refl => rfl
  | makes _ _ _ _ ih => exact ih

theorem files_eq (h : Grows t u) : u.files = t.files := by
  induction h with
  | refl => rfl
  | makes _ _ _ _ ih => exact ih

theorem get?_of_some (h : Grows t u) {a : Address} {e : FileEntry} (there : t.get? a = some e) :
    u.get? a = some e := by
  induction h with
  | refl => exact there
  | makes _ _ _ absent ih =>
    rw [get?_set _ _ a _ (by simp), if_neg]
    · exact ih
    · rintro rfl
      rw [absent] at ih
      cases ih

/-- What is new is listed first, and is a directory that was not there. -/
theorem entries (h : Grows t u) :
    ∃ added, u.entries = added ++ t.entries ∧
      ∀ x ∈ added, x.1 ≠ [] ∧ x.2 = .dir ∧ t.get? x.1 = none := by
  induction h with
  | refl => exact ⟨[], rfl, by simp⟩
  | @makes u dir name h _ _ absent ih =>
    obtain ⟨added, listed, fresh⟩ := ih
    have other : ∀ x ∈ u.entries, (x.1 != dir ++ [name]) = true := by
      intro x hx
      rw [bne_iff_ne]
      intro same
      have listed : dir ++ [name] ∈ u.entries.map Prod.fst := same ▸ List.mem_map_of_mem hx
      have there := (isSome_get?_iff (by simp)).mpr listed
      rw [absent] at there
      cases there
    refine ⟨(dir ++ [name], .dir) :: added, ?_, ?_⟩
    · rw [set, List.filter_eq_self.mpr other, listed]
      rfl
    · intro x hx
      rcases List.mem_cons.mp hx with rfl | hx
      · refine ⟨by simp, rfl, ?_⟩
        cases before : t.get? (dir ++ [name]) with
        | none => rfl
        | some e =>
          rw [h.get?_of_some before] at absent
          cases absent
      · exact fresh x hx

theorem get?_of_none (h : Grows t u) {a : Address} (absent : t.get? a = none) :
    u.get? a = none ∨ u.get? a = some .dir := by
  induction h with
  | refl => exact .inl absent
  | makes _ _ _ _ ih =>
    rw [get?_set _ _ a _ (by simp)]
    split
    · exact .inr rfl
    · exact ih

end Grows

section MakeDirs

variable {t u : FileTree} {p : Path}

theorem clean_segments (h : Char.ofNat 0 ∉ p.text.toList) :
    ∀ piece ∈ Path.segments p.text.toList, '/' ∉ piece ∧ Char.ofNat 0 ∉ piece := by
  intro piece hp
  obtain ⟨slash, sub⟩ := Path.mem_segments hp
  exact ⟨slash, fun nul => h (sub nul)⟩

theorem descends_of_locate (links : t.LinkFree) {last : Last} {target : Target}
    (h : t.locate last p = .ok target) :
    Char.ofNat 0 ∉ p.text.toList ∧
      Descends t last (fun _ => true) (t.startOf p) (Path.segments p.text.toList)
        (.ok target) := by
  obtain ⟨ne_nil, nul, short⟩ := usable_of_locate h
  rw [locate_of_usable last ne_nil nul short] at h
  obtain ⟨resume, same⟩ := exists_locateFrom_eq t last (fun _ => true) maxLinks
  have descends : Descends t last (fun _ => true) (t.startOf p) (Path.segments p.text.toList)
      (t.advance last (fun _ => true) resume (t.startOf p) (Path.segments p.text.toList)) :=
    advance_descends links last resume _
  rw [← same, h] at descends
  exact ⟨nul, descends⟩

theorem makeDir_grows (links : t.LinkFree) (h : t.makeDir p = .ok u) : Grows t u := by
  rw [makeDir, place] at h
  split at h
  · cases h
  · cases h
  · rename_i located
    cases h
    obtain ⟨nul, descends⟩ := descends_of_locate links located
    obtain ⟨parent, absent, valid⟩ := descends.free (clean_segments nul)
    exact Grows.refl.makes parent valid absent

theorem makeDirUnlessThere_grows (links : t.LinkFree) (p : Path) :
    Grows t (t.makeDirUnlessThere p).1 := by
  unfold makeDirUnlessThere
  split
  · rename_i made
    exact makeDir_grows links made
  · split <;> exact .refl

theorem makeDirsUpTo_grows (links : t.LinkFree) (fuel : Nat) (p : Path) :
    Grows t (makeDirsUpTo fuel t p).1 := by
  induction fuel generalizing p with
  | zero => exact .refl
  | succ fuel ih =>
    rw [makeDirsUpTo]
    split
    · exact .refl
    · split
      · rename_i above _ _
        have grown := ih above
        split
        · rename_i u made
          rw [made] at grown
          exact grown.trans (makeDirUnlessThere_grows (grown.linkFree links) p)
        · rename_i u e made
          rw [made] at grown
          exact grown
      · exact makeDirUnlessThere_grows links p

end MakeDirs

/-- A file system after a file was written at `out`, in directories made for it. -/
structure Replaced (t t' : FileTree) (out : Address) (id : Nat) (bytes : List UInt8) : Prop where
  here : t'.here = t.here
  wellFormed : t'.WellFormed
  linkFree : t'.LinkFree
  written : t'.get? out = some (.file id)
  holds : ∀ node, t'.files[id]? = some node → node.body.isStored → node.body = .stored bytes
  notDir : t.get? out ≠ some .dir
  kept : ∀ a e, t.get? a = some e → t'.get? a = some e
  added : ∀ a, a ≠ out → t.get? a = none → t'.get? a = none ∨ t'.get? a = some .dir
  names : ∀ a, ∃ new,
    (t'.names a).filter (fun n => a ++ [n] ≠ out) =
        new ++ (t.names a).filter (fun n => a ++ [n] ≠ out) ∧
      ∀ n ∈ new, t.get? (a ++ [n]) = none
  others : ∀ a i, t.get? a = some (.file i) → i ≠ id → t'.files[i]? = t.files[i]?
  regular : ∀ a e, t.get? a = some e → t'.isRegular a = t.isRegular a

section Write

variable {t u t' : FileTree} {p : Path} {id : Nat} {bytes : List UInt8}

/-- The names in a directory other than that of one address. -/
theorem names_filter (t : FileTree) (a out : Address) :
    (t.names a).filter (fun n => a ++ [n] ≠ out) =
      (t.entries.filter (·.1 != out)).filterMap fun x => nameIn a x.1 := by
  have same : t.names a = t.entries.filterMap fun x => nameIn a x.1 := rfl
  rw [same, List.filter_filterMap, List.filterMap_filter]
  congr 1
  funext x
  cases named : nameIn a x.1 with
  | none => simp
  | some n => simp [Option.filter, nameIn_eq_some_iff.mp named]

/-- A file system with a file open at `out`, which was there or is new. -/
structure OpenAt (u v : FileTree) (out : Address) (id : Nat) : Prop where
  here : v.here = u.here
  entry : v.get? out = some (.file id)
  notDir : u.get? out ≠ some .dir
  others : v.entries.filter (·.1 != out) = u.entries.filter (·.1 != out)
  kept : ∀ a e, u.get? a = some e → v.get? a = some e
  away : ∀ a, a ≠ out → v.get? a = u.get? a
  files : ∀ i < u.files.length, v.files[i]? = u.files[i]?

theorem openAt_self {out : Address} (h : t.get? out = some (.file id)) : OpenAt t t out id :=
  ⟨rfl, h, by simp [h], rfl, fun _ _ there => there, fun _ _ => rfl, fun _ _ => rfl⟩

theorem openAt_addFile {out : Address} (absent : t.get? out = none) (node : FileNode) :
    OpenAt t (t.addFile out node) out t.files.length := by
  have ne := ne_nil_of_absent absent
  refine ⟨rfl, ?_, by simp [absent], ?_, fun a e there => ?_, fun a other => ?_, fun i inside => ?_⟩
  · rw [get?_addFile t out out node ne, if_pos rfl]
  · simp [addFile, set]
  · exact get?_set_of_absent absent there _
  · rw [get?_addFile t out a node ne, if_neg (Ne.symm other)]
  · exact List.getElem?_append_left inside

theorem OpenAt.isRegular_eq {v : FileTree} {out a : Address} {e : FileEntry} (h : OpenAt t v out id)
    (wf : t.WellFormed) (there : t.get? a = some e) : v.isRegular a = t.isRegular a := by
  rw [isRegular, isRegular, node?, node?, there, h.kept a e there]
  cases e with
  | dir => rfl
  | link target => rfl
  | file i => simp only [h.files i (wf.files a i there)]

theorem Grows.isRegular_eq (h : Grows t u) {a : Address} {e : FileEntry}
    (there : t.get? a = some e) : u.isRegular a = t.isRegular a := by
  rw [isRegular, isRegular, node?, node?, there, h.get?_of_some there, h.files_eq]

theorem Grows.replaced (h : Grows t u) (wf : t.WellFormed) {v : FileTree} {out : Address}
    (opened : OpenAt u v out id) (wf' : v.WellFormed) (links : v.LinkFree)
    (took : Took v t' id bytes) : Replaced t t' out id bytes := by
  obtain ⟨added, listed, fresh⟩ := h.entries
  refine ⟨(took.here.trans opened.here).trans h.here_eq, wf'.took took, links.took took, ?_, ?_,
    fun same => opened.notDir (h.get?_of_some same), ?_, ?_, ?_, ?_, ?_⟩
  · rw [took.get?_eq]
    exact opened.entry
  · exact took.holds
  · intro a e there
    rw [took.get?_eq]
    exact opened.kept a e (h.get?_of_some there)
  · intro a ne absent
    rw [took.get?_eq, opened.away a ne]
    exact h.get?_of_none absent
  · intro a
    refine ⟨(added.filter (·.1 != out)).filterMap fun x => nameIn a x.1, ?_, ?_⟩
    · rw [names_filter, names_filter, took.entries, opened.others, listed, List.filter_append,
        List.filterMap_append]
    · intro n hn
      obtain ⟨x, hx, named⟩ := List.mem_filterMap.mp hn
      rw [← nameIn_eq_some_iff.mp named]
      exact (fresh x (List.mem_of_mem_filter hx)).2.2
  · intro a i there ne
    have inside := wf.files a i there
    rw [took.other ne, opened.files i (by rw [h.files_eq]; exact inside), h.files_eq]
  · intro a e there
    rw [took.isRegular_eq, opened.isRegular_eq (h.wellFormed wf) (h.get?_of_some there),
      h.isRegular_eq there]

def Target.address : Target → Address
  | .found a => a
  | .free dir name => dir ++ [name]

/-- A path to be written leads, once the file is there, to the file. -/
theorem Descends.written {fits : Address → Bool} {a : Address} {pieces : List (List Char)}
    {target : Target} (h : Descends t .create fits a pieces (.ok target))
    (kept : ∀ b e, t.get? b = some e → t'.get? b = some e)
    (there : (t'.get? target.address).isSome) :
    Passes t' fits a pieces ∧ pieces.foldl descend a = target.address := by
  generalize result : (.ok target : Except FileError Target) = r at h
  induction h with
  | arrives a =>
    cases result
    exact ⟨trivial, rfl⟩
  | fails e => cases result
  | frees dir busy up short fit absent ends =>
    cases result
    rw [ends rfl]
    refine ⟨⟨⟨kept _ _ dir, fun _ _ => ⟨short, fit, ?_⟩⟩, trivial⟩, descend_of_busy busy up⟩
    rw [descend_of_busy busy up]
    exact there
  | moves dir h _ ih =>
    obtain ⟨passes, lands⟩ := ih result
    refine ⟨⟨⟨kept _ _ dir, fun busy up => ?_⟩, passes⟩, lands⟩
    rcases h with idle | same
    · rw [idle] at busy
      cases busy
    · exact absurd same up
  | @enters a name rest r dir busy up short fit found _ ih =>
    obtain ⟨passes, lands⟩ := ih result
    refine ⟨⟨⟨kept _ _ dir, fun _ _ => ⟨short, fit, ?_⟩⟩, passes⟩, lands⟩
    obtain ⟨e, found⟩ := Option.isSome_iff_exists.mp found
    rw [kept _ e found]
    rfl

end Write

end ReflectGen.FileTree
