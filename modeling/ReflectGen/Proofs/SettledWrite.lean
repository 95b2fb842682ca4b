import Mathlib.Logic.Relation
import ReflectGen.Proofs.LinkedPaths
import ReflectGen.Proofs.Sha1
import ReflectGen.Proofs.WrittenTree

namespace ReflectGen

namespace Digest

end Digest

namespace Path

/-- A path is the parent of another one, or above it. -/
def IsAbove (q p : Path) : Prop := Relation.TransGen (fun p q => p.parent? = some q) p q

end Path

namespace FileTree

/-- A file system with further directories, each of them at the end of a path on the way. -/
structure Prepared (way : Path → Prop) (t u : FileTree) : Prop where
  here : u.here = t.here
  files : u.files = t.files
  kept : ∀ a e, t.get? a = some e → u.get? a = some e
  made : ∀ a, t.get? a = none →
    u.get? a = none ∨ u.get? a = some .dir ∧ ∃ q, way q ∧ u.address q = .ok a

namespace Prepared

variable {way : Path → Prop} {t u v : FileTree}

theorem refl : Prepared way t t :=
  ⟨rfl, rfl, fun _ _ there => there, fun _ absent => .inl absent⟩

theorem carries (h : Prepared way t u) : Carries t u := ⟨h.here, h.kept⟩

theorem trans (h : Prepared way t u) (k : Prepared way u v) : Prepared way t v := by
  refine ⟨k.here.trans h.here, k.files.trans h.files,
    fun a e there => k.kept a e (h.kept a e there), fun a absent => ?_⟩
  rcases h.made a absent with still | ⟨dir, q, onWay, leads⟩
  · exact k.made a still
  · exact .inr ⟨k.kept a .dir dir, q, onWay, k.carries.address leads⟩

/-- What is different is a directory that was made. -/
theorem changed (h : Prepared way t u) {a : Address} (ne : u.get? a ≠ t.get? a) :
    t.get? a = none ∧ u.get? a = some .dir ∧ ∃ q, way q ∧ u.address q = .ok a := by
  cases before : t.get? a with
  | some e => exact absurd ((h.kept a e before).trans before.symm) ne
  | none =>
    rcases h.made a before with still | made
    · exact absurd (still.trans before.symm) ne
    · exact ⟨rfl, made⟩

theorem absent (h : Prepared way t u) {a : Address} (free : u.get? a = none) :
    t.get? a = none := by
  cases before : t.get? a with
  | none => rfl
  | some e => exact nomatch free.symm.trans (h.kept a e before)

end Prepared

section MakeDirs

variable {way : Path → Prop} {t u : FileTree} {p : Path}

end MakeDirs

section Replace

variable {t : FileTree} {p : Path} {bytes : List UInt8}

/-- What the opening of a file at the end of a prepared way and the bytes that it took leave: of the
files only this one is another, and what is new is this file or a directory on the way. -/
theorem Prepared.took {u v after : FileTree} {id : Nat} {taken : List UInt8}
    (h : Prepared (·.IsAbove p) t u) (opened : u.openFile p = .ok (v, id))
    (took : Took v after id taken) :
    after.file? p = some id ∧ (∀ i, i ≠ id → after.files[i]? = t.files[i]?) ∧
      (∀ node, t.files[id]? = some node → v.files[id]? = some node) ∧
      ∀ a, after.get? a ≠ t.get? a → t.get? a = none ∧
        (after.address p = .ok a ∧ (∃ i, after.get? a = some (.file i)) ∨
          after.get? a = some .dir ∧ ∃ q, q.IsAbove p ∧ after.address q = .ok a) := by
  obtain ⟨carries, out, leads, there, new⟩ := openFile_spec opened
  have leads' := took.carries.address leads
  have there' : after.get? out = some (.file id) := (took.get?_eq out).trans there
  refine ⟨file?_of_address leads' there', fun i ne => ?_, fun node before => ?_, fun a ne => ?_⟩
  · rw [took.other ne, ← h.files]
    rcases new with rfl | ⟨-, rfl, rfl⟩
    · rfl
    · exact files_addFile_ne u out _ ne
  · rw [← h.files] at before
    rcases new with rfl | ⟨-, rfl, -⟩
    · exact before
    · rw [List.getElem?_eq_none (Nat.le_refl _)] at before
      cases before
  · rw [took.get?_eq] at ne ⊢
    by_cases here : a = out
    · subst here
      rcases new with rfl | ⟨absent, -, -⟩
      · have made := h.changed ne
        rw [there] at made
        cases made.2.1
      · exact ⟨h.absent absent, .inl ⟨leads', id, there⟩⟩
    · have same : v.get? a = u.get? a := by
        rcases new with rfl | ⟨absent, -, rfl⟩
        · rfl
        · rw [get?_addFile u out a _ (ne_nil_of_absent absent), if_neg (Ne.symm here)]
      rw [same] at ne ⊢
      obtain ⟨before, dir, q, onWay, led⟩ := h.changed ne
      exact ⟨before, .inr ⟨dir, q, onWay, took.carries.address (carries.address led)⟩⟩

/-- Directories are made where a link leads. -/
example :
    writeIfChanged { entries := [(["d"], .dir), (["l"], .link ⟨"d"⟩)] } ⟨"l/x/y/f"⟩ [1, 2] =
      ({ entries := [(["d", "x", "y", "f"], .file 0), (["d", "x", "y"], .dir), (["d", "x"], .dir),
          (["d"], .dir), (["l"], .link ⟨"d"⟩)],
         files := [⟨.stored [1, 2], {}⟩] }, .ok .written) := by
  decide +kernel

end Replace

end FileTree

end ReflectGen
