import ReflectGen.Decl
import ReflectGen.Forest

namespace ReflectGen

/-- A declaration under the number of the one that holds it. -/
structure Entry where
  parent : Nat
  decl : Decl
  deriving DecidableEq, Repr

/-- The declarations of one file. Number zero is the file itself; the entry at place `i` has
number `i + 1` and stands below an earlier one. -/
structure DeclTree where
  file : Path
  entries : List Entry := []
  parent_le : ∀ (i : Nat) (e : Entry), entries[i]? = some e → e.parent ≤ i := by simp
  deriving DecidableEq

namespace DeclTree

/-- A numbered declaration. -/
structure Node where
  id : Nat
  decl : Decl
  deriving DecidableEq, Repr

def size (t : DeclTree) : Nat := t.entries.length + 1

def unit (t : DeclTree) : Node := ⟨0, Decl.ofFile t.file⟩

def get? (t : DeclTree) : Nat → Option Decl
  | 0 => some (Decl.ofFile t.file)
  | i + 1 => t.entries[i]?.map Entry.decl

def parent? (t : DeclTree) : Nat → Option Nat
  | 0 => none
  | i + 1 => t.entries[i]?.map Entry.parent

/-- Adds a declaration as the last one below `parent`; its number is the size of the tree. -/
def push (t : DeclTree) (parent : Fin t.size) (decl : Decl) : DeclTree where
  file := t.file
  entries := t.entries ++ [⟨parent, decl⟩]
  parent_le := by
    intro i e h
    rw [List.getElem?_append] at h
    split at h
    · exact t.parent_le i e h
    · rename_i hi
      have hp := parent.isLt
      rw [List.getElem?_singleton] at h
      split at h
      · simp only [Option.some.injEq] at h
        subst h
        simp only [size] at hp ⊢
        omega
      · simp at h

/-- Numbers below `id`, first to last. -/
def childIds (t : DeclTree) (id : Nat) : List Nat :=
  (t.entries.zipIdx 1).filterMap fun (e, n) => if e.parent = id then some n else none

/-- What stands below `above` among the entries numbered from `next`. -/
def below : Nat → List Entry → Nat → Forest Node
  | _, [], _ => .nil
  | next, e :: rest, above =>
    if e.parent = above then
      .cons ⟨next, e.decl⟩ (below (next + 1) rest next) (below (next + 1) rest above)
    else below (next + 1) rest above

/-- The declarations below `id` as trees. -/
def forest (t : DeclTree) (id : Nat) : Forest Node := below 1 t.entries id

/-- The entries of declarations that stand below number `above`, the first of them to be numbered
`next`. -/
def number (next above : Nat) : Forest Decl → List Entry
  | .nil => []
  | .cons d kids rest =>
    ⟨above, d⟩ :: (number (next + 1) next kids ++ number (next + 1 + kids.size) above rest)

theorem length_number (next above : Nat) (f : Forest Decl) :
    (number next above f).length = f.size := by
  induction f generalizing next above with
  | nil => rfl
  | cons d kids rest ihk ihr => simp [number, Forest.size, ihk, ihr]

theorem parent_lt_of_number {next above : Nat} (h : above < next) (f : Forest Decl) (i : Nat)
    (e : Entry) (he : (number next above f)[i]? = some e) : e.parent < next + i := by
  induction f generalizing next above i with
  | nil => simp [number] at he
  | cons d kids rest ihk ihr =>
    cases i with
    | zero =>
      simp only [number, List.getElem?_cons_zero, Option.some.injEq] at he
      subst he
      exact h
    | succ i =>
      simp only [number, List.getElem?_cons_succ, List.getElem?_append] at he
      split at he
      · have := ihk (by omega) i he
        omega
      · rename_i hi
        rw [length_number] at hi he
        have := ihr (by omega) _ he
        omega

/-- A tree numbered in pre-order. -/
def ofForest (file : Path) (f : Forest Decl) : DeclTree where
  file := file
  entries := number 1 0 f
  parent_le := fun i e h => by
    have := parent_lt_of_number (Nat.zero_lt_one) f i e h
    omega

/-- All declarations with their numbers, in pre-order, the file first. -/
def nodes (t : DeclTree) : List Node := t.unit :: (t.forest 0).preorder

end DeclTree

end ReflectGen
