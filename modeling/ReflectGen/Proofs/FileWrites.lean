import ReflectGen.FileTree.Store

namespace ReflectGen

@[simp]
theorem FileBody.isStored_take (body : FileBody) (bytes : List UInt8) :
    (body.take bytes).isStored = body.isStored := by
  cases body <;> rfl

theorem FileBody.take_of_isStored {body : FileBody} (h : body.isStored) (bytes : List UInt8) :
    body.take bytes = .stored bytes := by
  cases body with
  | stored => rfl
  | device => cases h

namespace FileTree

/-- A file system in which one file took bytes and all else stayed, the room apart. -/
structure Took (t u : FileTree) (id : Nat) (bytes : List UInt8) : Prop where
  entries : u.entries = t.entries
  here : u.here = t.here
  file : ∃ node, t.files[id]? = some node ∧
    u.files = t.files.set id { node with body := node.body.take bytes }

namespace Took

variable {t u : FileTree} {id : Nat} {bytes : List UInt8}

theorem get?_eq (h : Took t u id bytes) (a : Address) : u.get? a = t.get? a := by
  rw [get?, get?, h.entries]

theorem other (h : Took t u id bytes) {i : Nat} (ne : i ≠ id) : u.files[i]? = t.files[i]? := by
  obtain ⟨node, -, files⟩ := h.file
  rw [files, List.getElem?_set_ne (Ne.symm ne)]

theorem self (h : Took t u id bytes) :
    ∃ node, t.files[id]? = some node ∧
      u.files[id]? = some { node with body := node.body.take bytes } := by
  obtain ⟨node, there, files⟩ := h.file
  refine ⟨node, there, ?_⟩
  rw [files, List.getElem?_set_self (List.getElem?_eq_some_iff.mp there).1]

theorem length_files (h : Took t u id bytes) : u.files.length = t.files.length := by
  obtain ⟨node, -, files⟩ := h.file
  rw [files, List.length_set]

theorem holds (h : Took t u id bytes) :
    ∀ node, u.files[id]? = some node → node.body.isStored → node.body = .stored bytes := by
  intro node there stored
  obtain ⟨before, -, after⟩ := h.self
  rw [after] at there
  cases there
  rw [FileBody.isStored_take] at stored
  exact FileBody.take_of_isStored stored bytes

/-- No file becomes a device or ceases to be one. -/
theorem isRegular_eq (h : Took t u id bytes) (a : Address) : u.isRegular a = t.isRegular a := by
  rw [isRegular, isRegular, node?, node?, h.get?_eq]
  cases t.get? a with
  | none => rfl
  | some e =>
    cases e with
    | dir => rfl
    | link target => rfl
    | file i =>
      by_cases same : i = id
      · subst same
        obtain ⟨node, before, after⟩ := h.self
        simp [before, after]
      · simp only [h.other same]

end Took

/-- The number of the file that a path leads to. -/
def file? (t : FileTree) (p : Path) : Option Nat :=
  match t.address p with
  | .error _ => none
  | .ok a =>
    match t.get? a with
    | some (.file id) => some id
    | _ => none

/-- A path leads to a file that stores what is written and can be read. -/
def ReadsBack (t : FileTree) (p : Path) : Prop :=
  ∃ id node, t.file? p = some id ∧ t.files[id]? = some node ∧ node.body.isStored ∧
    node.access.readable

section Paths

variable {t : FileTree} {p : Path} {a : Address} {id : Nat}

theorem file?_of_address (leads : t.address p = .ok a) (there : t.get? a = some (.file id)) :
    t.file? p = some id := by
  simp only [file?, leads, there]

theorem read_of_file? {node : FileNode} (led : t.file? p = some id)
    (file : t.files[id]? = some node) : t.read p = node.read := by
  rw [file?] at led
  split at led
  · cases led
  · rename_i leads
    split at led
    · rename_i there
      cases led
      simp only [read, leads, node?, there, file]
    · cases led

theorem ReadsBack.read_eq (h : t.ReadsBack p) (led : t.file? p = some id) {bytes : List UInt8}
    (holds : ∀ node, t.files[id]? = some node → node.body.isStored → node.body = .stored bytes) :
    t.read p = .ok bytes := by
  obtain ⟨i, node, led', file, stored, readable⟩ := h
  obtain rfl : i = id := Option.some.inj (led'.symm.trans led)
  rw [read_of_file? led file, FileNode.read, if_pos readable, holds node file stored]
  rfl

end Paths

section Write

variable {t u : FileTree} {p : Path} {id : Nat} {node : FileNode}

theorem ne_nil_of_absent {a : Address} (absent : t.get? a = none) : a ≠ [] := by
  rintro rfl
  cases absent

/-- What is put at a free address takes the place of nothing. -/
theorem get?_set_of_absent {a b : Address} {e : FileEntry} (absent : t.get? a = none)
    (there : t.get? b = some e) (new : FileEntry) : (t.set a new).get? b = some e := by
  rw [get?_set t a b new (ne_nil_of_absent absent), if_neg]
  · exact there
  · rintro rfl
    rw [absent] at there
    cases there

theorem get?_addFile (t : FileTree) (a b : Address) (node : FileNode) (h : a ≠ []) :
    (t.addFile a node).get? b = if a = b then some (.file t.files.length) else t.get? b :=
  get?_set t a b _ h

/-- A new file has the next number. -/
theorem files_addFile_ne (t : FileTree) (a : Address) (node : FileNode) {i : Nat}
    (ne : i ≠ t.files.length) : (t.addFile a node).files[i]? = t.files[i]? := by
  rcases Nat.lt_or_gt_of_ne ne with inside | beyond
  · exact List.getElem?_append_left inside
  · have outside : (t.files ++ [node]).length ≤ i := by
      rw [List.length_append, List.length_singleton]
      omega
    rw [addFile, List.getElem?_eq_none outside, List.getElem?_eq_none (by omega)]

/-- A file takes all bytes, or as many of them as there is room for. -/
theorem fill_cases (there : t.files[id]? = some node) (bytes : List UInt8) :
    ∃ taken, Took t (t.fill id bytes).1 id taken ∧
      ((t.fill id bytes).2 = .ok () ∧ taken = bytes ∨
        (t.fill id bytes).2 = .error .noSpace ∧ node.body.isStored ∧ taken <+: bytes ∧
          taken ≠ bytes) := by
  obtain ⟨body, access⟩ := node
  simp only [fill, there]
  cases body with
  | device gives sent => exact ⟨bytes, ⟨rfl, rfl, _, there, rfl⟩, .inl ⟨rfl, rfl⟩⟩
  | stored old =>
    refine ⟨(t.room.map (· + old.length)).elim bytes bytes.take,
      ⟨rfl, rfl, _, there, rfl⟩, ?_⟩
    have starts : (t.room.map (· + old.length)).elim bytes bytes.take <+: bytes := by
      cases t.room with
      | none => exact List.prefix_refl bytes
      | some n => exact List.take_prefix _ bytes
    dsimp only
    split
    · rename_i short
      refine .inr ⟨rfl, rfl, starts, fun same => ?_⟩
      rw [same] at short
      exact Nat.lt_irrefl _ short
    · rename_i whole
      exact .inl ⟨rfl, starts.eq_of_length_le (Nat.not_lt.mp whole)⟩

/-- A file is opened where it stands, or is new at a free name. -/
theorem openFile_cases (h : t.openFile p = .ok (u, id)) :
    (∃ a node, t.locate .create p = .ok (.found a) ∧ t.get? a = some (.file id) ∧
        t.files[id]? = some node ∧ u = t) ∨
      ∃ dir name, t.locate .create p = .ok (.free dir name) ∧ id = t.files.length ∧
        u = t.addFile (dir ++ [name]) ⟨.stored [], t.newAccess⟩ := by
  rw [openFile] at h
  split at h
  · cases h
  · rename_i dir name located
    cases h
    exact .inr ⟨dir, name, located, rfl, rfl⟩
  · rename_i a located
    split at h
    · rename_i i there
      split at h
      · rename_i writable
        cases h
        obtain ⟨node, file⟩ : ∃ node, t.files[id]? = some node := by
          cases file : t.files[id]? with
          | none => simp [file] at writable
          | some node => exact ⟨node, rfl⟩
        exact .inl ⟨a, node, located, there, file, rfl⟩
      · cases h
    · cases h

theorem file_of_openFile (h : t.openFile p = .ok (u, id)) : ∃ node, u.files[id]? = some node := by
  rcases openFile_cases h with ⟨_, node, -, -, file, rfl⟩ | ⟨dir, name, -, rfl, rfl⟩
  · exact ⟨node, file⟩
  · exact ⟨_, List.getElem?_concat_length⟩

/-- What a write does: nothing if the file cannot be opened, else the open file takes all bytes or
those that there is room for. -/
theorem write_cases (t : FileTree) (p : Path) (bytes : List UInt8) :
    (∃ e, t.openFile p = .error e ∧ t.write p bytes = (t, .error e)) ∨
      ∃ v id node taken, t.openFile p = .ok (v, id) ∧ v.files[id]? = some node ∧
        Took v (t.write p bytes).1 id taken ∧
        ((t.write p bytes).2 = .ok () ∧ taken = bytes ∨
          (t.write p bytes).2 = .error .noSpace ∧ node.body.isStored ∧ taken <+: bytes ∧
            taken ≠ bytes) := by
  rw [write]
  cases opened : t.openFile p with
  | error e => exact .inl ⟨e, rfl, rfl⟩
  | ok result =>
    obtain ⟨v, id⟩ := result
    obtain ⟨node, there⟩ := file_of_openFile opened
    obtain ⟨taken, took, answer⟩ := fill_cases there bytes
    exact .inr ⟨v, id, node, taken, rfl, there, took, answer⟩

end Write

end FileTree

end ReflectGen
