import ReflectGen.Proofs.GrowingTree

namespace ReflectGen.FileTree

open Text

/-- A piece of a path asks for a name in a directory. -/
structure Asks (t : FileTree) (fits : Address → Bool) (a : Address) (piece : List Char) : Prop where
  dir : t.get? a = some .dir
  busy : Path.isIdle piece = false
  notUp : piece ≠ ['.', '.']
  short : byteLength piece ≤ maxNameLength
  fit : fits (descend a piece)

/-- The way of a path to its target, through at most so many links. -/
inductive Reaches (t : FileTree) (last : Last) (fits : Address → Bool) :
    Nat → Address → List (List Char) → Target → Prop
  | arrives (links : Nat) (a : Address) : Reaches t last fits links a [] (.found a)
  | moves {links a piece rest target} (dir : t.get? a = some .dir)
      (h : Path.isIdle piece ∨ piece = ['.', '.'])
      (next : Reaches t last fits links (descend a piece) rest target) :
      Reaches t last fits links a (piece :: rest) target
  | frees {links a piece rest} (asks : Asks t fits a piece)
      (absent : t.get? (descend a piece) = none) (slashes : ∀ more ∈ rest, more = [])
      (bare : last = .create → rest = []) :
      Reaches t last fits links a (piece :: rest) (.free a (String.ofList piece))
  | enters {links a piece rest target e} (asks : Asks t fits a piece)
      (there : t.get? (descend a piece) = some e) (plain : ∀ link, e ≠ .link link)
      (next : Reaches t last fits links (descend a piece) rest target) :
      Reaches t last fits links a (piece :: rest) target
  | follows {links a piece rest target link} (asks : Asks t fits a piece)
      (there : t.get? (descend a piece) = some (.link link)) (text : link.text ≠ "")
      (next : Reaches t last fits links (if link.isAbsolute then [] else a)
        (Path.segments link.text.toList ++ rest) target) :
      Reaches t last fits (links + 1) a (piece :: rest) target

/-- The target is a free name, and so no link that a path could have ended at. -/
def Target.IsFree (target : Target) : Prop := ∃ dir name, target = .free dir name

section Steps

variable {t : FileTree} {last : Last} {fits : Address → Bool} {a : Address} {piece : List Char}
variable {rest : List (List Char)} {target : Target}
variable {resume : Address → Path → List (List Char) → Except FileError Target}

theorem advance_moves (dir : t.get? a = some .dir) (h : Path.isIdle piece ∨ piece = ['.', '.']) :
    t.advance last fits resume a (piece :: rest) =
      t.advance last fits resume (descend a piece) rest := by
  rw [advance, if_neg (not_not_intro dir), descend]
  by_cases idle : Path.isIdle piece
  · rw [if_pos idle, if_pos idle]
  · have up := h.resolve_left idle
    rw [if_neg idle, if_neg idle, if_pos up, if_pos up]

section Name

variable (asks : Asks t fits a piece)

include asks

theorem advance_free (absent : t.get? (descend a piece) = none) :
    t.advance last fits resume a (piece :: rest) =
      if last = .create ∧ rest ≠ [] ∧ rest.all (· = []) then .error .isDirectory
      else if rest = [] ∨ rest ≠ [] ∧ rest.all (· = []) then .ok (.free a (String.ofList piece))
      else .error .notFound := by
  obtain ⟨dir, busy, notUp, short, fit⟩ := asks
  rw [descend_of_busy busy notUp] at fit absent
  simp [advance, dir, busy, notUp, Nat.not_lt.mpr short, fit, absent]

theorem advance_link {link : Path} (there : t.get? (descend a piece) = some (.link link)) :
    t.advance last fits resume a (piece :: rest) =
      if last = .create ∧ rest ≠ [] ∧ rest.all (· = []) then .error .isDirectory
      else if rest = [] ∧ last = .keep then .ok (.found (descend a piece))
      else resume a link rest := by
  obtain ⟨dir, busy, notUp, short, fit⟩ := asks
  rw [descend_of_busy busy notUp] at fit there ⊢
  simp [advance, dir, busy, notUp, Nat.not_lt.mpr short, fit, there]

theorem advance_plain {e : FileEntry} (there : t.get? (descend a piece) = some e)
    (plain : ∀ link, e ≠ .link link) :
    t.advance last fits resume a (piece :: rest) =
      if last = .create ∧ rest ≠ [] ∧ rest.all (· = []) then .error .isDirectory
      else t.advance last fits resume (descend a piece) rest := by
  obtain ⟨dir, busy, notUp, short, fit⟩ := asks
  rw [descend_of_busy busy notUp] at fit there ⊢
  cases e with
  | link link => exact absurd rfl (plain link)
  | file bytes => simp [advance, dir, busy, notUp, Nat.not_lt.mpr short, fit, there]
  | dir => simp [advance, dir, busy, notUp, Nat.not_lt.mpr short, fit, there]

end Name

/-- A piece that leads on is idle, goes up, or asks for a name. -/
theorem moves_or_asks (h : t.advance last fits resume a (piece :: rest) = .ok target) :
    t.get? a = some .dir ∧ (Path.isIdle piece ∨ piece = ['.', '.']) ∨ Asks t fits a piece := by
  rw [advance] at h
  by_cases dir : t.get? a = some .dir
  · by_cases moves : Path.isIdle piece ∨ piece = ['.', '.']
    · exact .inl ⟨dir, moves⟩
    · rw [not_or, Bool.not_eq_true] at moves
      obtain ⟨busy, notUp⟩ := moves
      rw [if_neg (not_not_intro dir), if_neg (by simp [busy]), if_neg notUp] at h
      dsimp only at h
      rw [← descend_of_busy busy notUp] at h
      split at h
      · cases h
      · rename_i short
        split at h
        · cases h
        · rename_i fit
          rw [Bool.not_eq_true, Bool.not_eq_false'] at fit
          exact .inr ⟨dir, busy, notUp, Nat.not_lt.mp short, fit⟩
  · rw [if_pos dir] at h
    cases h

/-- The way of a path, piece by piece. The way on from a link is left to `resume`. -/
theorem reaches_of_advance {links : Nat}
    (resumes : ∀ a piece rest link, Asks t fits a piece →
      t.get? (descend a piece) = some (.link link) → resume a link rest = .ok target →
      Reaches t last fits links a (piece :: rest) target)
    (kept : last = .keep → target.IsFree) {pieces : List (List Char)}
    (h : t.advance last fits resume a pieces = .ok target) :
    Reaches t last fits links a pieces target := by
  induction pieces generalizing a with
  | nil =>
    cases h
    exact .arrives links a
  | cons piece rest ih =>
    rcases moves_or_asks h with ⟨dir, moves⟩ | asks
    · rw [advance_moves dir moves] at h
      exact .moves dir moves (ih h)
    · cases there : t.get? (descend a piece) with
      | none =>
        rw [advance_free asks there] at h
        split at h
        · cases h
        · rename_i slashed
          split at h
          · rename_i ends
            cases h
            refine .frees asks there (fun more mem => ?_) fun create => ?_
            · rcases ends with rfl | ends
              · cases mem
              · exact of_decide_eq_true (List.all_eq_true.mp ends.2 more mem)
            · exact ends.resolve_right fun h => slashed ⟨create, h⟩
          · cases h
      | some e =>
        by_cases linked : ∃ link, e = .link link
        · obtain ⟨link, rfl⟩ := linked
          rw [advance_link asks there] at h
          split at h
          · cases h
          · split at h
            · rename_i ends
              cases h
              obtain ⟨_, _, free⟩ := kept ends.2
              cases free
            · exact resumes a piece rest link asks there h
        · have plain := not_exists.mp linked
          rw [advance_plain asks there plain] at h
          split at h
          · cases h
          · exact .enters asks there plain (ih h)

theorem reaches_of_locateFrom {links : Nat} (kept : last = .keep → target.IsFree)
    {pieces : List (List Char)} (h : t.locateFrom last fits links a pieces = .ok target) :
    Reaches t last fits links a pieces target := by
  induction links generalizing a pieces with
  | zero =>
    refine reaches_of_advance (fun _ _ _ _ _ _ resumed => ?_) kept h
    cases resumed
  | succ links ih =>
    refine reaches_of_advance (fun a piece rest link asks there resumed => ?_) kept h
    split at resumed
    · cases resumed
    · rename_i text
      exact .follows asks there text (ih resumed)

/-- A free name is one. -/
theorem Reaches.absent {links : Nat} {pieces : List (List Char)} {dir : Address} {name : String}
    (h : Reaches t last fits links a pieces (.free dir name)) : t.get? (dir ++ [name]) = none := by
  generalize same : Target.free dir name = target at h
  induction h with
  | arrives => cases same
  | moves _ _ _ ih => exact ih same
  | frees asks absent =>
    cases same
    rw [descend_of_busy asks.busy asks.notUp] at absent
    exact absent
  | enters _ _ _ _ ih => exact ih same
  | follows _ _ _ _ ih => exact ih same

section Follow

variable {links : Nat}

theorem locateFrom_nil : t.locateFrom last fits links a [] = .ok (.found a) := by
  cases links <;> rfl

theorem locateFrom_moves (dir : t.get? a = some .dir)
    (h : Path.isIdle piece ∨ piece = ['.', '.']) :
    t.locateFrom last fits links a (piece :: rest) =
      t.locateFrom last fits links (descend a piece) rest := by
  obtain ⟨resume, same⟩ := exists_locateFrom_eq t last fits links
  rw [same, advance_moves dir h]

theorem locateFrom_enters (reads : last ≠ .create) (asks : Asks t fits a piece) {e : FileEntry}
    (there : t.get? (descend a piece) = some e) (plain : ∀ link, e ≠ .link link) :
    t.locateFrom last fits links a (piece :: rest) =
      t.locateFrom last fits links (descend a piece) rest := by
  obtain ⟨resume, same⟩ := exists_locateFrom_eq t last fits links
  rw [same, advance_plain asks there plain, if_neg (by simp [reads])]

theorem locateFrom_follows (reads : last ≠ .create) (onward : last = .keep → rest ≠ [])
    (asks : Asks t fits a piece) {link : Path}
    (there : t.get? (descend a piece) = some (.link link)) (text : link.text ≠ "") :
    t.locateFrom last fits (links + 1) a (piece :: rest) =
      t.locateFrom last fits links (if link.isAbsolute then [] else a)
        (Path.segments link.text.toList ++ rest) := by
  rw [locateFrom, advance_link asks there, if_neg (by simp [reads]),
    if_neg fun ends => onward ends.2 ends.1, if_neg text]

theorem locateFrom_slashes (dir : t.get? a = some .dir) (slashes : ∀ more ∈ rest, more = []) :
    t.locateFrom last fits links a rest = .ok (.found a) := by
  induction rest with
  | nil => exact locateFrom_nil
  | cons more rest ih =>
    obtain ⟨rfl, later⟩ := List.forall_mem_cons.mp slashes
    rw [locateFrom_moves dir (.inl rfl)]
    exact ih later

end Follow

end Steps

/-- A file system that has all entries of another one. -/
structure Carries (t u : FileTree) : Prop where
  here : u.here = t.here
  kept : ∀ a e, t.get? a = some e → u.get? a = some e

namespace Carries

variable {t u v : FileTree} {a : Address}

theorem refl (t : FileTree) : Carries t t := ⟨rfl, fun _ _ there => there⟩

theorem asks (h : Carries t u) {fits : Address → Bool} {piece : List Char}
    (asks : Asks t fits a piece) : Asks u fits a piece :=
  { asks with dir := h.kept a .dir asks.dir }

end Carries

theorem Took.carries {t u : FileTree} {id : Nat} {bytes : List UInt8} (h : Took t u id bytes) :
    Carries t u :=
  ⟨h.here, fun a _ there => (h.get?_eq a).trans there⟩

/-- What has come to stand where a path led: at a free name an entry that is no link, and a
directory unless it was asked for without slashes. -/
def Target.Taken (target : Target) (last : Last) (u : FileTree) : Prop :=
  target.IsFree → ∃ e, u.get? target.address = some e ∧ (∀ link, e ≠ .link link) ∧
    (last = .create ∨ e = .dir)

theorem taken_found {last : Last} {u : FileTree} {a : Address} : (Target.found a).Taken last u := by
  rintro ⟨_, _, free⟩
  cases free

/-- The way of a path is there again, and leads to what has come to stand at its end. -/
theorem Reaches.locateFrom_eq {t u : FileTree} {last : Last} {fits : Address → Bool} {links : Nat}
    {a : Address} {pieces : List (List Char)} {target : Target}
    (h : Reaches t last fits links a pieces target) (carries : Carries t u)
    (taken : target.Taken last u) :
    u.locateFrom .follow fits links a pieces = .ok (.found target.address) := by
  induction h with
  | arrives => exact locateFrom_nil
  | moves dir idle _ ih =>
    rw [locateFrom_moves (carries.kept _ _ dir) idle]
    exact ih taken
  | @frees links a piece rest asks _ slashes bare =>
    obtain ⟨e, there, plain, kind⟩ := taken ⟨_, _, rfl⟩
    have lands : descend a piece = a ++ [String.ofList piece] :=
      descend_of_busy asks.busy asks.notUp
    rw [Target.address, ← lands] at there
    rw [locateFrom_enters (by decide) (carries.asks asks) there plain, Target.address, ← lands]
    rcases kind with create | rfl
    · rw [bare create]
      exact locateFrom_nil
    · exact locateFrom_slashes there slashes
  | enters asks there plain _ ih =>
    rw [locateFrom_enters (by decide) (carries.asks asks) (carries.kept _ _ there) plain]
    exact ih taken
  | follows asks there text _ ih =>
    rw [locateFrom_follows (by decide) (by simp) (carries.asks asks) (carries.kept _ _ there) text]
    exact ih taken

section Located

variable {t u : FileTree} {last : Last} {p : Path} {target : Target} {a : Address}

theorem reaches_of_locate (kept : last = .keep → target.IsFree)
    (h : t.locate last p = .ok target) :
    Reaches t last (fun _ => true) maxLinks (t.startOf p) (Path.segments p.text.toList)
      target := by
  obtain ⟨ne_nil, nul, short⟩ := usable_of_locate h
  rw [locate_of_usable last ne_nil nul short] at h
  exact reaches_of_locateFrom kept h

/-- A path leads, in a file system that carries another one, to where it led there. -/
theorem address_of_locate (kept : last = .keep → target.IsFree) (h : t.locate last p = .ok target)
    (carries : Carries t u) (taken : target.Taken last u) : u.address p = .ok target.address := by
  obtain ⟨ne_nil, nul, short⟩ := usable_of_locate h
  have start : u.startOf p = t.startOf p := by rw [startOf, startOf, carries.here]
  have found := (reaches_of_locate kept h).locateFrom_eq carries taken
  rw [← start, ← locate_of_usable .follow ne_nil nul short] at found
  rw [address, found]

theorem locate_of_address (h : t.address p = .ok a) : t.locate .follow p = .ok (.found a) := by
  unfold address at h
  split at h
  · rename_i found
    cases h
    exact found
  · cases h
  · cases h

theorem Carries.address (carries : Carries t u) (h : t.address p = .ok a) :
    u.address p = .ok a := by
  refine address_of_locate (fun keep => ?_) (locate_of_address h) carries taken_found
  cases keep

end Located

section Set

variable {t u v : FileTree} {p : Path} {a : Address} {e : FileEntry} {id : Nat}

theorem carries_addFile (absent : t.get? a = none) (node : FileNode) :
    Carries t (t.addFile a node) :=
  ⟨rfl, fun _ _ there => get?_set_of_absent absent there _⟩

/-- What is put at a free name is led to by the path that led there. -/
theorem address_of_free {last : Last} {dir : Address} {name : String}
    (h : t.locate last p = .ok (.free dir name)) (carries : Carries t u)
    (there : u.get? (dir ++ [name]) = some e) (plain : ∀ link, e ≠ .link link)
    (kind : last = .create ∨ e = .dir) : u.address p = .ok (dir ++ [name]) :=
  address_of_locate (fun _ => ⟨dir, name, rfl⟩) h carries fun _ => ⟨e, there, plain, kind⟩

theorem absent_of_free {last : Last} {dir : Address} {name : String}
    (h : t.locate last p = .ok (.free dir name)) : t.get? (dir ++ [name]) = none :=
  (reaches_of_locate (fun _ => ⟨dir, name, rfl⟩) h).absent

/-- A path leads to the file that was opened at it. The entries are those that there were, but for a
new file. -/
theorem openFile_spec (h : t.openFile p = .ok (v, id)) :
    Carries t v ∧ ∃ out, v.address p = .ok out ∧ v.get? out = some (.file id) ∧
      (v = t ∨ t.get? out = none ∧ id = t.files.length ∧
        v = t.addFile out ⟨.stored [], t.newAccess⟩) := by
  rcases openFile_cases h with ⟨a, node, located, there, -, rfl⟩ | ⟨dir, name, located, rfl, rfl⟩
  · have leads : v.address p = .ok a := by
      refine address_of_locate (fun keep => ?_) located (.refl v) taken_found
      cases keep
    exact ⟨.refl v, a, leads, there, .inl rfl⟩
  · have absent := absent_of_free located
    have carries := carries_addFile absent ⟨.stored [], t.newAccess⟩
    have there : (t.addFile (dir ++ [name]) ⟨.stored [], t.newAccess⟩).get? (dir ++ [name]) =
        some (.file t.files.length) := by
      rw [get?_addFile t _ _ _ (ne_nil_of_absent absent), if_pos rfl]
    have leads := address_of_free located carries there (by simp) (.inl rfl)
    exact ⟨carries, dir ++ [name], leads, there, .inr ⟨absent, rfl, rfl⟩⟩

end Set

end ReflectGen.FileTree
