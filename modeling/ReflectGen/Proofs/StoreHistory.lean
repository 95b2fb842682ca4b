import Mathlib.Logic.Function.Basic
import ReflectGen.Proofs.StoreRefinement

namespace ReflectGen

inductive StoreOperation where
  | addField (type : String) (m : Member) (origin : Option String)
  | addInclude (file : String)
  | record (p : TypePattern)
  | merge (other : Nat)

/-- An operation on one of the stores. -/
structure StoreStep where
  store : Nat
  operation : StoreOperation

namespace Metadata

def apply (stores : Nat → Metadata) (m : Metadata) : StoreOperation → Metadata
  | .addField type member origin => (m.addField type ⟨member.name, member.kind, origin⟩).1
  | .addInclude file => (m.addInclude file).1
  | .record p => (m.record p).1
  | .merge other => m.merge (stores other)

def step (stores : Nat → Metadata) (s : StoreStep) : Nat → Metadata :=
  Function.update stores s.store (apply stores (stores s.store) s.operation)

def run (steps : List StoreStep) : Nat → Metadata := steps.foldl step fun _ => {}

end Metadata

namespace IndexedStore

def apply (stores : Nat → IndexedStore) (s : IndexedStore) : StoreOperation → Option IndexedStore
  | .addField type member origin => (s.addField type member origin).map Prod.fst
  | .addInclude file => some (s.addInclude file)
  | .record p => some (s.record p)
  | .merge other => s.merge (stores other)

def step (stores : Nat → IndexedStore) (s : StoreStep) : Option (Nat → IndexedStore) :=
  (apply stores (stores s.store) s.operation).map (Function.update stores s.store)

/-- There is no result if some operation on the way has none. -/
def run (steps : List StoreStep) : Option (Nat → IndexedStore) := steps.foldlM step fun _ => {}

/-- A store with its tables in step that registers the metadata. -/
structure Represents (s : IndexedStore) (m : Metadata) : Prop where
  wellFormed : s.WellFormed
  metadata_eq : s.metadata = m

section Run

variable {stores : Nat → IndexedStore} {registered : Nat → Metadata}

theorem apply_represents (all : ∀ k, (stores k).Represents (registered k)) {s : IndexedStore}
    {m : Metadata} (h : s.Represents m) (operation : StoreOperation) :
    ∃ t, apply stores s operation = some t ∧ t.Represents (m.apply registered operation) := by
  obtain ⟨h, rfl⟩ := h
  cases operation with
  | addField type member origin =>
    obtain ⟨t, new, added, ht, registers⟩ := h.addField type member origin
    refine ⟨t, ?_, ht, congrArg Prod.fst registers⟩
    rw [apply, added, Option.map_some]
  | addInclude file => exact ⟨_, rfl, h.addInclude file, rfl⟩
  | record p => exact ⟨_, rfl, h.record p, metadata_record s p⟩
  | merge other =>
    obtain ⟨t, merged, ht, registers⟩ := h.merge (all other).wellFormed
    refine ⟨t, merged, ht, ?_⟩
    rw [registers, (all other).metadata_eq]
    rfl

theorem step_represents (all : ∀ k, (stores k).Represents (registered k)) (s : StoreStep) :
    ∃ after, step stores s = some after ∧
      ∀ k, (after k).Represents (Metadata.step registered s k) := by
  obtain ⟨t, applied, ht⟩ := apply_represents all (all s.store) s.operation
  refine ⟨Function.update stores s.store t, ?_, ?_⟩
  · rw [step, applied, Option.map_some]
  · intro k
    by_cases here : k = s.store
    · subst here
      rw [Metadata.step, Function.update_self, Function.update_self]
      exact ht
    · rw [Metadata.step, Function.update_of_ne here, Function.update_of_ne here]
      exact all k

theorem foldlM_represents (all : ∀ k, (stores k).Represents (registered k))
    (steps : List StoreStep) :
    ∃ after, steps.foldlM step stores = some after ∧
      ∀ k, (after k).Represents (steps.foldl Metadata.step registered k) := by
  induction steps generalizing stores registered with
  | nil => exact ⟨stores, rfl, all⟩
  | cons s steps ih =>
    obtain ⟨next, stepped, hn⟩ := step_represents all s
    obtain ⟨after, rest, ha⟩ := ih hn
    refine ⟨after, ?_, ha⟩
    rw [List.foldlM_cons, stepped]
    exact rest

end Run

theorem run_represents (steps : List StoreStep) :
    ∃ stores, run steps = some stores ∧ ∀ k, (stores k).Represents (Metadata.run steps k) :=
  foldlM_represents (fun _ => ⟨wellFormed_empty, rfl⟩) steps

end IndexedStore

/-- After any history every store has its tables in step: the index finds what a search finds, a
capture is new exactly if the pair was absent and changes nothing otherwise, and the metadata is
that of the same history. -/
theorem history_keeps_tables (steps : List StoreStep) :
    ∃ stores, IndexedStore.run steps = some stores ∧ ∀ k,
      (stores k).WellFormed ∧
      (∀ type, (stores k).lookup type =
        ((stores k).records.find? (·.name == type)).map some) ∧
      (∀ type m origin, ∃ t new, (stores k).addField type m origin = some (t, new) ∧
        (new = true ↔ ¬(stores k).Captured type m.name) ∧ (new = false → t = stores k) ∧
        (t.metadata, new) = (Metadata.run steps k).addField type ⟨m.name, m.kind, origin⟩) ∧
      (stores k).metadata = Metadata.run steps k ∧
      ∀ j, stores j = stores k ↔ Metadata.run steps j = Metadata.run steps k := by
  obtain ⟨stores, ran, all⟩ := IndexedStore.run_represents steps
  refine ⟨stores, ran, ?_⟩
  intro k
  have h := (all k).wellFormed
  refine ⟨h, h.lookup_eq, ?_, (all k).metadata_eq, ?_⟩
  · intro type m origin
    obtain ⟨⟨t, new⟩, added, a⟩ := h.exists_adds type m origin
    refine ⟨t, new, added, a.captured_iff h, a.eq_of_false, ?_⟩
    rw [← (all k).metadata_eq]
    exact a.refines h
  · intro j
    rw [← (all j).metadata_eq, ← (all k).metadata_eq]
    exact ⟨congrArg IndexedStore.metadata, (all j).wellFormed.ext h⟩

end ReflectGen
