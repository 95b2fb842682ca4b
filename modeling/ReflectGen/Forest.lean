namespace ReflectGen

/-- Ordered trees side by side: the first tree's root, what stands below it, and the trees after
it. -/
inductive Forest (α : Type) where
  | nil
  | cons (root : α) (children siblings : Forest α)
  deriving DecidableEq, Repr

namespace Forest

variable {α β σ : Type}

def append : Forest α → Forest α → Forest α
  | nil, g => g
  | cons a kids rest, g => cons a kids (rest.append g)

instance : Append (Forest α) := ⟨append⟩

@[simp] theorem nil_append (g : Forest α) : nil ++ g = g := rfl

@[simp] theorem cons_append (a : α) (kids rest g : Forest α) :
    cons a kids rest ++ g = cons a kids (rest ++ g) := rfl

@[simp] theorem append_nil (f : Forest α) : f ++ nil = f := by
  induction f with
  | nil => rfl
  | cons a kids rest _ ih => rw [cons_append, ih]

theorem append_assoc (f g h : Forest α) : f ++ g ++ h = f ++ (g ++ h) := by
  induction f with
  | nil => rfl
  | cons a kids rest _ ih => rw [cons_append, cons_append, cons_append, ih]

/-- The trees of a forest, left to right, each as its root and what stands below it. -/
def trees : Forest α → List (α × Forest α)
  | nil => []
  | cons a kids rest => (a, kids) :: rest.trees

def ofTrees : List (α × Forest α) → Forest α
  | [] => nil
  | (a, kids) :: rest => cons a kids (ofTrees rest)

@[simp] theorem ofTrees_trees (f : Forest α) : ofTrees f.trees = f := by
  induction f with
  | nil => rfl
  | cons a kids rest _ ih => simp [trees, ofTrees, ih]

@[simp] theorem trees_ofTrees (ts : List (α × Forest α)) : (ofTrees ts).trees = ts := by
  induction ts with
  | nil => rfl
  | cons t ts ih => simp [trees, ofTrees, ih]

/-- Trees without children. -/
def leaves (roots : List α) : Forest α := ofTrees (roots.map fun a => (a, nil))

def size : Forest α → Nat
  | nil => 0
  | cons _ kids rest => kids.size + rest.size + 1

/-- All labels, a root before its children and those before its siblings. -/
def preorder : Forest α → List α
  | nil => []
  | cons a kids rest => a :: (kids.preorder ++ rest.preorder)

/-- The trees that a pre-order listing with child counts describes. -/
def ofPreorder (listing : List (α × Nat)) : List (α × Forest α) :=
  listing.foldr (fun (a, n) done => (a, ofTrees (done.take n)) :: done.drop n) []

/-- What a visitor decides at a label: end the walk, pass over what stands below it, or go down. -/
inductive Visit where
  | stop
  | skip
  | descend
  deriving DecidableEq, Repr

/-- Walks a forest in pre-order. The visitor sees each label with the one above it. The second
component tells whether the walk ran to its end. -/
def visit (f : σ → α → α → σ × Visit) (above : α) : Forest α → σ → σ × Bool
  | nil, s => (s, true)
  | cons a kids rest, s =>
    match f s a above with
    | (s, .stop) => (s, false)
    | (s, .skip) => rest.visit f above s
    | (s, .descend) =>
      match kids.visit f a s with
      | (s, false) => (s, false)
      | (s, true) => rest.visit f above s

end Forest

end ReflectGen
