namespace ReflectGen.Text

/-- Length of a text in UTF-8 bytes, the unit of every offset and column. -/
def byteLength : List Char → Nat
  | [] => 0
  | c :: cs => c.utf8Size + byteLength cs

@[simp] theorem byteLength_nil : byteLength [] = 0 := rfl

@[simp] theorem byteLength_cons (c : Char) (cs : List Char) :
    byteLength (c :: cs) = c.utf8Size + byteLength cs := rfl

@[simp] theorem byteLength_append (xs ys : List Char) :
    byteLength (xs ++ ys) = byteLength xs + byteLength ys := by
  induction xs with
  | nil => simp
  | cons c xs ih => rw [List.cons_append, byteLength_cons, byteLength_cons, ih, Nat.add_assoc]

/-- A half-open range of byte offsets. -/
structure ByteRange where
  start : Nat
  stop : Nat
  deriving DecidableEq, Repr

def ByteRange.contains (range : ByteRange) (offset : Nat) : Bool :=
  range.start ≤ offset && offset < range.stop

/-- The text from a byte offset on, if the offset is a character boundary. -/
def dropBytes : Nat → List Char → Option (List Char)
  | 0, cs => some cs
  | _ + 1, [] => none
  | n + 1, c :: cs => if c.utf8Size ≤ n + 1 then dropBytes (n + 1 - c.utf8Size) cs else none

/-- The text before a byte offset, if the offset is a character boundary. -/
def takeBytes : Nat → List Char → Option (List Char)
  | 0, _ => some []
  | _ + 1, [] => none
  | n + 1, c :: cs =>
    if c.utf8Size ≤ n + 1 then (takeBytes (n + 1 - c.utf8Size) cs).map (c :: ·) else none

/-- The text of a byte range; empty when the range cuts a character. -/
def slice (start stop : Nat) (cs : List Char) : List Char :=
  ((dropBytes start cs).bind (takeBytes (stop - start))).getD []

/-- Row and byte column of an offset, both from zero. -/
def position : Nat → List Char → Nat × Nat
  | _, [] => (0, 0)
  | offset, c :: cs =>
    if offset < c.utf8Size then (0, offset)
    else
      match position (offset - c.utf8Size) cs with
      | (row, column) =>
        if c = '\n' then (row + 1, column)
        else if row = 0 then (0, column + c.utf8Size)
        else (row, column)

end ReflectGen.Text
