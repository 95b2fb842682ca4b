import Mathlib.Data.List.Basic
import ReflectGen.Text.Utf8

namespace ReflectGen.Text

section Encode

theorem encode_ofList (cs : List Char) :
    encode (String.ofList cs) = cs.flatMap String.utf8EncodeChar := by
  rw [encode, String.toUTF8_eq_toByteArray, String.toByteArray_ofList, List.utf8Encode,
    List.data_toByteArray]

theorem encode_injective {a b : String} (h : encode a = encode b) : a = b := by
  have bytes : a.toUTF8 = b.toUTF8 := ByteArray.ext (Array.toList_inj.mp h)
  rwa [String.toUTF8_eq_toByteArray, String.toUTF8_eq_toByteArray, String.toByteArray_inj] at bytes

end Encode

section Characters

theorem toNat_ofNat {n : Nat} (valid : n.isValidChar) : (Char.ofNat n).val.toNat = n := by
  rw [Char.ofNat, dif_pos valid]
  rfl

theorem eq_ofNat {c : Char} {n : Nat} (h : n = c.val.toNat) : Char.ofNat n = c := by
  rw [h]
  exact Char.ofNat_toNat c

theorem ofNat_eq {n : Nat} {b : UInt8} (h : n % 256 = b.toNat) : UInt8.ofNat n = b :=
  UInt8.toNat_inj.mp (UInt8.toNat_ofNat'.trans h)

theorem isTail_iff {b : UInt8} : isTail b ↔ 0x80 ≤ b.toNat ∧ b.toNat ≤ 0xbf := by
  rw [isTail, Bool.and_eq_true, decide_eq_true_iff, decide_eq_true_iff]
  rfl

/-- After one lead byte the least tails are excluded, after another one the greatest. -/
theorem narrowed_iff {a b first least last greatest : UInt8} (low : 0x80 ≤ least.toNat)
    (high : greatest.toNat ≤ 0xbf) :
    ((if a = first then least else 0x80) ≤ b && b ≤ (if a = last then greatest else 0xbf)) ↔
      (0x80 ≤ b.toNat ∧ b.toNat ≤ 0xbf) ∧ (a.toNat = first.toNat → least.toNat ≤ b.toNat) ∧
        (a.toNat = last.toNat → b.toNat ≤ greatest.toNat) := by
  rw [Bool.and_eq_true, decide_eq_true_iff, decide_eq_true_iff, UInt8.le_iff_toNat_le,
    UInt8.le_iff_toNat_le]
  simp only [← UInt8.toNat_inj, apply_ite UInt8.toNat, UInt8.reduceToNat]
  split <;> split <;> omega

theorem isSecondOfThree_iff {a b : UInt8} :
    isSecondOfThree a b ↔ (0x80 ≤ b.toNat ∧ b.toNat ≤ 0xbf) ∧
      (a.toNat = 0xe0 → 0xa0 ≤ b.toNat) ∧ (a.toNat = 0xed → b.toNat ≤ 0x9f) :=
  narrowed_iff (by decide) (by decide)

theorem isSecondOfFour_iff {a b : UInt8} :
    isSecondOfFour a b ↔ (0x80 ≤ b.toNat ∧ b.toNat ≤ 0xbf) ∧
      (a.toNat = 0xf0 → 0x90 ≤ b.toNat) ∧ (a.toNat = 0xf4 → b.toNat ≤ 0x8f) :=
  narrowed_iff (by decide) (by decide)

/-- The bytes of one character, by the number of them. -/
inductive Form : List UInt8 → Char → Prop
  | one (a : UInt8) : a.toNat < 0x80 → Form [a] (Char.ofNat a.toNat)
  | two (a b : UInt8) : 0xc2 ≤ a.toNat ∧ a.toNat ≤ 0xdf → isTail b →
      Form [a, b] (joinBits (a.toNat % 32) [b])
  | three (a b c : UInt8) : 0xe0 ≤ a.toNat ∧ a.toNat ≤ 0xef → isSecondOfThree a b → isTail c →
      Form [a, b, c] (joinBits (a.toNat % 16) [b, c])
  | four (a b c d : UInt8) : 0xf0 ≤ a.toNat ∧ a.toNat ≤ 0xf4 → isSecondOfFour a b → isTail c →
      isTail d → Form [a, b, c, d] (joinBits (a.toNat % 8) [b, c, d])

/-- They are those by which the character is encoded. -/
theorem Form.encodeChar {chunk : List UInt8} {x : Char} (h : Form chunk x) :
    String.utf8EncodeChar x = chunk := by
  cases h with
  | one a low =>
    have value := toNat_ofNat (n := a.toNat) (.inl (by omega))
    simp only [String.utf8EncodeChar, value]
    rw [if_pos (by omega), UInt8.ofNat_toNat]
  | two a b lead tail =>
    rw [isTail_iff] at tail
    have value := toNat_ofNat (n := a.toNat % 32 * 64 + b.toNat % 64) (.inl (by omega))
    simp only [joinBits, List.foldl_cons, List.foldl_nil, String.utf8EncodeChar, value]
    rw [if_neg (by omega), if_pos (by omega), ofNat_eq (b := a) (by omega),
      ofNat_eq (b := b) (by omega)]
  | three a b c lead second tail =>
    rw [isTail_iff] at tail
    rw [isSecondOfThree_iff] at second
    have value := toNat_ofNat
      (n := (a.toNat % 16 * 64 + b.toNat % 64) * 64 + c.toNat % 64) (by
        unfold Nat.isValidChar
        omega)
    simp only [joinBits, List.foldl_cons, List.foldl_nil, String.utf8EncodeChar, value]
    rw [if_neg (by omega), if_neg (by omega), if_pos (by omega), ofNat_eq (b := a) (by omega),
      ofNat_eq (b := b) (by omega), ofNat_eq (b := c) (by omega)]
  | four a b c d lead second tail tail' =>
    rw [isTail_iff] at tail tail'
    rw [isSecondOfFour_iff] at second
    have value := toNat_ofNat
      (n := ((a.toNat % 8 * 64 + b.toNat % 64) * 64 + c.toNat % 64) * 64 + d.toNat % 64) (by
        unfold Nat.isValidChar
        omega)
    simp only [joinBits, List.foldl_cons, List.foldl_nil, String.utf8EncodeChar, value]
    rw [if_neg (by omega), if_neg (by omega), if_neg (by omega), ofNat_eq (b := a) (by omega),
      ofNat_eq (b := b) (by omega), ofNat_eq (b := c) (by omega), ofNat_eq (b := d) (by omega)]

/-- Each character has such bytes. -/
theorem form_encodeChar (x : Char) : Form (String.utf8EncodeChar x) x := by
  have valid : x.val.toNat.isValidChar := x.valid
  have tail (n : Nat) : isTail (UInt8.ofNat (n % 64 + 128)) := by
    rw [isTail_iff, UInt8.toNat_ofNat']
    omega
  have joins {n : Nat} {chunk : List UInt8} (same : n = x.val.toNat)
      (form : Form chunk (Char.ofNat n)) : Form chunk x := eq_ofNat same ▸ form
  unfold Nat.isValidChar at valid
  simp only [String.utf8EncodeChar]
  generalize value : x.val.toNat = v at *
  split
  · refine joins ?_ (.one _ ?_) <;> rw [UInt8.toNat_ofNat'] <;> omega
  · split
    · refine joins ?_ (.two _ _ ?_ (tail _)) <;>
        simp only [List.foldl_cons, List.foldl_nil, UInt8.toNat_ofNat'] <;> omega
    · split
      · refine joins ?_ (.three _ _ _ ?_ ?_ (tail _)) <;>
          simp only [isSecondOfThree_iff, List.foldl_cons, List.foldl_nil, UInt8.toNat_ofNat']
        all_goals omega
      · refine joins ?_ (.four _ _ _ _ ?_ ?_ (tail _) (tail _)) <;>
          simp only [isSecondOfFour_iff, List.foldl_cons, List.foldl_nil, UInt8.toNat_ofNat']
        all_goals omega

end Characters

section Decode

/-- What the bytes are cut into: those of a character give the character, others a failure. -/
inductive Decoded : List UInt8 → List (Option Char) → Prop
  | nil : Decoded [] []
  | char {chunk rest : List UInt8} {x : Char} {pieces : List (Option Char)} :
      Form chunk x → Decoded rest pieces → Decoded (chunk ++ rest) (some x :: pieces)
  | failure (a : UInt8) (tails : List UInt8) {rest : List UInt8} {pieces : List (Option Char)} :
      Decoded rest pieces → Decoded (a :: tails ++ rest) (none :: pieces)

theorem between_iff {low high a : UInt8} :
    (low ≤ a && a ≤ high) ↔ low.toNat ≤ a.toNat ∧ a.toNat ≤ high.toNat := by
  rw [Bool.and_eq_true, decide_eq_true_iff, decide_eq_true_iff, UInt8.le_iff_toNat_le,
    UInt8.le_iff_toNat_le]

theorem decoded (bytes : List UInt8) : Decoded bytes (decodePieces bytes) := by
  fun_induction decodePieces bytes with
  | case1 => exact .nil
  | case2 a r low ih => exact .char (.one a (UInt8.lt_iff_toNat_lt.mp low)) ih
  | case3 a _ lead b r tail ih => exact .char (.two a b (between_iff.mp lead) tail) ih
  | case6 a _ _ lead b second c r tail ih =>
    exact .char (.three a b c (between_iff.mp lead) second tail) ih
  | case11 a _ _ _ lead b second c tail d r tail' ih =>
    exact .char (.four a b c d (between_iff.mp lead) second tail tail') ih
  -- The rest are starts of a character that end too early, by how much of one there is.
  | case5 a | case10 a | case17 a => exact .failure a [] .nil
  | case4 a _ _ _ _ _ ih => exact .failure a [] ih
  | case9 a _ _ _ _ _ _ ih => exact .failure a [] ih
  | case16 a _ _ _ _ _ _ _ ih => exact .failure a [] ih
  | case18 a _ _ _ _ _ ih => exact .failure a [] ih
  | case8 a _ _ _ b => exact .failure a [b] .nil
  | case15 a _ _ _ _ b => exact .failure a [b] .nil
  | case7 a _ _ _ b _ _ _ _ ih => exact .failure a [b] ih
  | case14 a _ _ _ _ b _ _ _ _ ih => exact .failure a [b] ih
  | case13 a _ _ _ _ b _ c => exact .failure a [b, c] .nil
  | case12 a _ _ _ _ b _ c _ _ _ _ ih => exact .failure a [b, c] ih

theorem not_between {low high a : UInt8} (h : high.toNat < a.toNat) :
    ¬ (low ≤ a && a ≤ high) := by
  intro between
  have := (between_iff.mp between).2
  omega

theorem not_ascii {a : UInt8} (h : 0x80 ≤ a.toNat) : ¬ a < 0x80 :=
  fun low => absurd (UInt8.lt_iff_toNat_lt.mp low) (Nat.not_lt.mpr h)

/-- The bytes of a character are read as it. -/
theorem decodePieces_form {chunk : List UInt8} {x : Char} (h : Form chunk x) (rest : List UInt8) :
    decodePieces (chunk ++ rest) = some x :: decodePieces rest := by
  cases h with
  | one a low =>
    rw [List.singleton_append, decodePieces.eq_def]
    exact if_pos (UInt8.lt_iff_toNat_lt.mpr low)
  | two a b lead tail =>
    have high : ¬ a < 0x80 := not_ascii (by omega)
    have two : 0xc2 ≤ a && a ≤ 0xdf := between_iff.mpr lead
    rw [List.cons_append, List.singleton_append, decodePieces.eq_def]
    simp only [if_neg high, if_pos two, if_pos tail]
  | three a b c lead second tail =>
    have high : ¬ a < 0x80 := not_ascii (by omega)
    have notTwo : ¬ (0xc2 ≤ a && a ≤ 0xdf) := not_between (Nat.lt_of_lt_of_le (by decide) lead.1)
    have three : 0xe0 ≤ a && a ≤ 0xef := between_iff.mpr lead
    rw [List.cons_append, List.cons_append, List.singleton_append, decodePieces.eq_def]
    simp only [if_neg high, if_neg notTwo, if_pos three, if_pos second, if_pos tail]
  | four a b c d lead second tail tail' =>
    have high : ¬ a < 0x80 := not_ascii (by omega)
    have notTwo : ¬ (0xc2 ≤ a && a ≤ 0xdf) := not_between (Nat.lt_of_lt_of_le (by decide) lead.1)
    have notThree : ¬ (0xe0 ≤ a && a ≤ 0xef) := not_between (Nat.lt_of_lt_of_le (by decide) lead.1)
    have four : 0xf0 ≤ a && a ≤ 0xf4 := between_iff.mpr lead
    rw [List.cons_append, List.cons_append, List.cons_append, List.singleton_append,
      decodePieces.eq_def]
    simp only [if_neg high, if_neg notTwo, if_neg notThree, if_pos four, if_pos second,
      if_pos tail, if_pos tail']

/-- A text is read back from its bytes. -/
theorem decodeLossy_encode (cs : List Char) : decodeLossy (encode (String.ofList cs)) = cs := by
  rw [encode_ofList, decodeLossy]
  induction cs with
  | nil => rfl
  | cons x cs ih =>
    rw [List.flatMap_cons, decodePieces_form (form_encodeChar x), List.map_cons, ih]
    rfl

end Decode

section Replaced

/-- The bytes after every failure was replaced. -/
def repaired (bytes : List UInt8) : List UInt8 := encode (String.ofList (decodeLossy bytes))

theorem repaired_eq (bytes : List UInt8) :
    repaired bytes = (decodePieces bytes).flatMap fun piece =>
      String.utf8EncodeChar (piece.getD (Char.ofNat 0xfffd)) := by
  rw [repaired, encode_ofList, decodeLossy, List.flatMap_map]

/-- Just the bytes of a text stay as they are. -/
theorem repaired_eq_self_iff {bytes : List UInt8} :
    repaired bytes = bytes ↔ ∃ text, encode text = bytes := by
  constructor
  · intro same
    exact ⟨_, same⟩
  · rintro ⟨text, rfl⟩
    rw [repaired, ← String.ofList_toList (s := text), decodeLossy_encode]

instance (bytes : List UInt8) : Decidable (∃ text, encode text = bytes) :=
  decidable_of_iff _ repaired_eq_self_iff

theorem encodeChar_replacement :
    String.utf8EncodeChar (Char.ofNat 0xfffd) = [0xef, 0xbf, 0xbd] := by
  decide +kernel

/-- A replacement brings no byte of a single-byte character. -/
theorem mem_of_mem_repaired {bytes : List UInt8} {b : UInt8} (low : b.toNat < 0x80)
    (h : b ∈ repaired bytes) : b ∈ bytes := by
  rw [repaired_eq] at h
  have cut := decoded bytes
  generalize decodePieces bytes = pieces at cut h
  induction cut with
  | nil => cases h
  | char form _ ih =>
    rw [List.flatMap_cons, List.mem_append] at h
    refine List.mem_append.mpr (h.imp (fun mem => ?_) ih)
    rwa [← form.encodeChar]
  | failure a tails _ ih =>
    rw [List.flatMap_cons, List.mem_append] at h
    rcases h with mem | mem
    · rw [Option.getD_none, encodeChar_replacement] at mem
      simp only [List.mem_cons, List.not_mem_nil, or_false] at mem
      rcases mem with rfl | rfl | rfl <;> exact absurd low (by decide)
    · exact List.mem_append_right _ (ih mem)

/-- Where only such bytes remain, nothing was replaced. -/
theorem eq_of_repaired_low {bytes : List UInt8} (low : ∀ b ∈ repaired bytes, b.toNat < 0x80) :
    repaired bytes = bytes := by
  rw [repaired_eq] at low ⊢
  have cut := decoded bytes
  generalize decodePieces bytes = pieces at cut low
  induction cut with
  | nil => rfl
  | char form _ ih =>
    rw [List.flatMap_cons, List.forall_mem_append] at low
    rw [List.flatMap_cons, ih low.2, Option.getD_some, form.encodeChar]
  | failure a tails _ ih =>
    rw [List.flatMap_cons, List.forall_mem_append, Option.getD_none, encodeChar_replacement] at low
    exact absurd (low.1 0xef List.mem_cons_self) (by decide)

end Replaced

end ReflectGen.Text
