namespace ReflectGen.Text

def encode (text : String) : List UInt8 := text.toUTF8.data.toList

def isTail (b : UInt8) : Bool := 0x80 ≤ b && b ≤ 0xbf

/-- Whether `b` may follow the lead byte `lead` of a three-byte character: no overlong forms and
no surrogates. -/
def isSecondOfThree (lead b : UInt8) : Bool :=
  (if lead = 0xe0 then 0xa0 else 0x80) ≤ b && b ≤ (if lead = 0xed then 0x9f else 0xbf)

/-- Whether `b` may follow the lead byte `lead` of a four-byte character: no overlong forms and
nothing past the last code point. -/
def isSecondOfFour (lead b : UInt8) : Bool :=
  (if lead = 0xf0 then 0x90 else 0x80) ≤ b && b ≤ (if lead = 0xf4 then 0x8f else 0xbf)

def joinBits (lead : Nat) (tails : List UInt8) : Char :=
  Char.ofNat (tails.foldl (fun acc b => acc * 64 + b.toNat % 64) lead)

/-- Characters of a byte sequence. Each maximal start of a character that does not go on as one,
and each byte that starts none, counts as one failure. -/
def decodePieces : List UInt8 → List (Option Char)
  | [] => []
  | a :: r =>
    if a < 0x80 then some (Char.ofNat a.toNat) :: decodePieces r
    else if 0xc2 ≤ a && a ≤ 0xdf then
      match r with
      | b :: r₁ =>
        if isTail b then some (joinBits (a.toNat % 32) [b]) :: decodePieces r₁
        else none :: decodePieces (b :: r₁)
      | [] => [none]
    else if 0xe0 ≤ a && a ≤ 0xef then
      match r with
      | b :: r₁ =>
        if isSecondOfThree a b then
          match r₁ with
          | c :: r₂ =>
            if isTail c then some (joinBits (a.toNat % 16) [b, c]) :: decodePieces r₂
            else none :: decodePieces (c :: r₂)
          | [] => [none]
        else none :: decodePieces (b :: r₁)
      | [] => [none]
    else if 0xf0 ≤ a && a ≤ 0xf4 then
      match r with
      | b :: r₁ =>
        if isSecondOfFour a b then
          match r₁ with
          | c :: r₂ =>
            if isTail c then
              match r₂ with
              | d :: r₃ =>
                if isTail d then some (joinBits (a.toNat % 8) [b, c, d]) :: decodePieces r₃
                else none :: decodePieces (d :: r₃)
              | [] => [none]
            else none :: decodePieces (c :: r₂)
          | [] => [none]
        else none :: decodePieces (b :: r₁)
      | [] => [none]
    else none :: decodePieces r

/-- The text of a byte sequence, if it is well formed. -/
def decode? (bytes : List UInt8) : Option (List Char) := (decodePieces bytes).mapM id

/-- The text of a byte sequence with the replacement character for each failure. -/
def decodeLossy (bytes : List UInt8) : List Char :=
  (decodePieces bytes).map fun c => c.getD (Char.ofNat 0xfffd)

end ReflectGen.Text
