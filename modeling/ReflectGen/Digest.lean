namespace ReflectGen.Digest

/-- The five chaining words of SHA-1. -/
structure Chain where
  a : UInt32
  b : UInt32
  c : UInt32
  d : UInt32
  e : UInt32
  deriving DecidableEq

def init : Chain := ⟨0x67452301, 0xefcdab89, 0x98badcfe, 0x10325476, 0xc3d2e1f0⟩

def rotateLeft (x n : UInt32) : UInt32 := (x <<< n) ||| (x >>> (32 - n))

/-- Big-endian bytes of `n`, `width` of them. -/
def bigEndian : Nat → Nat → List UInt8
  | 0, _ => []
  | width + 1, n => bigEndian width (n / 256) ++ [UInt8.ofNat (n % 256)]

/-- The message with its padding: a one bit, zeros, and the bit length in eight bytes. -/
def pad (bytes : List UInt8) : List UInt8 :=
  bytes ++ 0x80 :: List.replicate ((119 - bytes.length % 64) % 64) 0 ++
    bigEndian 8 (8 * bytes.length)

def words : List UInt8 → List UInt32
  | a :: b :: c :: d :: r =>
    (a.toUInt32 <<< 24 ||| b.toUInt32 <<< 16 ||| c.toUInt32 <<< 8 ||| d.toUInt32) :: words r
  | _ => []

/-- The message schedule, latest word first, after `n` more words. -/
def extend : Nat → List UInt32 → List UInt32
  | 0, ws => ws
  | n + 1, ws =>
    let w := rotateLeft (ws.getD 2 0 ^^^ ws.getD 7 0 ^^^ ws.getD 13 0 ^^^ ws.getD 15 0) 1
    extend n (w :: ws)

def mix (i : Nat) (b c d : UInt32) : UInt32 :=
  if i < 20 then ((b &&& c) ||| (~~~b &&& d)) + 0x5a827999
  else if i < 40 then (b ^^^ c ^^^ d) + 0x6ed9eba1
  else if i < 60 then ((b &&& c) ||| (b &&& d) ||| (c &&& d)) + 0x8f1bbcdc
  else (b ^^^ c ^^^ d) + 0xca62c1d6

def rounds : Nat → List UInt32 → Chain → Chain
  | _, [], s => s
  | i, w :: ws, s =>
    let t := rotateLeft s.a 5 + mix i s.b s.c s.d + s.e + w
    rounds (i + 1) ws ⟨t, s.a, rotateLeft s.b 30, s.c, s.d⟩

/-- One block of sixteen words. -/
def compress (s : Chain) (block : List UInt32) : Chain :=
  let t := rounds 0 (extend 64 block.reverse).reverse s
  ⟨s.a + t.a, s.b + t.b, s.c + t.c, s.d + t.d, s.e + t.e⟩

/-- Feeds one word; a block is taken in when its last word arrives. -/
def feed (state : Chain × List UInt32) (w : UInt32) : Chain × List UInt32 :=
  let block := state.2 ++ [w]
  if block.length = 16 then (compress state.1 block, []) else (state.1, block)

def hexDigits (b : UInt8) : List Char :=
  let digit := fun (n : Nat) => if n < 10 then Char.ofNat (48 + n) else Char.ofNat (87 + n)
  [digit (b.toNat / 16), digit (b.toNat % 16)]

/-- The SHA-1 digest of a byte sequence in lower-case hexadecimal digits. The padded message is fed
word by word, and each block of sixteen words is mixed into the chain in eighty rounds. -/
def hex (bytes : List UInt8) : String :=
  let s := ((words (pad bytes)).foldl feed (init, [])).1
  String.ofList (([s.a, s.b, s.c, s.d, s.e].flatMap fun w => bigEndian 4 w.toNat).flatMap hexDigits)

example : hex [97, 98, 99] = "a9993e364706816aba3e25717850c26c9cd0d89d" := by
  decide +kernel

end ReflectGen.Digest
