import Mathlib.Data.List.Range
import ReflectGen.Digest

namespace ReflectGen

namespace Sha1

abbrev Word := BitVec 32

/-- A number in eight bytes, the highest one first. -/
def eightBytes (n : Nat) : List UInt8 :=
  (List.range 8).map fun i => UInt8.ofNat (n >>> (8 * (7 - i)))

/-- The message with a one bit, the zeros that are missing to whole blocks of 64 bytes, and its
length in bits. -/
def padded (message : List UInt8) : List UInt8 :=
  message ++ 0x80 :: List.replicate ((64 - (message.length + 9) % 64) % 64) 0 ++
    eightBytes (8 * message.length)

/-- The word numbered `k` of some bytes, its first byte the highest. -/
def word (bytes : List UInt8) (k : Nat) : Word :=
  (bytes.getD (4 * k) 0).toBitVec ++ (bytes.getD (4 * k + 1) 0).toBitVec ++
    (bytes.getD (4 * k + 2) 0).toBitVec ++ (bytes.getD (4 * k + 3) 0).toBitVec

/-- The word that round `t` works on. -/
def schedule (block : Nat → Word) (t : Nat) : Word :=
  if t < 16 then block t
  else
    (schedule block (t - 3) ^^^ schedule block (t - 8) ^^^ schedule block (t - 14) ^^^
      schedule block (t - 16)).rotateLeft 1

def choose (x y z : Word) : Word := (x &&& y) ^^^ (~~~x &&& z)

def parity (x y z : Word) : Word := x ^^^ y ^^^ z

def majority (x y z : Word) : Word := (x &&& y) ^^^ (x &&& z) ^^^ (y &&& z)

/-- The function of round `t`. -/
def logical (t : Nat) : Word → Word → Word → Word :=
  if t < 20 then choose else if t < 40 then parity else if t < 60 then majority else parity

/-- The constant of round `t`. -/
def constant (t : Nat) : Word :=
  if t < 20 then 0x5a827999 else if t < 40 then 0x6ed9eba1
  else if t < 60 then 0x8f1bbcdc else 0xca62c1d6

structure Registers where
  a : Word
  b : Word
  c : Word
  d : Word
  e : Word
  deriving DecidableEq

def initial : Registers := ⟨0x67452301, 0xefcdab89, 0x98badcfe, 0x10325476, 0xc3d2e1f0⟩

def round (words : Nat → Word) (s : Registers) (t : Nat) : Registers :=
  ⟨s.a.rotateLeft 5 + logical t s.b s.c s.d + s.e + constant t + words t, s.a, s.b.rotateLeft 30,
    s.c, s.d⟩

def Registers.add (s r : Registers) : Registers :=
  ⟨s.a + r.a, s.b + r.b, s.c + r.c, s.d + r.d, s.e + r.e⟩

/-- Takes in a block of sixteen words. -/
def compress (s : Registers) (block : Nat → Word) : Registers :=
  s.add ((List.range 80).foldl (round (schedule block)) s)

def hash (message : List UInt8) : Registers :=
  (List.range ((padded message).length / 64)).foldl
    (fun s i => compress s fun t => word (padded message) (16 * i + t)) initial

/-- A word in hexadecimal digits. -/
def digits (w : Word) : List Char :=
  (List.range 8).map fun i => Nat.digitChar ((w >>> (4 * (7 - i))).toNat % 16)

/-- The digest of a message in hexadecimal digits. -/
def hex (message : List UInt8) : String :=
  let s := hash message
  String.ofList ([s.a, s.b, s.c, s.d, s.e].flatMap digits)

end Sha1

namespace Digest

open Sha1 (Word Registers)

def Chain.registers (s : Chain) : Registers :=
  ⟨s.a.toBitVec, s.b.toBitVec, s.c.toBitVec, s.d.toBitVec, s.e.toBitVec⟩

section Words

end Words

section Block

variable {block : Nat → Word}

end Block

section Blocks

end Blocks

section Hex

end Hex

end Digest

end ReflectGen
