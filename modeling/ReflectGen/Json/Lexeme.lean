import ReflectGen.Text.ByteOffset

namespace ReflectGen.Json

open Text

/-- Why a JSON text cannot be read: it breaks the grammar, it ends too early, or a value has the
wrong type. The first problem counts that a reader meets which takes one character after another. -/
inductive Problem where
  | malformed
  | cutOff
  | misfit
  deriving DecidableEq, Repr

/-- What was read and the text after it. -/
abbrev Reading (α : Type) := Except Problem (α × List Char)

def isBlank (c : Char) : Bool := c == ' ' || c == '\n' || c == '\t' || c == '\r'

def skipBlanks (cs : List Char) : List Char := cs.dropWhile isBlank

/-- The problem of a text that does not go on as it must. -/
def stuck (cs : List Char) : Problem := if cs = [] then .cutOff else .malformed

/-- Reads the letters of a literal. -/
def readWord : List Char → List Char → Except Problem (List Char)
  | [], cs => .ok cs
  | _ :: _, [] => .error .cutOff
  | w :: ws, c :: cs => if w = c then readWord ws cs else .error .malformed

def hexDigit? (c : Char) : Option Nat :=
  if c.isDigit then some (c.toNat - '0'.toNat)
  else if 'a' ≤ c ∧ c ≤ 'f' then some (c.toNat - 'a'.toNat + 10)
  else if 'A' ≤ c ∧ c ≤ 'F' then some (c.toNat - 'A'.toNat + 10)
  else none

/-- The character of an escape of one letter. -/
def shortEscape? (c : Char) : Option Char :=
  match c with
  | '"' => some '"'
  | '\\' => some '\\'
  | '/' => some '/'
  | 'b' => some (Char.ofNat 8)
  | 'f' => some (Char.ofNat 12)
  | 'n' => some '\n'
  | 'r' => some '\r'
  | 't' => some '\t'
  | _ => none

def isLead (unit : Nat) : Bool := 0xd800 ≤ unit && unit ≤ 0xdbff

def isTrail (unit : Nat) : Bool := 0xdc00 ≤ unit && unit ≤ 0xdfff

/-- Where a reader stands inside a string. -/
inductive Phase where
  | plain
  | escape
  /-- `left + 1` hexadecimal digits are to come; `lead` is a surrogate before them. -/
  | hex (left value : Nat) (lead : Option Nat)
  /-- A leading surrogate waits for the backslash of the next escape. -/
  | paired (lead : Nat)
  | pairedEscape (lead : Nat)
  deriving DecidableEq, Repr

/-- What a complete escape of four digits leads to: a character, a pair to complete, or nothing
sensible. A lenient reader takes any value. -/
def afterHex (strict : Bool) (lead : Option Nat) (unit : Nat) : Option (Option Char × Phase) :=
  if !strict then some (some (Char.ofNat unit), .plain)
  else
    match lead with
    | none =>
      if isTrail unit then none
      else if isLead unit then some (none, .paired unit)
      else some (some (Char.ofNat unit), .plain)
    | some lead =>
      if isTrail unit then
        some (some (Char.ofNat (0x10000 + (lead - 0xd800) * 0x400 + (unit - 0xdc00))), .plain)
      else none

def addFirst (c : Option Char) (r : Reading (List Char)) : Reading (List Char) :=
  r.map fun (text, rest) => (c.toList ++ text, rest)

/-- An escape of four digits needs as many bytes, whatever they are. -/
def hasFourBytes (cs : List Char) : Bool := 4 ≤ byteLength (cs.take 4)

/-- Reads a string up to its closing quote, with control characters escaped. A strict reader wants
surrogates in pairs, a lenient one takes any four digits. -/
def readStringFrom (strict : Bool) : Phase → List Char → Reading (List Char)
  | _, [] => .error .cutOff
  | .plain, c :: cs =>
    if c = '"' then .ok ([], cs)
    else if c = '\\' then readStringFrom strict .escape cs
    else if c.toNat < 0x20 then .error .malformed
    else addFirst (some c) (readStringFrom strict .plain cs)
  | .escape, c :: cs =>
    if c = 'u' then
      if hasFourBytes cs then readStringFrom strict (.hex 3 0 none) cs else .error .cutOff
    else
      match shortEscape? c with
      | some d => addFirst (some d) (readStringFrom strict .plain cs)
      | none => .error .malformed
  | .hex left value lead, c :: cs =>
    match hexDigit? c, left with
    | none, _ => .error .malformed
    | some digit, left + 1 => readStringFrom strict (.hex left (16 * value + digit) lead) cs
    | some digit, 0 =>
      match afterHex strict lead (16 * value + digit) with
      | some (c, phase) => addFirst c (readStringFrom strict phase cs)
      | none => .error .malformed
  | .paired lead, c :: cs =>
    if c = '\\' then readStringFrom strict (.pairedEscape lead) cs else .error .malformed
  | .pairedEscape lead, c :: cs =>
    if c = 'u' then
      if hasFourBytes cs then readStringFrom strict (.hex 3 0 (some lead)) cs else .error .cutOff
    else .error .malformed

/-- Reads a string after its opening quote. -/
def readString (cs : List Char) : Reading (List Char) := readStringFrom true .plain cs

/-- Passes over a string after its opening quote. -/
def skipString (cs : List Char) : Except Problem (List Char) :=
  (readStringFrom false .plain cs).map (·.2)

/-- A decimal number: its digits and the power of ten of the last one. -/
structure Numeral where
  digits : List Char
  scale : Int
  deriving DecidableEq, Repr

def digitRun (cs : List Char) : Reading (List Char) :=
  match cs.takeWhile Char.isDigit with
  | [] => .error (stuck cs)
  | digits => .ok (digits, cs.dropWhile Char.isDigit)

/-- The digits before the point; a zero stands alone. -/
def readWhole (cs : List Char) : Reading (List Char) :=
  match cs with
  | '0' :: rest =>
    if (rest.head?.any Char.isDigit) then .error .malformed else .ok (['0'], rest)
  | _ => digitRun cs

def readFraction (cs : List Char) : Reading (List Char) :=
  match cs with
  | '.' :: rest => digitRun rest
  | _ => .ok ([], cs)

def naturalValue (digits : List Char) : Nat :=
  digits.foldl (fun n c => 10 * n + (c.toNat - '0'.toNat)) 0

def readExponent (cs : List Char) : Reading Int :=
  let magnitude := fun (sign : Int) (rest : List Char) =>
    (digitRun rest).map fun (digits, rest) => (sign * naturalValue digits, rest)
  let signed := fun (rest : List Char) =>
    match rest with
    | '+' :: rest => magnitude 1 rest
    | '-' :: rest => magnitude (-1) rest
    | rest => magnitude 1 rest
  match cs with
  | 'e' :: rest => signed rest
  | 'E' :: rest => signed rest
  | _ => .ok (0, cs)

/-- Reads a number after its sign. -/
def readNumber (cs : List Char) : Except Problem (Numeral × List Char) := do
  let (whole, cs) ← readWhole cs
  let (fraction, cs) ← readFraction cs
  let (exponent, cs) ← readExponent cs
  return (⟨whole ++ fraction, exponent - fraction.length⟩, cs)

/-- Whether a number lies past every finite double. -/
def Numeral.isHuge (n : Numeral) : Bool :=
  let digits := n.digits.dropWhile (· == '0')
  let bound := Nat.pow 2 1024 - Nat.pow 2 970
  if digits = [] then false
  else if 310 ≤ digits.length + n.scale then true
  else if digits.length + n.scale ≤ 308 then false
  else
    match n.scale with
    | .ofNat k => bound ≤ naturalValue digits * Nat.pow 10 k
    | .negSucc k => bound * Nat.pow 10 (k + 1) ≤ naturalValue digits

/-- Passes over a number after its sign; none may break off. -/
def skipNumber (cs : List Char) : Except Problem (List Char) :=
  match readNumber cs with
  | .ok (_, rest) => .ok rest
  | .error _ => .error .malformed

end ReflectGen.Json
