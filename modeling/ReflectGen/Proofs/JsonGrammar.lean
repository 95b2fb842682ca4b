import ReflectGen.Json.Value

namespace ReflectGen.Json

/-- A run of blanks, which may stand between any two parts of a text. -/
def Blank (cs : List Char) : Prop := ∀ c ∈ cs, c ∈ [' ', '\t', '\n', '\r']

instance (cs : List Char) : Decidable (Blank cs) := List.decidableBAll _ cs

theorem Blank.nil : Blank [] := List.forall_mem_nil _

section Strings

/-- A hexadecimal digit and its value. -/
inductive HexDigit (c : Char) (value : Nat) : Prop
  | lower (h : "0123456789abcdef".toList[value]? = some c)
  | upper (h : "0123456789ABCDEF".toList[value]? = some c)

/-- Four hexadecimal digits and the number they make up. -/
inductive HexUnit : List Char → Nat → Prop
  | four {a b c d : Char} {i j k l : Nat} (ha : HexDigit a i) (hb : HexDigit b j)
      (hc : HexDigit c k) (hd : HexDigit d l) :
      HexUnit [a, b, c, d] (4096 * i + 256 * j + 16 * k + l)

/-- The letters behind a backslash and the characters they are for. -/
def shortEscapes : List (Char × Char) :=
  [('"', '"'), ('\\', '\\'), ('/', '/'), ('b', Char.ofNat 8), ('f', Char.ofNat 12), ('n', '\n'),
    ('r', '\r'), ('t', '\t')]

/-- A character that stands for itself in a string. -/
structure Plain (c : Char) : Prop where
  quote : c ≠ '"'
  backslash : c ≠ '\\'
  control : 0x20 ≤ c.toNat

/-- What may stand between the quotes of a string. -/
inductive StringText : List Char → Prop
  | empty : StringText []
  | plain {c : Char} {text : List Char} (h : Plain c) (rest : StringText text) :
      StringText (c :: text)
  | short {e c : Char} {text : List Char} (h : (e, c) ∈ shortEscapes) (rest : StringText text) :
      StringText ('\\' :: e :: text)
  | unit {digits text : List Char} {n : Nat} (h : HexUnit digits n) (rest : StringText text) :
      StringText ('\\' :: 'u' :: (digits ++ text))

/-- What stands between the quotes of a string, and the text it is for. -/
inductive Spells : List Char → List Char → Prop
  | empty : Spells [] []
  | plain {c : Char} {text value : List Char} (h : Plain c) (rest : Spells text value) :
      Spells (c :: text) (c :: value)
  | short {e c : Char} {text value : List Char} (h : (e, c) ∈ shortEscapes)
      (rest : Spells text value) : Spells ('\\' :: e :: text) (c :: value)
  | unit {c : Char} {digits text value : List Char} (h : HexUnit digits c.toNat)
      (rest : Spells text value) : Spells ('\\' :: 'u' :: (digits ++ text)) (c :: value)
  /-- A character past the first plane, by two units of ten bits each. -/
  | pair {c : Char} {lead trail text value : List Char} {high low : Nat}
      (code : c.toNat = 0x10000 + 0x400 * high + low) (bits : low < 0x400)
      (hl : HexUnit lead (0xd800 + high)) (ht : HexUnit trail (0xdc00 + low))
      (rest : Spells text value) :
      Spells ('\\' :: 'u' :: (lead ++ '\\' :: 'u' :: (trail ++ text))) (c :: value)

theorem Spells.stringText {text value : List Char} (h : Spells text value) : StringText text := by
  induction h with
  | empty => exact .empty
  | plain h _ ih => exact .plain h ih
  | short h _ ih => exact .short h ih
  | unit h _ ih => exact .unit h ih
  | pair _ _ hl ht _ ih => exact .unit hl (.unit ht ih)

def quoted (text : List Char) : List Char := '"' :: (text ++ ['"'])

end Strings

section Numbers

def Digits (ds : List Char) : Prop := ds ≠ [] ∧ ∀ c ∈ ds, c.isDigit

inductive Whole : List Char → Prop
  | zero : Whole ['0']
  | digits {d : Char} {ds : List Char} (first : d ≠ '0') (h : Digits (d :: ds)) : Whole (d :: ds)

inductive Fraction : List Char → Prop
  | absent : Fraction []
  | present {ds : List Char} (h : Digits ds) : Fraction ('.' :: ds)

inductive Exponent : List Char → Prop
  | absent : Exponent []
  | present {e : Char} {sign ds : List Char} (letter : e = 'e' ∨ e = 'E')
      (signed : sign = [] ∨ sign = ['+'] ∨ sign = ['-']) (h : Digits ds) :
      Exponent (e :: (sign ++ ds))

/-- A number without its sign. -/
inductive Magnitude : List Char → Prop
  | parts {whole fraction exponent : List Char} (hw : Whole whole) (hf : Fraction fraction)
      (he : Exponent exponent) : Magnitude (whole ++ (fraction ++ exponent))

end Numbers

section Values

/-- A text with blanks around it. -/
structure Padded where
  before : List Char
  text : List Char
  after : List Char
  blank_before : Blank before
  blank_after : Blank after

def Padded.spelled (p : Padded) : List Char := p.before ++ (p.text ++ p.after)

/-- A member of an object. Of its key this is what stands between the quotes. -/
structure Member where
  key : Padded
  value : Padded

def Member.spelled (m : Member) : List Char :=
  m.key.before ++ (quoted m.key.text ++ (m.key.after ++ ':' :: m.value.spelled))

/-- Parts between brackets, divided by commas. The blanks in front are all there is where there are
no parts. -/
def enclosed (opening closing : Char) (blanks : List Char) (parts : List (List Char)) : List Char :=
  opening :: (blanks ++ ([','].intercalate parts ++ [closing]))

def listText (blanks : List Char) (items : List Padded) : List Char :=
  enclosed '[' ']' blanks (items.map Padded.spelled)

def objectText (blanks : List Char) (members : List Member) : List Char :=
  enclosed '\x7b' '\x7d' blanks (members.map Member.spelled)

/-- The texts of well-formed values, of any depth. -/
inductive IsValue : List Char → Prop
  | null : IsValue "null".toList
  | true : IsValue "true".toList
  | false : IsValue "false".toList
  | string {text : List Char} (h : StringText text) : IsValue (quoted text)
  | positive {text : List Char} (h : Magnitude text) : IsValue text
  | negative {text : List Char} (h : Magnitude text) : IsValue ('-' :: text)
  | list {blanks : List Char} {items : List Padded} (blank : Blank blanks)
      (each : ∀ item ∈ items, IsValue item.text) : IsValue (listText blanks items)
  | object {blanks : List Char} {members : List Member} (blank : Blank blanks)
      (keys : ∀ m ∈ members, StringText m.key.text)
      (each : ∀ m ∈ members, IsValue m.value.text) : IsValue (objectText blanks members)

end Values

end ReflectGen.Json
