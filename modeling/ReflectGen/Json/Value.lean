import ReflectGen.Json.Lexeme

namespace ReflectGen.Json

/-- The problem of a value, at the start of a text, whose type is not the wanted one. What is wrong
with the value itself counts first; lists and objects are not looked into. -/
def misfitOf (cs : List Char) : Problem :=
  let after := fun (r : Except Problem (List Char)) =>
    match r with
    | .ok _ => Problem.misfit
    | .error p => p
  let number := fun (cs : List Char) =>
    match readNumber cs with
    | .ok (n, _) => if n.isHuge then Problem.malformed else .misfit
    | .error p => p
  match cs with
  | [] => .cutOff
  | c :: rest =>
    if c = 'n' then after (readWord "ull".toList rest)
    else if c = 't' then after (readWord "rue".toList rest)
    else if c = 'f' then after (readWord "alse".toList rest)
    else if c = '"' then after ((readString rest).map (·.2))
    else if c = '[' ∨ c = '\x7b' then .misfit
    else if c = '-' then number rest
    else if c.isDigit then number cs
    else .malformed

/-- Goes to the next item of a list, or past its end. -/
def nextItem? (first : Bool) (cs : List Char) : Reading Bool :=
  match skipBlanks cs with
  | [] => .error .cutOff
  | c :: rest =>
    if c = ']' then .ok (false, rest)
    else if first then .ok (true, c :: rest)
    else if c = ',' then
      match skipBlanks rest with
      | [] => .error .cutOff
      | d :: rest => if d = ']' then .error .malformed else .ok (true, d :: rest)
    else .error .malformed

/-- Goes to the text of the next key of an object, behind its opening quote, or past the end. -/
def nextKey? (first : Bool) (cs : List Char) : Reading Bool :=
  let quoted := fun (cs : List Char) =>
    match cs with
    | '"' :: rest => Except.ok (true, rest)
    | cs => .error (stuck cs)
  match skipBlanks cs with
  | [] => .error .cutOff
  | c :: rest =>
    if c = '\x7d' then .ok (false, rest)
    else if first then quoted (c :: rest)
    else if c = ',' then quoted (skipBlanks rest)
    else .error .malformed

/-- Passes over the colon between a key and its value. -/
def skipColon (cs : List Char) : Except Problem (List Char) :=
  match skipBlanks cs with
  | ':' :: rest => .ok rest
  | cs => .error (stuck cs)

/-- What a reader has in front of it while it passes over a value. -/
inductive Part where
  | value
  | items (first : Bool)
  | members (first : Bool)
  deriving DecidableEq, Repr

/-- Passes over a well-formed value, the items of a list or the members of an object, at any depth.
The numbers and the escapes of four digits in it need not stand for anything. Each step takes a
character at least, so the length of the text bounds their number. -/
def skipPart : Nat → Part → List Char → Except Problem (List Char)
  | 0, _, _ => .error .malformed
  | fuel + 1, .value, cs =>
    match skipBlanks cs with
    | [] => .error .cutOff
    | c :: rest =>
      if c = 'n' then readWord "ull".toList rest
      else if c = 't' then readWord "rue".toList rest
      else if c = 'f' then readWord "alse".toList rest
      else if c = '"' then skipString rest
      else if c = '[' then skipPart fuel (.items true) rest
      else if c = '\x7b' then skipPart fuel (.members true) rest
      else if c = '-' then skipNumber rest
      else if c.isDigit then skipNumber (c :: rest)
      else .error .malformed
  | fuel + 1, .items first, cs => do
    let (more, cs) ← nextItem? first cs
    if more then
      let cs ← skipPart fuel .value cs
      skipPart fuel (.items false) cs
    else return cs
  | fuel + 1, .members first, cs => do
    let (more, cs) ← nextKey? first cs
    if more then
      let cs ← skipString cs
      let cs ← skipColon cs
      let cs ← skipPart fuel .value cs
      skipPart fuel (.members false) cs
    else return cs

def skipValue (cs : List Char) : Except Problem (List Char) :=
  skipPart (2 * cs.length + 2) .value cs

/-- Reads a string value. -/
def readText (cs : List Char) : Reading String :=
  match skipBlanks cs with
  | [] => .error .cutOff
  | '"' :: rest => (readString rest).map fun (text, rest) => (String.ofList text, rest)
  | cs => .error (misfitOf cs)

/-- Reads a string value or null. -/
def readOptionalText (cs : List Char) : Reading (Option String) :=
  match skipBlanks cs with
  | 'n' :: rest => (readWord "ull".toList rest).map fun rest => (none, rest)
  | cs => (readText cs).map fun (text, rest) => (some text, rest)

/-- Reads strings up to the end of their list; the length of the text bounds their number. -/
def readItems : Nat → Bool → List Char → Except Problem (List String × List Char)
  | 0, _, _ => .error .malformed
  | fuel + 1, first, cs => do
    let (more, cs) ← nextItem? first cs
    if more then
      let (text, cs) ← readText cs
      let (rest, cs) ← readItems fuel false cs
      return (text :: rest, cs)
    else return ([], cs)

/-- Reads a list of strings. -/
def readTexts (cs : List Char) : Reading (List String) :=
  match skipBlanks cs with
  | [] => .error .cutOff
  | '[' :: rest => readItems (rest.length + 1) true rest
  | cs => .error (misfitOf cs)

/-- Reads a whole text with nothing but blanks after the value. -/
def readAll {α : Type} (read : List Char → Reading α) (cs : List Char) : Except Problem α :=
  match read cs with
  | .error p => .error p
  | .ok (a, rest) => if skipBlanks rest = [] then .ok a else .error .malformed

def hexDigit (n : Nat) : Char := if n < 10 then Char.ofNat (48 + n) else Char.ofNat (87 + n)

/-- A character of a string as it is written. Quotes, backslashes and control characters are
escaped, by one letter where there is one, and all else stands for itself. -/
def writeChar (c : Char) : List Char :=
  if c = '"' then ['\\', '"']
  else if c = '\\' then ['\\', '\\']
  else if c = Char.ofNat 8 then ['\\', 'b']
  else if c = Char.ofNat 12 then ['\\', 'f']
  else if c = '\n' then ['\\', 'n']
  else if c = '\r' then ['\\', 'r']
  else if c = '\t' then ['\\', 't']
  else if c.toNat < 0x20 then
    ['\\', 'u', '0', '0', hexDigit (c.toNat / 16), hexDigit (c.toNat % 16)]
  else [c]

def writeText (text : String) : List Char := '"' :: text.toList.flatMap writeChar ++ ['"']

def writeTexts (texts : List String) : List Char :=
  '[' :: [','].intercalate (texts.map writeText) ++ [']']

/-- An object of the given members. -/
def writeMembers (members : List (String × List Char)) : List Char :=
  '\x7b' :: [','].intercalate (members.map fun (key, value) => writeText key ++ ':' :: value) ++
    ['\x7d']

end ReflectGen.Json
