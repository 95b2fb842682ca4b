import ReflectGen.Json.Value
import ReflectGen.Path

namespace ReflectGen

def defaultExtensions : List String := ["cpp", "c", "h", "hpp"]

/-- What a project's configuration file sets. Paths are relative to the project's root. -/
structure Settings where
  includeDirs : List String := []
  heartDir : Option String := none
  extensions : List String := defaultExtensions
  output : Option String := none
  deriving DecidableEq, Repr

namespace Settings

open Json

def fileName : String := "heartgen.config.json"

inductive Key where
  | includeDirs
  | heartDir
  | extensions
  | output
  deriving DecidableEq, Repr

def Key.name : Key → String
  | includeDirs => "includeDirs"
  | heartDir => "heartDir"
  | extensions => "extensions"
  | output => "output"

/-- The order in which a list gives the values. -/
def Key.all : List Key := [includeDirs, heartDir, extensions, output]

def Key.ofName? (name : String) : Option Key := all.find? (·.name == name)

/-- Reads the value of a key. -/
def readValue (s : Settings) (key : Key) (cs : List Char) : Reading Settings :=
  match key with
  | .includeDirs => (readTexts cs).map fun (v, rest) => ({ s with includeDirs := v }, rest)
  | .heartDir => (readOptionalText cs).map fun (v, rest) => ({ s with heartDir := v }, rest)
  | .extensions => (readTexts cs).map fun (v, rest) => ({ s with extensions := v }, rest)
  | .output => (readOptionalText cs).map fun (v, rest) => ({ s with output := v }, rest)

/-- Reads the members of an object. Unknown keys are passed over, and a key in `seen` must not come
again. The length of the text bounds the number of members. -/
def readMembers : Nat → List Key → Bool → Settings → List Char →
    Except Problem (Settings × List Char)
  | 0, _, _, _, _ => .error .malformed
  | fuel + 1, seen, first, s, cs => do
    let (more, cs) ← nextKey? first cs
    if more then
      let (name, cs) ← readString cs
      match Key.ofName? (String.ofList name) with
      | none =>
        let cs ← skipColon cs
        let cs ← skipValue cs
        readMembers fuel seen false s cs
      | some key =>
        if seen.contains key then .error .misfit
        else
          let cs ← skipColon cs
          let (s, cs) ← readValue s key cs
          readMembers fuel (key :: seen) false s cs
    else return (s, cs)

/-- Reads the values of `keys` from a list. Values at its end may be missing, none may be left
over. -/
def readPositions : List Key → Bool → Settings → List Char →
    Except Problem (Settings × List Char)
  | [], _, s, cs =>
    match skipBlanks cs with
    | [] => .error .cutOff
    | ']' :: rest => .ok (s, rest)
    | _ => .error .malformed
  | key :: keys, first, s, cs => do
    let (more, cs) ← nextItem? first cs
    if more then
      let (s, cs) ← readValue s key cs
      readPositions keys false s cs
    else return (s, cs)

/-- Reads an object, or a list that gives the values in order. -/
def readAny (cs : List Char) : Reading Settings :=
  match skipBlanks cs with
  | [] => .error .cutOff
  | '\x7b' :: rest => readMembers (rest.length + 1) [] true {} rest
  | '[' :: rest => readPositions Key.all true {} rest
  | cs => .error (misfitOf cs)

/-- Reads the text of a configuration file. What it does not set keeps its default. -/
def read (text : List Char) : Except Problem Settings := readAll readAny text

/-- The text of a configuration file with these settings. Paths that are not set are left out. -/
def write (s : Settings) : List Char :=
  let optional := fun (key : Key) (v : Option String) =>
    v.toList.map fun text => (key.name, writeText text)
  writeMembers ((Key.includeDirs.name, writeTexts s.includeDirs) :: optional .heartDir s.heartDir ++
    (Key.extensions.name, writeTexts s.extensions) :: optional .output s.output)

def includePaths (s : Settings) (root : Path) : List Path :=
  s.includeDirs.map fun d => root.join ⟨d⟩

def heartPath? (s : Settings) (root : Path) : Option Path := s.heartDir.map fun d => root.join ⟨d⟩

end Settings

end ReflectGen
