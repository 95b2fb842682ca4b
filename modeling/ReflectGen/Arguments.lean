import ReflectGen.Path
import ReflectGen.Text.Lines

namespace ReflectGen

/-- What the command line asks for. -/
structure Arguments where
  root : Option Path := none
  heart : Option Path := none
  includes : List Path := []
  output : Option Path := none
  stdout : Bool := false
  sequential : Bool := false
  verbose : Bool := false
  deriving DecidableEq, Repr

namespace Arguments

/-- What a command line comes to. -/
inductive Request where
  | generate (root : Path) (args : Arguments)
  | help
  | version
  | misuse
  deriving DecidableEq, Repr

/-- An argument with a name of its own: some set a flag, some take a value, two ask for a text. -/
inductive Switch where
  | stdout
  | sequential
  | verbose
  | heart
  | includeDir
  | output
  | help
  | version
  deriving DecidableEq, Repr

namespace Switch

def ofLong? (name : String) : Option Switch :=
  match name with
  | "stdout" => some stdout
  | "sequential" => some sequential
  | "verbose" => some verbose
  | "heart" => some heart
  | "include" => some includeDir
  | "output" => some output
  | "help" => some help
  | "version" => some version
  | _ => none

def ofShort? (c : Char) : Option Switch :=
  match c with
  | 'v' => some verbose
  | 'I' => some includeDir
  | 'o' => some output
  | 'h' => some help
  | 'V' => some version
  | _ => none

def takesValue : Switch → Bool
  | heart | includeDir | output => true
  | _ => false

end Switch

/-- What one switch comes to: the arguments with it, or an early end. -/
abbrev Outcome := Except Request Arguments

/-- Sets a flag, which may be given once. -/
def setFlag (a : Arguments) : Switch → Outcome
  | .stdout => if a.stdout then .error .misuse else .ok { a with stdout := true }
  | .sequential => if a.sequential then .error .misuse else .ok { a with sequential := true }
  | .verbose => if a.verbose then .error .misuse else .ok { a with verbose := true }
  | .help => .error .help
  | .version => .error .version
  | _ => .error .misuse

/-- Sets a value, which is not empty. Only include directories may be given more than once. -/
def setValue (a : Arguments) (switch : Switch) (value : String) : Outcome :=
  if value = "" then .error .misuse
  else
    match switch with
    | .heart => if a.heart.isSome then .error .misuse else .ok { a with heart := some ⟨value⟩ }
    | .includeDir => .ok { a with includes := a.includes ++ [⟨value⟩] }
    | .output => if a.output.isSome then .error .misuse else .ok { a with output := some ⟨value⟩ }
    | _ => .error .misuse

/-- Takes an argument that belongs to no switch. There is one, the root. -/
def setRoot (a : Arguments) (value : String) : Outcome :=
  if value = "" || a.root.isSome then .error .misuse else .ok { a with root := some ⟨value⟩ }

/-- Whether an argument can be the value of the switch before it. -/
def isValue (arg : String) : Bool := arg.toList.head? != some '-' || arg == "-"

/-- The switches of a cluster of letters. A switch that takes a value takes the letters after it,
behind an equals sign if there is one; with no letters left the value is still to come. -/
def readCluster (a : Arguments) : List Char → Except Request (Arguments × Option Switch)
  | [] => .ok (a, none)
  | c :: cs =>
    match Switch.ofShort? c with
    | none => .error .misuse
    | some switch =>
      if switch.takesValue then
        match cs with
        | [] => .ok (a, some switch)
        | '=' :: value => (a.setValue switch (String.ofList value)).map (·, none)
        | value => (a.setValue switch (String.ofList value)).map (·, none)
      else
        match a.setFlag switch with
        | .ok a => readCluster a cs
        | .error request => .error request

/-- A long switch, with its value behind an equals sign or still to come. -/
def readLong (a : Arguments) (text : List Char) : Except Request (Arguments × Option Switch) :=
  let name := text.takeWhile (· ≠ '=')
  match Switch.ofLong? (String.ofList name), text.drop name.length with
  | none, _ => .error .misuse
  | some switch, [] =>
    if switch.takesValue then .ok (a, some switch) else (a.setFlag switch).map (·, none)
  | some switch, _ :: value =>
    if switch.takesValue then (a.setValue switch (String.ofList value)).map (·, none)
    else .error .misuse

/-- Reads one argument: a long switch, a cluster of short ones, or the root. -/
def readOne (a : Arguments) (arg : String) : Except Request (Arguments × Option Switch) :=
  match arg.toList with
  | '-' :: '-' :: name => a.readLong name
  | '-' :: c :: cs => a.readCluster (c :: cs)
  | _ => (a.setRoot arg).map (·, none)

/-- Reads the arguments from left to right. Two dashes end the switches. -/
def readFrom : Arguments → List String → Outcome
  | a, [] => .ok a
  | a, arg :: rest =>
    if arg = "--" then rest.foldlM setRoot a
    else
      match a.readOne arg, rest with
      | .error request, _ => .error request
      | .ok (a, none), rest => readFrom a rest
      | .ok (_, some _), [] => .error .misuse
      | .ok (a, some switch), value :: rest =>
        if isValue value then
          match a.setValue switch value with
          | .ok a => readFrom a rest
          | .error request => .error request
        else .error .misuse

def parse (args : List String) : Request :=
  match readFrom {} args with
  | .error request => request
  | .ok a =>
    match a.root with
    | none => .misuse
    | some root => .generate root a

end Arguments

end ReflectGen
