import ReflectGen.Path
import ReflectGen.Text.Utf8

namespace ReflectGen

namespace Path

def Component.name? : Component → Option String
  | .name text => some text
  | _ => none

/-- Bytes that need not be UTF-8, each as the character of its number. -/
def rawText (bytes : List UInt8) : String := String.ofList (bytes.map fun b => Char.ofNat b.toNat)

def rawBytes (raw : String) : List UInt8 := raw.toList.map fun c => UInt8.ofNat c.toNat

/-- A path by its bytes. It is cut at the same places whether they are UTF-8 or not. -/
def ofBytes (bytes : List UInt8) : Path := ⟨rawText bytes⟩

def bytes (p : Path) : List UInt8 := Text.encode p.text

/-- A name as text, with the replacement character for what is not UTF-8 in it. -/
def shownName (raw : String) : String := String.ofList (Text.decodeLossy (rawBytes raw))

end Path

/-- How a file is named in an include line: its names below the root, divided by slashes, or its
whole path with forward slashes when it lies elsewhere. Paths are any bytes, and what is not UTF-8
in them is replaced. -/
def relativeInclude (root file : List UInt8) : String :=
  match (Path.ofBytes root).below? (Path.ofBytes file) with
  | some rest =>
    "/".intercalate ((rest.components.filterMap Path.Component.name?).map Path.shownName)
  | none => String.ofList ((Text.decodeLossy file).map fun c => if c = '\\' then '/' else c)

end ReflectGen
