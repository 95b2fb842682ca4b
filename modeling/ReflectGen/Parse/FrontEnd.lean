import ReflectGen.Parse.Lowering
import ReflectGen.Project
import ReflectGen.Source.Prepared

namespace ReflectGen.Parse

/-- A C++ parser: what stands below the root of the parse tree of a text. -/
abbrev Parser := List Char → Children

/-- Reads declarations off C++ sources: the contents are decoded, prepared, parsed and lowered. -/
def frontEnd (parser : Parser) : FrontEnd := fun file bytes =>
  let prepared := Source.prepare (Text.decodeLossy bytes)
  .ok (SourceFile.declTree ⟨file, prepared⟩ (parser prepared))

end ReflectGen.Parse
