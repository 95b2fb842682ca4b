import ReflectGen.Arguments
import ReflectGen.Settings

namespace ReflectGen

/-- What one generation works on. -/
structure Options where
  root : Path
  includeDirs : List Path := []
  extensions : List String := defaultExtensions
  /-- Relative to the root. -/
  output : Path := ⟨"gen/reflection.heartgen.cpp"⟩
  parallel : Bool := true
  deriving DecidableEq, Repr

namespace Options

def outputPath (o : Options) : Path := o.root.join o.output

/-- The include directories of a checkout, given its core directory. -/
def heartIncludeDirs (core : Path) : List Path :=
  ["include", "../heart-stl/include", "../heart-debug/include"].map fun d => core.join ⟨d⟩

/-- Arguments go before settings. Include directories come from the core directory, the settings
and the arguments, in this order. -/
def build (root : Path) (args : Arguments) (settings : Settings) : Options :=
  let core := (args.heart.or (settings.heartPath? root)).elim [] heartIncludeDirs
  let base : Options :=
    { root := root
      includeDirs := core ++ settings.includePaths root ++ args.includes
      extensions := settings.extensions
      parallel := !args.sequential }
  match args.output.or (settings.output.map Path.mk) with
  | some output => { base with output := output }
  | none => base

end Options

end ReflectGen
