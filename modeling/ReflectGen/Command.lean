import ReflectGen.Parse.FrontEnd
import ReflectGen.Report.Excerpt
import ReflectGen.Text.Quoted

namespace ReflectGen

/-- Why a project's settings could not be had. -/
inductive SettingsError where
  | unreadable (cause : FileError)
  | invalid (problem : Json.Problem)
  deriving DecidableEq, Repr

def SettingsError.message : SettingsError → String
  | unreadable cause => cause.message
  | invalid .malformed => "malformed configuration"
  | invalid .cutOff => "configuration ends too early"
  | invalid .misfit => "configuration value of the wrong type"

/-- The settings of a project: those of the configuration file in its root, if there is one. -/
def Settings.load (t : FileTree) (root : Path) : Except SettingsError Settings :=
  let path := root.join ⟨Settings.fileName⟩
  if (t.address? path).isNone then .ok {}
  else
    match t.read path with
    | .error e => .error (.unreadable e)
    | .ok bytes =>
      match Text.decode? bytes with
      | none => .error (.unreadable .notText)
      | some text => (Settings.read text).mapError SettingsError.invalid

namespace Command

/-- What a command leaves behind: its exit code and what it printed. -/
structure Output where
  exit : Nat := 0
  stdout : String := ""
  stderr : String := ""
  deriving DecidableEq, Repr

def versionText : String := "heartgen 0.1.0\n"

def helpText : String :=
  "Usage: heartgen [OPTIONS] <ROOT>\n\n" ++
    "      --heart <HEART>      heart-core directory\n" ++
    "  -I, --include <INCLUDE>  Additional include directory\n" ++
    "  -o, --output <OUTPUT>    Output path relative to the root\n" ++
    "      --stdout             Print the generated file instead of writing it\n" ++
    "      --sequential         Scan files one at a time\n" ++
    "  -v, --verbose            Debug logging\n" ++
    "  -h, --help               Print help\n" ++
    "  -V, --version            Print version\n"

/-- The lines on one scan error, with an excerpt if its file can be read as text. -/
def errorText (t : FileTree) (e : ScanError) : String :=
  let line := "  ✗ " ++ e.location.text ++ " " ++ e.fault.message ++ "\n"
  match (t.read e.location.file).toOption.bind Text.decode? with
  | none => line
  | some source => line ++ Report.render e.fault.kind e.fault.message e.location source ++ "\n"

def errorTexts (t : FileTree) (errors : List ScanError) : String :=
  String.join (errors.map (errorText t))

/-- What became of the output, and the totals. -/
def summary (root : Path) (g : Project.Generation) : String :=
  let output := ((root.below? g.outputPath).getD g.outputPath).text
  let outcome := match g.outcome with
    | some .written => "  ✓ " ++ output ++ " written\n"
    | some .unchanged => "  ✓ " ++ output ++ " - skipped (nothing changed)\n"
    | none => ""
  let totals := " Reflected " ++ toString g.metadata.types.length ++ " types from " ++
    toString g.filesScanned ++ " files"
  let verdict :=
    if g.succeeded then "✅" ++ totals ++ "\n"
    else "⚠️" ++ totals ++ ", " ++ toString g.errors.length ++ " errors\n"
  outcome ++ "\n" ++ verdict

def failure (stdout message : String) : Output :=
  { exit := 1, stdout := stdout, stderr := "\nError: " ++ message ++ "\n\n" }

def exitCode (g : Project.Generation) : Nat := if g.succeeded then 0 else 1

/-- Generates for a root that is a directory. -/
def generateIn (frontEnd : FrontEnd) (t : FileTree) (o : Options) (toStdout : Bool) :
    FileTree × Output :=
  if toStdout then
    match Project.render frontEnd t o with
    | .error e => (t, failure "" e.message)
    | .ok g => (t, ⟨exitCode g, g.rendered, errorTexts t g.errors⟩)
  else
    let banner := "Invoking heartgen...\n"
    match Project.run frontEnd t o with
    | (t, .error e) => (t, failure banner e.message)
    | (t, .ok g) => (t, ⟨exitCode g, banner ++ summary o.root g, errorTexts t g.errors⟩)

def generate (frontEnd : FrontEnd) (t : FileTree) (root : Path) (args : Arguments) :
    FileTree × Output :=
  if !t.isDir root then
    (t, failure "" ("Root directory does not exist: " ++ Text.quote root.text))
  else
    match Settings.load t root with
    | .error e => (t, failure "" e.message)
    | .ok settings => generateIn frontEnd t (Options.build root args settings) args.stdout

/-- Runs a command line on a file system. -/
def run (parser : Parse.Parser) (t : FileTree) (args : List String) : FileTree × Output :=
  match Arguments.parse args with
  | .misuse => (t, { exit := 2, stderr := "error: invalid arguments\n\n" ++ helpText })
  | .help => (t, { stdout := helpText })
  | .version => (t, { stdout := versionText })
  | .generate root args => generate (Parse.frontEnd parser) t root args

end Command

end ReflectGen
