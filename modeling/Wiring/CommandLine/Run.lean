import Wiring.CommandLine.Arguments
import Wiring.CommandLine.Files
import Wiring.Configuration
import Wiring.Declaration.Decoding
import Wiring.Emit.File
import Wiring.Json.Reader
import Wiring.Report.Render

/-!
# A run of the command line

Options come from the defaults, a configuration file, processor options and switches, each layer
over the one before it. Every component of the model is generated and its file written, also when
it fails, so that the rest of a build finds its sources; then all diagnostics are reported, and an
error among them makes the run fail.
-/

namespace Wiring.CommandLine

/-- What a run leaves behind, beside the files it wrote. -/
structure Outcome where
  exitCode : Nat
  /-- The text on the standard output. -/
  output : String := ""
  /-- The text on the standard error output. -/
  errors : String := ""
  deriving DecidableEq, Repr, Inhabited

/-- The options of a run over those of the configuration file: processor options first, and a
switch that is given wins. -/
def Settings.options (s : Settings) (file : Options) : Options :=
  let o := file.overlay s.pairs
  { javax := o.javax || s.javax
    companionExtensions := o.companionExtensions || s.companionExtensions }

/-- How the diagnostics of a run are rendered. -/
def Settings.format (s : Settings) : Report.Format := if s.json then .record else .plain

/-- The message that ends a run. -/
def fatalText (s : Settings) (message : String) : String :=
  if s.json then
    (Json.object [("code", .string "C0001"), ("file", .string ""), ("fix", .null),
      ("message", .string message), ("severity", .string "error"), ("spans", .array [])]).compact
      ++ "\n"
  else "error: " ++ message ++ "\n"

/-- The end of a run that cannot go on. -/
def fatal (s : Settings) (message : String) : Outcome :=
  { exitCode := 1, errors := fatalText s message }

/-- Why a model document is refused, in words. -/
def faultText : Fault → String
  | .malformed => "the text is not valid JSON"
  | .truncated => "the text ends before the document does"
  | .misshapen => "the document does not describe a model"

/-- The path of the generated file. -/
def relativePath (f : GeneratedFile) : String :=
  f.pathSegments.foldl Path.join ""

/-- The diagnostics of a run as text, each on lines of its own. -/
def reportText (s : Settings) (source : Option String) (file : String) (ds : List Diagnostic) :
    String :=
  String.join (ds.map fun d =>
    let text := Report.render s.format d source file
    if s.json then text ++ "\n" else text)

section Steps

variable {m : Type → Type} [Monad m] (fs : Files m)

/-- The configuration file of a run: the one that is named, or the one beside the model. -/
def configPath (model : String) (s : Settings) : m (Option String) :=
  match s.config with
  | some path => return some path
  | none => do
    let beside := Path.join (Path.folderOf model) "inject.toml"
    return if ← fs.isThere beside then some beside else none

/-- The options in the configuration file, or why they cannot be had. -/
def fileOptions (model : String) (s : Settings) : m (Except String Options) := do
  match ← configPath fs model s with
  | none => return .ok {}
  | some path =>
    match ← fs.read path with
    | .error e => return .error ("Failed to read " ++ path ++ ": " ++ e.message)
    | .ok text =>
      match Options.ofToml? text with
      | some o => return .ok o
      | none => return .error "Failed to parse config: the options cannot be read"

/-- The model of a run, or why it cannot be had. -/
def loadModel (path : String) : m (Except String Model) := do
  match ← fs.read path with
  | .error e => return .error ("Failed to read " ++ path ++ ": " ++ e.message)
  | .ok text =>
    match (Json.read text).decode Declarations.ofJson with
    | .ok declarations => return .ok ⟨declarations⟩
    | .error e => return .error ("Failed to parse " ++ path ++ ": " ++ faultText e)

/-- Write one generated file, or say why that fails. -/
def writeFile (path contents : String) : m (Except String Unit) := do
  let folder := (Path.parent? path).getD ""
  match ← Files.makeFolders fs folder with
  | .error e => return .error ("Failed to create '" ++ folder ++ "': " ++ e.message)
  | .ok _ =>
    match ← fs.write path contents with
    | .error e => return .error ("Failed to write '" ++ path ++ "': " ++ e.message)
    | .ok _ => return .ok ()

/-- Write generated files until one fails: what is said about those written, and the failure. -/
def writeFiles (s : Settings) : List GeneratedFile → m (String × Option String)
  | [] => return ("", none)
  | f :: rest => do
    let path := Path.join (s.output.getD "generated") (relativePath f)
    match ← writeFile fs path f.contents with
    | .error message => return ("", some message)
    | .ok _ =>
      let said := if s.json then "" else "  Generated: " ++ path ++ "\n"
      let (more, failure) ← writeFiles s rest
      return (said ++ more, failure)

/-- The source file that spans point into, if it can be read, and the name it is reported by. -/
def reportSource (path : String) (model : Model) : m (Option String × String) :=
  match model.declarations.source with
  | none => return (none, path)
  | some name => do
    match ← fs.read (Path.join (Path.folderOf path) name) with
    | .ok text => return (some text, name)
    | .error _ => return (none, name)

/-- Generate the components of a model. -/
def generate (path : String) (s : Settings) : m Outcome := do
  match ← fileOptions fs path s with
  | .error message => return fatal s message
  | .ok base =>
    match ← loadModel fs path with
    | .error message => return fatal s message
    | .ok model =>
      let processed := process model (s.options base)
      match ← writeFiles fs s processed.files with
      | (said, some message) =>
        return { exitCode := 1, errors := said ++ fatalText s message }
      | (said, none) =>
        let (source, file) ← reportSource fs path model
        let report := said ++ reportText s source file processed.diagnostics
        if Diagnostic.anyError processed.diagnostics then
          return { exitCode := 1
                   errors := report ++ fatalText s "Generation failed due to errors above." }
        else return { exitCode := 0, errors := report }

/-- Carry out a command line. -/
def run (arguments : List String) : m Outcome :=
  match Command.ofArguments arguments with
  | .help => return { exitCode := 0, output := helpText }
  | .version => return { exitCode := 0, output := versionText }
  | .misuse reason => return { exitCode := 2, errors := "error: " ++ reason ++ "\n" }
  | .run model settings => generate fs model settings

end Steps

end Wiring.CommandLine
