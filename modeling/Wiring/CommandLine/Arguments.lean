import Wiring.Options

/-!
# Command-line arguments

What a run is asked to do. Arguments are read from the first to the last; an argument that asks for
help or for the version is answered at once, and the first that cannot be understood is refused. An
option with a value takes the text attached to it or the next argument, and may be given once; only
`-P` may be repeated.
-/

namespace Wiring.CommandLine

/-- What a run is asked to do. -/
structure Settings where
  /-- The model file. -/
  model : Option String := none
  /-- The folder that generated files are written to. -/
  output : Option String := none
  /-- The configuration file, when it is not the one beside the model. -/
  config : Option String := none
  /-- Processor options, in order. -/
  pairs : List (String × String) := []
  javax : Bool := false
  companionExtensions : Bool := false
  /-- Diagnostics as records, one on a line. -/
  json : Bool := false
  noColor : Bool := false
  deriving DecidableEq, Repr, Inhabited

/-- What a command line asks for. -/
inductive Command where
  /-- Generate the components of the model. -/
  | run (model : String) (settings : Settings)
  | help
  | version
  /-- The arguments cannot be understood. -/
  | misuse (reason : String)
  deriving DecidableEq, Repr, Inhabited

/-- The options that take a value. -/
inductive ValueOption where
  | output
  | config
  | pair
  deriving DecidableEq, Repr

/-- The options that stand for themselves. -/
inductive Switch where
  | javax
  | companionExtensions
  | json
  | noColor
  | help
  | version
  deriving DecidableEq, Repr

/-- The option of a long name. -/
def longName? : String → Option (ValueOption ⊕ Switch)
  | "output" => some (.inl .output)
  | "config" => some (.inl .config)
  | "option" => some (.inl .pair)
  | "enable-javax-annotations" => some (.inr .javax)
  | "generate-companion-extensions" => some (.inr .companionExtensions)
  | "json" => some (.inr .json)
  | "no-color" => some (.inr .noColor)
  | "help" => some (.inr .help)
  | "version" => some (.inr .version)
  | _ => none

/-- The option of a short name. -/
def shortName? : Char → Option (ValueOption ⊕ Switch)
  | 'o' => some (.inl .output)
  | 'P' => some (.inl .pair)
  | 'h' => some (.inr .help)
  | 'V' => some (.inr .version)
  | _ => none

/-- A processor option: a key and a value around the first equals sign, without the blanks around
them. The key may not be blank. -/
def pair? (text : String) : Option (String × String) :=
  match Text.splitFirst? '=' text.toList with
  | some (key, value) =>
    let key := Text.trim (String.ofList key)
    if key.isEmpty then none else some (key, Text.trim (String.ofList value))
  | none => none

/-- The settings with the value of an option, or why it cannot be. -/
def Settings.setValue (s : Settings) (o : ValueOption) (value : String) :
    Except Command Settings :=
  match o with
  | .output =>
    if s.output.isSome then .error (.misuse "--output cannot be used multiple times")
    else if value.isEmpty then .error (.misuse "a value is required for --output")
    else .ok { s with output := some value }
  | .config =>
    if s.config.isSome then .error (.misuse "--config cannot be used multiple times")
    else if value.isEmpty then .error (.misuse "a value is required for --config")
    else .ok { s with config := some value }
  | .pair =>
    match pair? value with
    | some pair => .ok { s with pairs := s.pairs ++ [pair] }
    | none => .error (.misuse ("expected KEY=VALUE, found '" ++ value ++ "'"))

/-- The settings with a switch set, or what the switch asks for at once. -/
def Settings.setSwitch (s : Settings) : Switch → Except Command Settings
  | .help => .error .help
  | .version => .error .version
  | .javax =>
    if s.javax then .error (.misuse "--enable-javax-annotations cannot be used multiple times")
    else .ok { s with javax := true }
  | .companionExtensions =>
    if s.companionExtensions then
      .error (.misuse "--generate-companion-extensions cannot be used multiple times")
    else .ok { s with companionExtensions := true }
  | .json =>
    if s.json then .error (.misuse "--json cannot be used multiple times")
    else .ok { s with json := true }
  | .noColor =>
    if s.noColor then .error (.misuse "--no-color cannot be used multiple times")
    else .ok { s with noColor := true }

/-- The settings with the model file. -/
def Settings.setModel (s : Settings) (value : String) : Except Command Settings :=
  if s.model.isSome then .error (.misuse ("unexpected argument '" ++ value ++ "' found"))
  else if value.isEmpty then .error (.misuse "a value is required for <MODEL>")
  else .ok { s with model := some value }

/-- Read an argument that starts with two dashes, without them. The option is returned when its
value has to be the next argument. -/
def readLong (s : Settings) (text : String) : Except Command (Settings × Option ValueOption) :=
  let (name, value) : String × Option String := match Text.splitFirst? '=' text.toList with
    | some (name, value) => (String.ofList name, some (String.ofList value))
    | none => (text, none)
  match longName? name, value with
  | some (.inl o), some value => (s.setValue o value).map fun s => (s, none)
  | some (.inl o), none => .ok (s, some o)
  | some (.inr f), none => (s.setSwitch f).map fun s => (s, none)
  | _, _ => .error (.misuse ("unexpected argument '--" ++ text ++ "' found"))

/-- Read the letters of an argument that starts with one dash. What follows the letter of an option
with a value is that value. -/
def readShort (s : Settings) : List Char → Except Command (Settings × Option ValueOption)
  | [] => .ok (s, none)
  | c :: cs =>
    match shortName? c with
    | some (.inl o) =>
      match cs with
      | [] => .ok (s, some o)
      | '=' :: value => (s.setValue o (String.ofList value)).map fun s => (s, none)
      | _ => (s.setValue o (String.ofList cs)).map fun s => (s, none)
    | some (.inr f) => do
      let s ← s.setSwitch f
      readShort s cs
    | none => .error (.misuse ("unexpected argument '-" ++ c.toString ++ "' found"))

/-- The dashes an argument starts with decide what it is. -/
inductive Argument where
  | long (text : String)
  | short (letters : List Char)
  /-- Two dashes alone: only files follow. -/
  | rest
  | plain (text : String)
  deriving DecidableEq, Repr

/-- What kind of argument a text is. A single dash is a plain argument. -/
def Argument.of (text : String) : Argument :=
  match text.toList with
  | ['-', '-'] => .rest
  | '-' :: '-' :: cs => .long (String.ofList cs)
  | '-' :: c :: cs => .short (c :: cs)
  | _ => .plain text

/-- Read arguments; `waiting` is the option whose value has to come next, and `filesOnly` holds
after two dashes alone. -/
def readArguments : Settings → (waiting : Option ValueOption) → (filesOnly : Bool) →
    List String → Except Command Settings
  | s, none, _, [] => .ok s
  | _, some _, _, [] => .error (.misuse "a value is required but none was supplied")
  | s, some o, false, text :: rest =>
    match Argument.of text with
    | .plain value => do
      let s ← s.setValue o value
      readArguments s none false rest
    | _ => .error (.misuse "a value is required but none was supplied")
  | _, some _, true, _ :: _ => .error (.misuse "a value is required but none was supplied")
  | s, none, true, text :: rest => do
    let s ← s.setModel text
    readArguments s none true rest
  | s, none, false, text :: rest =>
    match Argument.of text with
    | .rest => readArguments s none true rest
    | .long text => do
      let (s, waiting) ← readLong s text
      readArguments s waiting false rest
    | .short letters => do
      let (s, waiting) ← readShort s letters
      readArguments s waiting false rest
    | .plain text => do
      let s ← s.setModel text
      readArguments s none false rest

/-- What a command line asks for. -/
def Command.ofArguments (arguments : List String) : Command :=
  match readArguments {} none false arguments with
  | .error command => command
  | .ok settings =>
    match settings.model with
    | some model => .run model settings
    | none => .misuse "the following required arguments were not provided: <MODEL>"

/-- The text that explains the command line: the arguments on the left, and what each of them means
in a column beside them. -/
def helpText : String :=
  String.join [
    "The inject component compiler\n",
    "\n",
    "Usage: injectc [OPTIONS] <MODEL>\n",
    "\n",
    "Arguments:\n",
    "  <MODEL>  Path to the JSON model of the program\n",
    "\n",
    "Options:\n",
    "  -o, --output <OUTPUT>                ",
    "Directory the generated sources are written to [default: generated]\n",
    "      --config <CONFIG>                ",
    "Path to an inject.toml; defaults to inject.toml next to the model\n",
    "  -P, --option <KEY=VALUE>             ",
    "Processor option as key=value (e.g. inject.generateCompanionExtensions=true)\n",
    "      --enable-javax-annotations       ",
    "Recognize javax.inject annotations\n",
    "      --generate-companion-extensions  ",
    "Generate `create` as an extension of the component's companion object\n",
    "      --json                           ",
    "Output diagnostics as JSON (one object per line) instead of human-readable format\n",
    "      --no-color                       ",
    "Disable colorized output\n",
    "  -h, --help                           ",
    "Print help\n",
    "  -V, --version                        ",
    "Print version\n"]

/-- The text that names the version. -/
def versionText : String := "injectc 0.1.0\n"

end Wiring.CommandLine
