import Wiring.Options
import Wiring.Toml.Reader

/-!
# Configuration files

The options of a run as a TOML document holds them, in a table called `options`. What the document
holds beside them is passed over; an option has to be a truth value.
-/

namespace Wiring.Options

/-- An option among the entries of its table. -/
def flag? (entries : Toml.Entries) (key : String) : Option Bool :=
  match entries.lookup key with
  | none => some false
  | some (.boolean b) => some b
  | some _ => none

/-- The options that are given by the entries of a table. -/
def ofEntries? (entries : Toml.Entries) : Option Options :=
  match flag? entries "enable-javax-annotations", flag? entries "generate-companion-extensions" with
  | some javax, some companionExtensions => some { javax, companionExtensions }
  | _, _ => none

/-- The options of a value: a table, or an array of the options in order. A date or a time counts
as a table without options. -/
def ofValue? : Toml → Option Options
  | .table _ _ entries => ofEntries? entries
  | .inline entries => ofEntries? entries
  | .datetime _ => some {}
  | .array [] => some {}
  | .array [.boolean javax] => some { javax }
  | .array (.boolean javax :: .boolean companionExtensions :: _) =>
    some { javax, companionExtensions }
  | _ => none

/-- The options of a document; `none` when it is no TOML or an option is no truth value. -/
def ofToml? (text : String) : Option Options :=
  (Toml.parse? text).bind fun entries =>
    match entries.lookup "options" with
    | none => some {}
    | some v => ofValue? v

end Wiring.Options
