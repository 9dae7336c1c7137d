import Wiring.Declaration.Encoding
import Wiring.Json.Writer
import Wiring.Report.Excerpt
import Wiring.Report.Position

/-!
# Rendering diagnostics

A diagnostic for people, with an excerpt of the source where the element's place in it is known and
the element's trace otherwise, or for tools, as a JSON object on one line whose keys are in
alphabetical order.
-/

namespace Wiring.Report

/-- For whom diagnostics are rendered. -/
inductive Format where
  | plain
  | record
  deriving DecidableEq, Repr, Inhabited

/-- The code of a diagnostic, a general one when it has none of its own. -/
def codeOf (d : Diagnostic) : String :=
  d.code.getD (match d.severity with
    | .error => "E0000"
    | .warning => "W0000")

/-- The bytes of the source that a diagnostic marks; none without a source or a span. -/
def markOf (d : Diagnostic) (source : Option String) : Option (String × Nat × Nat) :=
  match source, d.element.bind (·.span) with
  | some source, some span =>
    if source.isEmpty then none else some (source, span.range source.utf8ByteSize)
  | _, _ => none

/-- The trace of the element of a diagnostic. -/
def labelOf (d : Diagnostic) : String := (d.element.map (·.trace)).getD ""

/-- A diagnostic without an excerpt. -/
def brief (d : Diagnostic) (file : String) : String :=
  d.severity.word ++ "[" ++ codeOf d ++ "]: " ++ d.message ++ "\n"
    ++ (match d.element with
      | none => ""
      | some e =>
        if file.isEmpty then "  --> " ++ e.trace ++ "\n"
        else "  --> " ++ file ++ ": " ++ e.trace ++ "\n")
    ++ String.join (d.notes.map fun note => "    " ++ note ++ "\n")

/-- The marked place in a record. -/
def spanRecord (d : Diagnostic) : String × Nat × Nat → Json
  | (source, start, stop) =>
    let (line, column) := Position.lineColumn source start
    .object [("column", .integer column), ("end", .integer stop), ("label", .string (labelOf d)),
      ("line", .integer line), ("start", .integer start)]

/-- A diagnostic as a record. -/
def record (d : Diagnostic) (source : Option String) (file : String) : Json :=
  .object [("code", .string (codeOf d)), ("element", .string (labelOf d)), ("file", .string file),
    ("fix", .null), ("message", .string d.message), ("severity", .string d.severity.word),
    ("spans", .array ((markOf d source).toList.map (spanRecord d))), ("trace", .ofTexts d.notes)]

/-- Render a diagnostic. `source` is the text that spans point into. -/
def render (format : Format) (d : Diagnostic) (source : Option String) (file : String) : String :=
  match format with
  | .record => (record d source file).compact
  | .plain =>
    match markOf d source with
    | some (source, start, stop) => Excerpt.render d (codeOf d) source start stop
    | none => brief d file

end Wiring.Report
