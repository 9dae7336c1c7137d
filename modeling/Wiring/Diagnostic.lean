import Wiring.Element

/-!
# Diagnostics

Messages about a program, attached to the most specific element at hand, and the list in which
they are collected in the order of their arrival.
-/

namespace Wiring

/-- How grave a diagnostic is. -/
inductive Severity where
  | warning
  | error
  deriving DecidableEq, Repr, Inhabited

/-- The word for a severity. -/
def Severity.word : Severity → String
  | warning => "warning"
  | error => "error"

/-- A message about a program. -/
structure Diagnostic where
  severity : Severity
  /-- A stable code such as `E0002`. -/
  code : Option String := none
  message : String
  /-- Further lines, such as a resolution trace. -/
  notes : List String := []
  element : Option Element := none
  deriving DecidableEq, Repr, Inhabited

namespace Diagnostic

/-- Whether the diagnostic is an error. -/
def isError (d : Diagnostic) : Bool := d.severity == .error

/-- The diagnostic on one line. -/
def displayText (d : Diagnostic) : String := d.severity.word ++ ": " ++ d.message

/-- An error with a code, at an element. -/
def errorAt (code message : String) (element : Element) : Diagnostic :=
  { severity := .error, code := some code, message, element := some element }

/-- Whether any of the diagnostics is an error. -/
def anyError (ds : List Diagnostic) : Bool := ds.any isError

end Diagnostic

namespace Code

/-- A further ancestor of a component has a scope too. -/
def conflictingScopes : String := "E0006"

/-- Two bindings of one level have one key. -/
def duplicateBinding : String := "E0007"

/-- A providing member that cannot provide. -/
def invalidProvides : String := "E0008"

/-- A parent component that cannot be reached through its parameter. -/
def invalidComponentParam : String := "E0009"

/-- A component without the companion object that an option asks for. -/
def missingCompanion : String := "E0010"

end Code

end Wiring
