import Wiring.Diagnostic
import Wiring.Key

/-!
# Failures

What ends the planning of a component. A failure of resolution carries the path that led to it,
most recent element first. Each kind of failure has a stable code and one wording.
-/

namespace Wiring

/-- What ends the planning of a component. -/
inductive Failure where
  /-- The class cannot be a component. -/
  | invalidComponent (message : String) (element : Element)
  /-- Nothing in reach satisfies a key. -/
  | noBinding (key : Key) (trace : List String) (element : Element)
  /-- An element is needed to build itself. -/
  | cycle (trace : List String) (element : Element)
  /-- An injectable class has a scope that no component in reach owns. -/
  | unresolvableScope (type scope : TypeExpr) (trace : List String) (element : Element)
  /-- Requests went on past every bound without an element being met twice. -/
  | lazyCycle (trace : List String) (element : Element)
  deriving DecidableEq, Repr

namespace Failure

/-- The element a failure is attached to. -/
def element : Failure → Element
  | invalidComponent _ e | noBinding _ _ e | cycle _ e | unresolvableScope _ _ _ e
  | lazyCycle _ e => e

/-- The path that led to a failure, most recent element first. -/
def trace : Failure → List String
  | invalidComponent _ _ => []
  | noBinding _ t _ | cycle t _ | unresolvableScope _ _ t _ | lazyCycle t _ => t

/-- The stable code of a failure. -/
def code : Failure → String
  | invalidComponent .. => "E0001"
  | noBinding .. => "E0002"
  | cycle .. => "E0003"
  | unresolvableScope .. => "E0004"
  | lazyCycle .. => "E0005"

/-- The wording of a failure. -/
def message : Failure → String
  | invalidComponent text _ => text
  | noBinding key _ _ =>
    "Cannot find an @Inject constructor or provider for: " ++ key.displayText
  | cycle .. => "Cycle detected"
  | unresolvableScope type scope _ _ =>
    "Cannot find component with scope: @" ++ scope.displayText ++ " to inject " ++ type.displayText
  | lazyCycle .. => "Cycle through a lazy binding cannot be resolved"

/-- The wording and the path, one element a line. -/
def fullMessage (f : Failure) : String :=
  "\n".intercalate (f.message :: f.trace)

/-- The failure as an error with its path as notes. -/
def toDiagnostic (f : Failure) : Diagnostic :=
  { severity := .error
    code := some f.code
    message := f.message
    notes := f.trace
    element := some f.element }

end Failure

end Wiring
