import Wiring.Failure
import Wiring.Plan.Basic
import Wiring.Resolve.Path

/-!
# Contexts

What a request is made under: the path that led to it, the lambda parameters in scope, the binding
whose cache or requirement is being filled, and the component that the emitted code is inside of.
-/

namespace Wiring

/-- What a request is made under. -/
structure Context where
  path : ResolutionPath := {}
  /-- The element being resolved. -/
  source : Element
  /-- Parameters of the innermost enclosing lambda. -/
  args : LambdaParams := []
  /-- The scoped type whose cache entry is being filled. -/
  skipScoped : Option TypeExpr := none
  /-- The result type of the requirement being planned. -/
  skipProvider : Option TypeExpr := none
  /-- The accessor of the component that the emitted code is inside of. -/
  parentScope : Option String := none
  deriving Repr, Inhabited

namespace Context

/-- The context in which the cache entry of a type is filled. -/
def withoutScoped (c : Context) (t : TypeExpr) : Context := { c with skipScoped := some t }

/-- The context in which the requirement of a type is planned. -/
def withoutProvider (c : Context) (t : TypeExpr) : Context := { c with skipProvider := some t }

/-- The context inside a lambda. -/
def withArgs (c : Context) (args : LambdaParams) : Context := { c with args }

/-- The context inside the component reached by `name` from the component it is now inside of. -/
def withParentScope (c : Context) : Option String → Context
  | none => c
  | some name =>
    match c.parentScope with
    | some outer => { c with parentScope := some (outer ++ "." ++ name) }
    | none => { c with parentScope := some name }

/-- Go on with an element on the path; a cycle when it is there already. -/
def entering (c : Context) (e : Element) (next : Context → Except Failure α) :
    Except Failure α :=
  match c.path.enter? e with
  | none => .error (.cycle c.path.trace e)
  | some path => next { c with path, source := e }

end Context

end Wiring
