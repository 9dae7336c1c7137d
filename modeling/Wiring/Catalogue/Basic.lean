import Wiring.Diagnostic
import Wiring.Key
import Wiring.Role

/-!
# Bindings and the catalogue

What a component can build and how it is reached: members that provide values, constructors,
collections with several contributors, and the components that own scopes. A catalogue is filled
from a list of findings, one after the other; each finding adds at the end, so the first binding
of a key stays in force.
-/

namespace Wiring

/-- The component that owns a scope, and how its cache is reached from the generated component. -/
structure ScopeOwner where
  /-- The class the scope annotation stands on. -/
  component : Classifier
  /-- The path of parameters to the component; none for the generated component itself. -/
  accessor : Option String
  scope : TypeExpr
  deriving Repr, Inhabited

/-- A member that produces a value. -/
structure Provider where
  callable : Callable
  /-- The path of parameters to the component that declares it; none for the generated one. -/
  accessor : Option String
  scope : Option ScopeOwner
  deriving Repr, Inhabited

/-- The function that makes a collection of its contributors. -/
inductive Builder where
  | setOf
  | mapOf
  deriving DecidableEq, Repr, Inhabited

/-- The name of the function. -/
def Builder.name : Builder → String
  | setOf => "setOf"
  | mapOf => "mapOf"

/-- A collection with several contributors, cached as a whole or not at all. -/
structure Container where
  builder : Builder
  /-- The contributors, none of which is cached by itself. -/
  parts : List Provider
  scope : Option ScopeOwner
  deriving Repr, Inhabited

/-- How a key can be satisfied. -/
inductive Binding where
  | constructor (constructor : Constructor) (scope : Option ScopeOwner)
  | provider (provider : Provider)
  | container (container : Container)
  deriving Repr, Inhabited

/-- The owner of the scope in which a binding is cached. -/
def Binding.scope? : Binding → Option ScopeOwner
  | constructor _ scope => scope
  | provider p => p.scope
  | container c => c.scope

/-- One thing found while the members of a component and its parents are gone through. -/
inductive Finding where
  /-- A component in reach owns a scope. -/
  | owner (owner : ScopeOwner)
  /-- A member provides the value of a key. -/
  | binding (key : Key) (provider : Provider)
  /-- A member contributes to the collection of a key. -/
  | part (builder : Builder) (key : Key) (provider : Provider)
  /-- A member of the component itself asks for the value of a key. -/
  | requirement (key : Key) (provider : Provider)
  /-- Something is wrong, and collection goes on. -/
  | problem (diagnostic : Diagnostic)
  deriving Repr, Inhabited

/-- The bindings in reach of one component. -/
structure Catalogue where
  component : Classifier
  /-- Owners of scopes, in the order in which their components are reached. -/
  owners : List ScopeOwner := []
  /-- The binding in force for each key with explicit bindings. -/
  bindings : List (Key × Provider) := []
  containers : List (Key × Container) := []
  /-- For each key that the component asks for, the first member that does. -/
  requirements : List (Key × Provider) := []
  /-- The members that the generated class has to implement, in chain order. -/
  requirementMembers : List Callable := []
  diagnostics : List Diagnostic := []
  deriving Repr, Inhabited

namespace Catalogue

/-- Add a contributor to the collection of a key. The collection takes the scope of the first
contributor that has one. -/
def addPart (builder : Builder) (key : Key) (p : Provider) :
    List (Key × Container) → List (Key × Container)
  | [] => [(key, ⟨builder, [{ p with scope := none }], p.scope⟩)]
  | (k, c) :: rest =>
    if k = key then
      (k, { c with parts := c.parts ++ [{ p with scope := none }], scope := c.scope.or p.scope })
        :: rest
    else (k, c) :: addPart builder key p rest

/-- What is reported when a key is bound a second time: nothing across levels, and two errors when
both bindings are reached in the same way. -/
def clash (key : Key) (first later : Provider) : List Diagnostic :=
  if first.accessor = later.accessor then
    [.errorAt Code.duplicateBinding ("Cannot provide: " ++ key.displayText) later.callable.element,
      .errorAt Code.duplicateBinding "as it is already provided" first.callable.element]
  else []

/-- Enter one finding. -/
def enter (c : Catalogue) : Finding → Catalogue
  | .owner o => { c with owners := c.owners ++ [o] }
  | .binding key p =>
    match c.bindings.lookup key with
    | some first => { c with diagnostics := c.diagnostics ++ clash key first p }
    | none => { c with bindings := c.bindings ++ [(key, p)] }
  | .part builder key p => { c with containers := addPart builder key p c.containers }
  | .requirement key p =>
    let c := { c with requirementMembers := c.requirementMembers ++ [p.callable] }
    match c.requirements.lookup key with
    | some _ => c
    | none => { c with requirements := c.requirements ++ [(key, p)] }
  | .problem d => { c with diagnostics := c.diagnostics ++ [d] }

/-- The catalogue of a component with the given findings. -/
def ofFindings (component : Classifier) (findings : List Finding) : Catalogue :=
  findings.foldl enter { component }

/-- The owner of the component's own scope, if it has one. -/
def ownScope? (c : Catalogue) : Option ScopeOwner :=
  c.owners.find? fun o => o.accessor.isNone

end Catalogue

end Wiring
