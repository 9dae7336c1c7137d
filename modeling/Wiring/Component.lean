import Wiring.Catalogue.Collect
import Wiring.Resolve.Provide

/-!
# Planning a component

A component is checked, its bindings are collected, and each of its requirements is resolved on a
path of its own. The first failure ends planning and leaves no plans; problems found while
collecting are reported beside it.
-/

namespace Wiring

/-- The plan of one requirement of a component. -/
structure ProviderPlan where
  callable : Callable
  /-- The result type as the component sees it. -/
  returns : TypeExpr
  plan : Plan
  deriving Repr, Inhabited

/-- The outcome of planning a component. -/
structure ComponentPlan where
  component : Classifier
  /-- The scope of the component, its own or that of an ancestor. -/
  scope : Option TypeExpr := none
  /-- One plan for each requirement, in chain order; none after a failure. -/
  providers : List ProviderPlan := []
  failure : Option Failure := none
  /-- Problems that did not end planning. -/
  diagnostics : List Diagnostic := []
  deriving Repr

namespace ComponentPlan

/-- Every diagnostic, the failure last. -/
def allDiagnostics (p : ComponentPlan) : List Diagnostic :=
  p.diagnostics ++ p.failure.toList.map Failure.toDiagnostic

/-- Whether anything went wrong. -/
def hasErrors (p : ComponentPlan) : Bool :=
  p.failure.isSome || Diagnostic.anyError p.diagnostics

end ComponentPlan

namespace Component

/-- Why a class cannot be a component. -/
def invalid? (c : Classifier) : Option Failure :=
  if !c.isAbstract then
    some (.invalidComponent
      ("@Component class: " ++ c.type.displayText ++ " must be abstract") c.element)
  else if c.isPrivate then
    some (.invalidComponent
      ("@Component class: " ++ c.type.displayText ++ " must not be private") c.element)
  else none

/-- The context in which the requirements of a component are resolved. -/
def startContext (c : Classifier) : Context := { source := c.element }

/-- The key of a requirement. -/
def requirementKey (r : Resolver) (c : Classifier) (f : Callable) : Key :=
  ⟨f.returnsFor r.model c, Role.qualifier? r.options f.annotations⟩

/-- The plan of one requirement. It may not satisfy itself. -/
def planRequirement (r : Resolver) (c : Classifier) (f : Callable) :
    Except Failure ProviderPlan :=
  let key := requirementKey r c f
  ((startContext c).withoutProvider key.type).entering f.element fun context => do
    let plan ← r.provide key context
    return ⟨f, key.type, plan⟩

/-- The plans of all requirements, or the first failure. -/
def planRequirements (r : Resolver) (c : Classifier) :
    List Callable → Except Failure (List ProviderPlan)
  | [] => .ok []
  | f :: fs => do
    let plan ← planRequirement r c f
    let plans ← planRequirements r c fs
    return plan :: plans

/-- Plan a component. -/
def plan (m : Model) (o : Options) (c : Classifier) : ComponentPlan :=
  match invalid? c with
  | some failure => { component := c, failure := some failure }
  | none =>
    let catalogue := Catalogue.collect m o c
    let base : ComponentPlan := {
      component := c
      scope := catalogue.ownScope?.map (·.scope)
      diagnostics := catalogue.diagnostics }
    match planRequirements ⟨m, o, catalogue⟩ c catalogue.requirementMembers with
    | .ok providers => { base with providers }
    | .error failure => { base with failure := some failure }

end Component

end Wiring
