import Wiring.Catalogue.Basic
import Wiring.Catalogue.Levels

/-!
# Collecting bindings

What is found on the walk through a component and its parents: scopes, providing members, and, of
the component itself, the members it asks for. The abstract members of a parent are bindings of
the child, since the parent implements them. Problems are found in the order in which the
declarations are met, and none of them stops collection.
-/

namespace Wiring.Collect

/-- A component together with how it is reached and the scope it owns. -/
structure Level where
  component : Classifier
  accessor : Option String
  scope : Option ScopeOwner
  deriving Repr, Inhabited

/-- The problem that a parameter of the component cannot be reached from outside. -/
def paramProblems (p : Param) : List Finding :=
  if !p.isVal then
    [.problem (.errorAt Code.invalidComponentParam
      ("@Component parameter: " ++ p.name ++ " must be val") p.element)]
  else if p.isPrivate then
    [.problem (.errorAt Code.invalidComponentParam
      ("@Component parameter: " ++ p.name ++ " must not be private") p.element)]
  else []

/-- The owner of the scope found in the chain of a component. -/
def ownerOf (accessor : Option String) (s : Role.ScopeSearch) : Option ScopeOwner :=
  s.found.map fun (c, scope) => ⟨c, accessor, scope⟩

/-- What the search for the scope of a component found. -/
def scopeFindings (accessor : Option String) (s : Role.ScopeSearch) : List Finding :=
  match s.found with
  | none => []
  | some (c, scope) =>
    s.conflicts.flatMap (fun (other, otherScope) =>
      [.problem (.errorAt Code.conflictingScopes
          ("Cannot apply scope: @" ++ otherScope.displayText) other.element),
        .problem (.errorAt Code.conflictingScopes
          ("as scope: @" ++ scope.displayText ++ " is already applied") c.element)])
      ++ [.owner ⟨c, accessor, scope⟩]

/-- The owner of the scope on a providing member: its level, when that owns the very scope. -/
def memberScope (o : Options) (level : Level) (f : Callable) : Option ScopeOwner :=
  match Role.scope? o f.annotations, level.scope with
  | some scope, some owner => if owner.scope = scope then some owner else none
  | _, _ => none

/-- The problem of a scope on a providing member that its level does not own. -/
def scopeProblems (o : Options) (level : Level) (f : Callable) : List Finding :=
  match Role.scope? o f.annotations with
  | none => []
  | some scope =>
    match memberScope o level f with
    | some _ => []
    | none =>
      [.problem (.errorAt Code.invalidProvides
        ("@Provides with scope: @" ++ scope.displayText
          ++ " must be declared in a component with the same scope") f.element)]

/-- The key and value types of a pair type, seen through aliases. -/
def pairArguments? (t : TypeExpr) : Option (List TypeExpr) :=
  if t.isKnown .pair ∧ t.resolved.arguments.length = 2 then some t.resolved.arguments else none

/-- What a providing member of a level, seen with the result type `returns`, contributes. -/
def contribution (o : Options) (level : Level) (f : Callable) (returns : TypeExpr) : Finding :=
  let qualifier := Role.qualifier? o f.annotations
  let provider : Provider := ⟨f, level.accessor, memberScope o level f⟩
  if Role.isIntoSet f then .part .setOf ⟨.known .set [returns], qualifier⟩ provider
  else if Role.isIntoMap f then
    match pairArguments? returns with
    | some arguments => .part .mapOf ⟨.known .map arguments, qualifier⟩ provider
    | none =>
      .problem (.errorAt Code.invalidProvides
        ("@IntoMap must have return type of type: Pair, found: " ++ returns.displayText) f.element)
  else .binding ⟨returns, qualifier⟩ provider

/-- What is found at a providing member of a level. -/
def providesFindings (m : Model) (o : Options) (level : Level) (f : Callable) : List Finding :=
  let returns := f.returnsFor m level.component
  if f.isPrivate then
    [.problem (.errorAt Code.invalidProvides
      ("@Provides method must not be private: " ++ f.name) f.element)]
  else if returns.isUnit then
    [.problem (.errorAt Code.invalidProvides
      ("@Provides method must return a value: " ++ f.name) f.element)]
  else scopeProblems o level f ++ [contribution o level f returns]

/-- What is found at a member of a level. -/
def memberFindings (m : Model) (o : Options) (level : Level) (f : Callable) : List Finding :=
  if Role.isProvides f then providesFindings m o level f
  else if Role.isProvider f then
    let key : Key := ⟨f.returnsFor m level.component, Role.qualifier? o f.annotations⟩
    let provider : Provider := ⟨f, level.accessor, none⟩
    match level.accessor with
    | none => [.requirement key provider]
    | some _ => [.binding key provider]
  else []

/-- What is found at the members of a level. -/
def levelFindings (m : Model) (o : Options) (level : Level) : List Finding :=
  (level.component.allMembers m).flatMap (memberFindings m o level)

/-- What is found at an arrival: problems of the parameter, the scope of the component, and, when
it is met for the first time, its members. -/
def arrivalFindings (m : Model) (o : Options) : Arrival × Bool → List Finding
  | (a, isNew) =>
    (match a.via with
      | some p => if a.fromStart then paramProblems p else []
      | none => [])
    ++ match a.component with
      | none => []
      | some c =>
        let search := Role.findScope m o c
        scopeFindings a.accessor search
          ++ if isNew then levelFindings m o ⟨c, a.accessor, ownerOf a.accessor search⟩ else []

/-- Everything found on the walk from a component. -/
def findings (m : Model) (o : Options) (c : Classifier) : List Finding :=
  (Arrival.walk m c).flatMap (arrivalFindings m o)

end Wiring.Collect

namespace Wiring.Catalogue

/-- The catalogue of a component. -/
def collect (m : Model) (o : Options) (c : Classifier) : Catalogue :=
  ofFindings c (Collect.findings m o c)

end Wiring.Catalogue
