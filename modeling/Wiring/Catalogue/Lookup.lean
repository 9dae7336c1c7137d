import Wiring.Catalogue.Basic

/-!
# Looking up bindings

The binding that satisfies a key. Explicit bindings come first, then collections, then, for a key
without qualifier, the constructor of an injectable class, and last the requirements of the
component itself, which a requirement that is being satisfied has to leave out.
-/

namespace Wiring

/-- An injectable class was asked for, but no component in reach owns its scope. -/
structure MissingScope where
  type : TypeExpr
  scope : TypeExpr
  deriving Repr, Inhabited

namespace Catalogue

/-- The first owner of a scope. -/
def ownerOf? (c : Catalogue) (scope : TypeExpr) : Option ScopeOwner :=
  c.owners.find? fun o => o.scope == scope

/-- The constructor binding of a type that names an injectable class. -/
def constructorBinding (m : Model) (o : Options) (c : Catalogue) (t : TypeExpr) :
    Except MissingScope (Option Binding) :=
  match m.classOf t with
  | none => .ok none
  | some cls =>
    if Role.isInjectClass m o cls then
      match cls.constructor? m with
      | none => .ok none
      | some k =>
        match Role.scope? o (cls.annotations m) with
        | none => .ok (some (.constructor k none))
        | some scope =>
          match c.ownerOf? scope with
          | some owner => .ok (some (.constructor k (some owner)))
          | none => .error ⟨t, scope⟩
    else .ok none

/-- The requirement of the component itself that has a key. -/
def requirementBinding (c : Catalogue) (key : Key) (skipOwn : Bool) : Option Binding :=
  if skipOwn then none else (c.requirements.lookup key).map .provider

/-- The binding that satisfies a key. With `skipOwn` the requirements of the component itself are
left out. -/
def resolve (m : Model) (o : Options) (c : Catalogue) (key : Key) (skipOwn : Bool) :
    Except MissingScope (Option Binding) :=
  match c.bindings.lookup key with
  | some p => .ok (some (.provider p))
  | none =>
    match c.containers.lookup key with
    | some k => .ok (some (.container k))
    | none =>
      match key.qualifier with
      | some _ => .ok (c.requirementBinding key skipOwn)
      | none =>
        match c.constructorBinding m o key.type with
        | .error e => .error e
        | .ok (some b) => .ok (some b)
        | .ok none => .ok (c.requirementBinding key skipOwn)

end Catalogue

end Wiring
