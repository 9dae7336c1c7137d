import Wiring.Catalogue.Lookup
import Wiring.Resolve.Context

/-!
# Candidates

How a key is going to be satisfied, before its dependencies are looked at. A lambda parameter at
the right place comes first, then the catalogue, then what a type offers by itself: a function type
is a lambda or a call of a named function, and a lazy type is built from what it holds.
-/

namespace Wiring

/-- How a key is going to be satisfied. -/
inductive Candidate where
  | provides (provider : Provider)
  /-- Through the cache of a scope owner. -/
  | cached (owner : ScopeOwner)
  | construct (constructor : Constructor)
  | container (builder : Builder) (parts : List Provider)
  | function (element : Element) (params : List TypeExpr) (result : Key)
  | namedFunction (callable : Callable) (params : List TypeExpr)
  | arg (name : String)
  | lazy (inner : Key)
  deriving Repr, Inhabited

/-- What requests are resolved against. -/
structure Resolver where
  model : Model
  options : Options
  catalogue : Catalogue
  deriving Repr, Inhabited

namespace Resolver

/-- Use a binding through its scope cache if it has one, unless that cache entry is the one being
filled. -/
def ofBinding (key : Key) (c : Context) (b : Binding) : Candidate :=
  match b.scope?, c.skipScoped == some key.type with
  | some owner, false => .cached owner
  | _, _ =>
    match b with
    | .constructor k _ => .construct k
    | .provider p => .provides p
    | .container k => .container k.builder k.parts

/-- The injectable function that an alias of a function type is named after. -/
def namedFunction? (r : Resolver) (t : TypeExpr) : Option Callable :=
  if t.isAlias then (r.model.functionsNamed t.package t.name).find? Role.isInjectFunction
  else none

/-- What the type of a key offers by itself. -/
def intrinsic (r : Resolver) (key : Key) : Option Candidate :=
  match key.type.signature? with
  | some (params, result) =>
    match r.namedFunction? key.type with
    | some f => some (.namedFunction f params)
    | none => some (.function (.ofType key.type) params ⟨result, key.qualifier⟩)
  | none =>
    if key.type.isKnown .lazy then
      key.type.resolved.arguments.head?.map fun inner => .lazy ⟨inner, key.qualifier⟩
    else none

/-- The candidate for a key, without regard to lambda parameters. -/
def find (r : Resolver) (key : Key) (c : Context) : Except Failure (Option Candidate) :=
  match r.catalogue.resolve r.model r.options key (c.skipProvider == some key.type) with
  | .ok (some b) => .ok (some (ofBinding key c b))
  | .ok none => .ok (r.intrinsic key)
  | .error e => .error (.unresolvableScope e.type e.scope c.path.trace c.source)

/-- The lambda parameter that is as far from the end of the parameters in scope as the wanted
value is from the end of its own list, when its type fits. -/
def argAt? (r : Resolver) (key : Key) (c : Context) (fromEnd : Nat) : Option String :=
  match c.args.reverse[fromEnd]? with
  | some (t, name) => if r.model.isAssignable key.type t then some name else none
  | none => none

/-- The candidate for a key; `fromEnd` is the place of a parameter, counted from the last one. -/
def candidate (r : Resolver) (key : Key) (c : Context) (fromEnd : Option Nat) :
    Except Failure (Option Candidate) :=
  match fromEnd.bind (r.argAt? key c) with
  | some name => .ok (some (.arg name))
  | none => r.find key c

end Resolver

end Wiring
