import Wiring.Resolve.Candidate

/-!
# Resolution

From a key to the whole plan that builds it. One step turns a request into requests for what the
chosen candidate needs; resolution is that step repeated. Every step enters an element that is not
on the path, unwraps a type, or turns to the cache entry of the same key, so the depth of requests
is bounded by the size of the program and of the key, and resolution is run up to that bound.
-/

namespace Wiring

/-- A request for the value of a key. -/
structure Request where
  key : Key
  context : Context
  /-- The place among the parameters of a call, counted from the last one. -/
  fromEnd : Option Nat := none
  deriving Repr, Inhabited

/-- Lambda parameters of the given types, called `arg0`, `arg1` and so on. -/
def LambdaParams.ofTypes (types : List TypeExpr) : LambdaParams :=
  types.zipIdx.map fun (t, i) => (t, "arg" ++ toString i)

/-- An accessor as it is written inside the component `parent`. -/
def relativeAccessor (parent : Option String) (accessor : String) : String :=
  match parent with
  | none => accessor
  | some p => (Text.afterHead? (p ++ ".") accessor).getD accessor

namespace Resolver

section Step

variable (r : Resolver) (answer : Request → Except Failure Plan)

/-- The key of a parameter. -/
def paramKey (p : Param) : Key := ⟨p.type, Role.qualifier? r.options p.annotations⟩

/-- The plans of the parameters of a call. -/
def planParams (c : Context) : List Param → Except Failure (List Plan)
  | [] => .ok []
  | p :: ps => do
    let plan ← answer ⟨r.paramKey p, c, some ps.length⟩
    let plans ← planParams c ps
    return plan :: plans

/-- The plan of a call of a providing member. An extension member of a parent is called inside that
parent, and what it needs is planned there. -/
def planCall (p : Provider) (c : Context) : Except Failure Plan :=
  c.entering p.callable.element fun c => do
    let accessor := p.accessor.map (relativeAccessor c.parentScope)
    match p.callable.receiver with
    | none =>
      let args ← planParams r answer c p.callable.params
      return .call accessor p.callable args
    | some type =>
      let c := c.withParentScope accessor
      let receiver ← answer ⟨⟨type, Role.qualifier? r.options p.callable.annotations⟩, c, none⟩
      let args ← planParams r answer c p.callable.params
      return .extensionCall accessor p.callable receiver args

/-- The plans of the contributors of a collection. -/
def planParts (c : Context) : List Provider → Except Failure (List Plan)
  | [] => .ok []
  | p :: ps => do
    let plan ← planCall r answer p c
    let plans ← planParts c ps
    return plan :: plans

/-- The plan of a candidate. -/
def planCandidate (key : Key) (c : Context) : Candidate → Except Failure Plan
  | .provides p => planCall r answer p c
  | .cached owner => do
    let inner ← answer ⟨key, c.withoutScoped key.type, none⟩
    return .cached owner.accessor owner.component key.type.sourceText inner
  | .construct k =>
    c.entering k.element fun c => do
      let args ← planParams r answer c k.params
      return .construct k args
  | .container builder parts => do
    let plans ← planParts r answer c parts
    return .container builder plans
  | .function element types result =>
    c.entering element fun c => do
      let params := LambdaParams.ofTypes types
      let body ← answer ⟨result, c.withArgs params, none⟩
      return .function params body
  | .namedFunction f types =>
    c.entering f.element fun c => do
      let params := LambdaParams.ofTypes types
      let args ← planParams r answer (c.withArgs params) f.params
      return .namedFunction f params args
  | .arg name => .ok (.arg name)
  | .lazy inner => do
    let plan ← answer ⟨inner, c, none⟩
    return .lazy plan

/-- One step of resolution: choose a candidate, and plan it with the given answers to the requests
it makes. -/
def step (q : Request) : Except Failure Plan := do
  match ← r.candidate q.key q.context q.fromEnd with
  | none => .error (.noBinding q.key q.context.path.trace q.context.source)
  | some candidate => planCandidate r answer q.key q.context candidate

end Step

/-- Resolution up to a depth of requests. -/
def provideWithin (r : Resolver) : Nat → Request → Except Failure Plan
  | 0, q => .error (.lazyCycle q.context.path.trace q.context.source)
  | depth + 1, q => r.step (r.provideWithin depth) q

end Resolver

/-- The number of names in the types of parameters, and of the parameters. -/
def ParamDecl.weight (params : List ParamDecl) : Nat :=
  total (fun p => 1 + p.type.size) params

/-- The number of members of a class and of names in their types. -/
def MemberDecl.weight (members : List MemberDecl) : Nat :=
  total (fun d =>
    1 + ParamDecl.weight d.params + d.receiver.elim 0 TypeExpr.size + d.returns.size) members

/-- The number of things declared in a program and of names in their types. -/
def Model.weight (m : Model) : Nat :=
  total (fun c =>
    1 + TypeExpr.sizeList c.superTypes
      + (c.constructor.elim 0 fun k => 1 + ParamDecl.weight k.params)
      + MemberDecl.weight c.members) m.declarations.classes
    + total (fun f => 1 + ParamDecl.weight f.params + f.returns.size) m.declarations.functions

/-- A depth that no chain of requests for a key exceeds: an element is entered at most once, and
between two elements each name of a type is unwrapped or cached at most once. -/
def Resolver.depthBound (r : Resolver) (key : Key) : Nat :=
  let n := r.model.weight + key.type.size
  (n + 1) * (2 * n + 2) + 1

/-- The plan that builds the value of a key. -/
def Resolver.provide (r : Resolver) (key : Key) (c : Context) : Except Failure Plan :=
  r.provideWithin (r.depthBound key) ⟨key, c, none⟩

end Wiring
