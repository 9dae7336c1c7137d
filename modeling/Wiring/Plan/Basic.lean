import Wiring.Catalogue.Basic

/-!
# Construction plans

How one requested value is built, as a tree that has the shape of the object graph the generated
code builds.
-/

namespace Wiring

/-- Parameters of a lambda: their types, and the names they are bound to. -/
abbrev LambdaParams := List (TypeExpr × String)

/-- A construction plan. -/
inductive Plan where
  /-- Call a member of the component reached by the accessor. -/
  | call (accessor : Option String) (callable : Callable) (args : List Plan)
  /-- Call an extension member on a receiver, inside the component reached by the accessor. -/
  | extensionCall (accessor : Option String) (callable : Callable) (receiver : Plan)
      (args : List Plan)
  /-- Take the value from the cache of a scope owner, or build it and put it there. -/
  | cached (accessor : Option String) (owner : Classifier) (cacheKey : String) (inner : Plan)
  /-- Call a constructor. -/
  | construct (constructor : Constructor) (args : List Plan)
  /-- Make a collection of its contributors. -/
  | container (builder : Builder) (parts : List Plan)
  /-- A lambda. -/
  | function (params : LambdaParams) (body : Plan)
  /-- A lambda that calls a top-level function. -/
  | namedFunction (callable : Callable) (params : LambdaParams) (args : List Plan)
  /-- A parameter of an enclosing lambda. -/
  | arg (name : String)
  /-- A value that is built when it is first used. -/
  | lazy (inner : Plan)
  deriving Repr, Inhabited

namespace Plan

/-- Whether the call is written inside the component it goes to, so that the receiver is looked up
there: an extension member of a parent. -/
def entersScope : Plan → Bool
  | extensionCall accessor _ _ _ => accessor.isSome
  | _ => false

mutual

/-- Whether two plans build the same value in the same way: declarations count by their identity,
whatever handles they are given by. -/
def same : Plan → Plan → Bool
  | call a f as, call a' f' as' => a == a' && f.element.same f'.element && sameList as as'
  | extensionCall a f r as, extensionCall a' f' r' as' =>
    a == a' && f.element.same f'.element && same r r' && sameList as as'
  | cached a o k p, cached a' o' k' p' =>
    a == a' && o.element.same o'.element && k == k' && same p p'
  | construct c as, construct c' as' => c.element.same c'.element && sameList as as'
  | container b as, container b' as' => b == b' && sameList as as'
  | function ps p, function ps' p' => ps == ps' && same p p'
  | namedFunction f ps as, namedFunction f' ps' as' =>
    f.element.same f'.element && ps == ps' && sameList as as'
  | arg n, arg n' => n == n'
  | lazy p, lazy p' => same p p'
  | _, _ => false

/-- Whether two lists of plans are the same plan by plan. -/
def sameList : List Plan → List Plan → Bool
  | [], [] => true
  | p :: ps, p' :: ps' => same p p' && sameList ps ps'
  | _, _ => false

end

end Plan

end Wiring
