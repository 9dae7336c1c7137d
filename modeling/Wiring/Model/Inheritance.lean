import Wiring.Model.Basic
import Wiring.Walk

/-!
# Inheritance

The ancestors of a class in the order in which their members count, and the types of inherited
members as a subclass sees them: type parameters of the declaring class are replaced by what the
subclass supplies along its supertypes. Hierarchies may share ancestors and may even be cyclic.
-/

namespace Wiring

/-- Types given to type parameters; the first entry of a name counts. -/
abbrev Bindings := List (String × TypeExpr)

namespace TypeExpr

mutual

/-- Replace every reference to a bound type parameter: a bare name without arguments that is no
alias. A nullable reference makes its replacement nullable. -/
def substitute (b : Bindings) : TypeExpr → TypeExpr
  | declared p n as q =>
    match (if p.isEmpty && as.isEmpty then b.lookup n else none) with
    | some t => if q then t.withNullable true else t
    | none => declared p n (substituteList b as) q
  | aliased p n as q t => aliased p n (substituteList b as) q (substitute b t)

/-- Replace the bound type parameters in several types. -/
def substituteList (b : Bindings) : List TypeExpr → List TypeExpr
  | [] => []
  | t :: ts => substitute b t :: substituteList b ts

end

/-- Types one after the other are substituted one by one. -/
@[simp] theorem substituteList_eq_map (b : Bindings) (ts : List TypeExpr) :
    substituteList b ts = ts.map (substitute b) := by
  induction ts with
  | nil => rfl
  | cons t ts ih => simp [substituteList, ih]

end TypeExpr

namespace Model

/-- The number of supertypes written in the program. -/
def superTypeCount (m : Model) : Nat :=
  total (fun c => c.superTypes.length) m.declarations.classes

/-- The types given to the type parameters of `c` by the type arguments `arguments`. Of two
parameters with one name the later counts. -/
def bind (c : Classifier) (arguments : List TypeExpr) : Bindings :=
  (c.decl.typeParameters.zip arguments).reverse

end Model

namespace Classifier

/-- The supertypes as they are written; a companion has none. -/
def superTypes (c : Classifier) : List TypeExpr :=
  if c.isCompanion then [] else c.decl.superTypes

/-- The classes that the supertypes name, in order; types that name no class are left out. -/
def superClasses (m : Model) (c : Classifier) : List Classifier :=
  c.superTypes.filterMap m.classOf

/-- The class and its ancestors, depth first, each once. -/
def chain (m : Model) (c : Classifier) : List Classifier :=
  Walk.preorder (·.path) (superClasses m) (m.superTypeCount + c.superTypes.length + 1) [c]

/-- The supertypes of a class whose type parameters are bound, as classes with bound type
parameters, from the last supertype to the first. -/
def boundSupers (m : Model) (c : Classifier) (b : Bindings) : List (Classifier × Bindings) :=
  (c.decl.superTypes.filterMap fun t =>
    (m.classOf t).map fun s =>
      (s, Model.bind s (t.resolved.arguments.map (TypeExpr.substitute b)))).reverse

/-- What the supertypes of a class bind the type parameters of each ancestor to. The walk takes
the last supertype first. -/
def instantiations (m : Model) (c : Classifier) : List (Classifier × Bindings) :=
  Walk.preorder (fun n => n.1.index) (fun n => n.1.boundSupers m n.2)
    (m.superTypeCount + c.decl.superTypes.length + 1) [(c, [])]

/-- The types that the class supplies for the type parameters of the class at a place among the
declared classes; `none` when that is no ancestor. -/
def supplied (m : Model) (c : Classifier) (index : Nat) : Option Bindings :=
  ((c.instantiations m).find? fun n => n.1.index == index).map (·.2)

end Classifier

namespace Callable

/-- The result type as seen from `c`, a class that inherits the member. Seen from a class that
does not, and for a top-level function, it is the declared type. -/
def returnsFor (m : Model) (c : Classifier) (f : Callable) : TypeExpr :=
  match f.origin with
  | .function _ => f.returns
  | .member index _ =>
    match (m.classNamed c.path).bind fun c => c.supplied m index with
    | some b => f.returns.substitute b
    | none => f.returns

end Callable

namespace Model

/-- Whether a value of type `source` can be used where `target` is wanted: the types are equal, or
`target` is, up to a nullable mark it may add, `source` itself or a supertype written on `source`
or one of its ancestors. -/
def isAssignable (m : Model) (target source : TypeExpr) : Bool :=
  target == source
    || ((target.nullable || !source.nullable)
      && (source.nonNull == target.nonNull
        || ((m.classOf source).elim [] (·.chain m)).any fun c =>
          c.superTypes.contains target.nonNull))

end Model

end Wiring
