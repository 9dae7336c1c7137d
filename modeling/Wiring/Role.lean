import Wiring.Model.Inheritance
import Wiring.Options

/-!
# Roles of declarations

What annotations make of a declaration: its scope and qualifier, whether a class can be
constructed, and whether a member provides a value or asks for one. The older annotations count
only when the options ask for them; an older scope is then preferred to a native one, and a native
qualifier to an older one.
-/

namespace Wiring.Role

/-- The scope among the annotations of a declaration. -/
def scope? (o : Options) (annotations : List Annotation) : Option TypeExpr :=
  let native := Annotation.typeMarked Annotation.scope annotations
  let older := Annotation.typeMarked Annotation.javaxScope annotations
  if o.javax then older.or native else native

/-- The type of the qualifier among the annotations of a declaration. -/
def qualifier? (o : Options) (annotations : List Annotation) : Option TypeExpr :=
  let native := Annotation.typeMarked Annotation.qualifier annotations
  let older := Annotation.typeMarked Annotation.javaxQualifier annotations
  if o.javax then native.or older else native

/-- Whether the annotations are those of a component, or of a parameter that holds one. -/
def isComponent (annotations : List Annotation) : Bool :=
  Annotation.isAmong Annotation.component annotations

/-- Whether a member provides its result. -/
def isProvides (f : Callable) : Bool := Annotation.isAmong Annotation.provides f.annotations

/-- Whether a member provides an element of a set. -/
def isIntoSet (f : Callable) : Bool := Annotation.isAmong Annotation.intoSet f.annotations

/-- Whether a member provides an entry of a map. -/
def isIntoMap (f : Callable) : Bool := Annotation.isAmong Annotation.intoMap f.annotations

/-- Whether a function may stand behind an alias of a function type. -/
def isInjectFunction (f : Callable) : Bool := Annotation.isAmong Annotation.inject f.annotations

/-- Whether a class may be made through its primary constructor. -/
def isInjectClass (m : Model) (o : Options) (c : Classifier) : Bool :=
  Annotation.isAmong Annotation.inject (c.annotations m)
    || match c.constructor? m with
      | none => false
      | some k =>
        Annotation.isAmong Annotation.inject k.annotations
          || (o.javax && Annotation.isAmong Annotation.javaxInject k.annotations)

/-- Whether a member is a requirement of its component: abstract, without parameters and receiver,
returning something, and not itself providing. -/
def isProvider (f : Callable) : Bool :=
  !isProvides f && f.isAbstract
    && (match f.kind with
      | .function => f.params.isEmpty
      | .property => true)
    && f.receiver.isNone && !f.returns.isUnit

/-- What was found in an inheritance chain on the search for scopes. -/
structure ScopeSearch where
  /-- The first class with a scope, and the scope. -/
  found : Option (Classifier × TypeExpr) := none
  /-- Every further class with a scope. -/
  conflicts : List (Classifier × TypeExpr) := []
  deriving Repr, Inhabited

/-- The classes of the inheritance chain that have a scope, in order. -/
def scopedAncestors (m : Model) (o : Options) (c : Classifier) : List (Classifier × TypeExpr) :=
  (c.chain m).filterMap fun a => (scope? o (a.annotations m)).map fun s => (a, s)

/-- Search a class and its ancestors for scopes. -/
def findScope (m : Model) (o : Options) (c : Classifier) : ScopeSearch :=
  match scopedAncestors m o c with
  | [] => {}
  | first :: rest => { found := some first, conflicts := rest }

end Wiring.Role
