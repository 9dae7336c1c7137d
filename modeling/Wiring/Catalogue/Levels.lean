import Wiring.Role

/-!
# Component levels

A component reaches its parent components through constructor parameters, and their parents in
turn. The walk goes depth first, and a component met again is not entered a second time, so shared
and even circular parents are gone through once, by the first path that reaches them.
-/

namespace Wiring

/-- A component reached on the walk. -/
structure Arrival where
  /-- The parameter that was followed; none at the start. -/
  via : Option Param
  /-- Whether that parameter belongs to the component where the walk started. -/
  fromStart : Bool
  /-- The component reached; none when the type of the parameter names no class. -/
  component : Option Classifier
  /-- The path of parameters; none at the start. -/
  accessor : Option String
  deriving Repr, Inhabited

namespace Arrival

/-- The arrival at the component where the walk starts. -/
def start (c : Classifier) : Arrival := ⟨none, false, some c, none⟩

/-- A path of parameters extended by one. -/
def extend (accessor : Option String) (name : String) : String :=
  match accessor with
  | some path => path ++ "." ++ name
  | none => name

/-- The constructor parameters of a class that hold components. -/
def componentParams (m : Model) (c : Classifier) : List Param :=
  match c.constructor? m with
  | some k => k.params.filter fun p => Role.isComponent p.annotations
  | none => []

/-- The components reached from here in one step. -/
def onward (m : Model) (a : Arrival) : List Arrival :=
  match a.component with
  | none => []
  | some c =>
    (componentParams m c).map fun p => {
      via := some p
      fromStart := a.accessor.isNone
      component := m.classOf p.type
      accessor := some (extend a.accessor p.name) }

/-- The number of constructor parameters in the program. -/
def paramCount (m : Model) : Nat :=
  total (fun c => (c.constructor.elim [] (·.params)).length) m.declarations.classes

/-- The arrivals of the walk from a component, each with whether its component is met for the
first time. -/
def walk (m : Model) (c : Classifier) : List (Arrival × Bool) :=
  Walk.meetings (fun a => a.component.map (·.path)) (onward m)
    (paramCount m + (c.decl.constructor.elim [] (·.params)).length + 1) [start c] []

end Arrival

namespace Classifier

/-- The callables that no earlier one has the shape of. -/
def dropOverridden : (earlier : List Callable) → List Callable → List Callable
  | _, [] => []
  | earlier, f :: fs =>
    if earlier.any (·.overrides f) then dropOverridden earlier fs
    else f :: dropOverridden (earlier ++ [f]) fs

/-- The members of a class and its ancestors in chain order, without those that are overridden. -/
def allMembers (m : Model) (c : Classifier) : List Callable :=
  dropOverridden [] ((c.chain m).flatMap (members m))

end Classifier

end Wiring
