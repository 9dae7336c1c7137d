import Wiring.Declaration.Basic
import Wiring.Type.Text

/-!
# Elements

A handle on one declaration, for messages and for the path of what is being resolved. Its identity
is its kind and its path alone: the text shown in traces and the place in the source take no part
in it, so two handles on one declaration are interchangeable.
-/

namespace Wiring

/-- What kind of thing an element stands for. -/
inductive ElementKind where
  | classifier
  | member
  | constructor
  | function
  | parameter
  | type
  deriving DecidableEq, Repr, Inhabited

/-- The identity of an element. -/
structure ElementId where
  kind : ElementKind
  path : String
  deriving DecidableEq, Repr, Inhabited

/-- A handle on a declaration. -/
structure Element where
  id : ElementId
  /-- How the element is shown in traces. -/
  trace : String
  /-- Where it is declared, when that is known. -/
  span : Option Span := none
  deriving DecidableEq, Repr, Inhabited

namespace Element

/-- The element of a kind at a path. -/
def make (kind : ElementKind) (path trace : String) (span : Option Span) : Element :=
  ⟨⟨kind, path⟩, trace, span⟩

/-- The element that stands for a type without a declaration, such as a function type. -/
def ofType (t : TypeExpr) : Element :=
  make .type t.displayText t.displayText none

/-- Whether two elements are handles on the same declaration. -/
def same (a b : Element) : Bool := a.id == b.id

end Element

end Wiring
