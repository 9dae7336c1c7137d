import Wiring.Type.Text

/-!
# Keys

What is asked for: a type, and possibly a qualifier that tells values of one type apart. A
qualifier is known by its type alone.
-/

namespace Wiring

/-- A type together with an optional qualifier. -/
structure Key where
  type : TypeExpr
  /-- The type of the qualifying annotation. -/
  qualifier : Option TypeExpr := none
  deriving DecidableEq, Repr, Inhabited

/-- The key as it stands in messages. -/
def Key.displayText (k : Key) : String :=
  match k.qualifier with
  | some q => "@" ++ q.displayText ++ " " ++ k.type.displayText
  | none => k.type.displayText

end Wiring
