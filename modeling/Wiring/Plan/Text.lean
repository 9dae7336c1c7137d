import Wiring.Plan.Basic

/-!
# Plans as text

A plan on one line, for messages and tests: each node by its kind and what it calls, followed by
the plans below it.
-/

namespace Wiring.Plan

/-- The names of lambda parameters and an arrow; nothing when there are none. -/
def lambdaText (params : LambdaParams) : String :=
  if params.isEmpty then "" else ", ".intercalate (params.map (·.2)) ++ " -> "

/-- An accessor with the dot after it. -/
def accessorText : Option String → String
  | some a => a ++ "."
  | none => ""

mutual

/-- The plan on one line. -/
def displayText : Plan → String
  | call a f as => "Provides(" ++ accessorText a ++ f.name ++ argsText as ++ ")"
  | extensionCall a f r as =>
    "Provides(" ++ accessorText a ++ f.name ++ ", receiver: " ++ displayText r ++ argsText as ++ ")"
  | cached _ _ _ p => "Scoped(" ++ displayText p ++ ")"
  | construct c as => "Constructor(" ++ c.type.displayText ++ argsText as ++ ")"
  | container b as => "Container(" ++ b.name ++ argsText as ++ ")"
  | function ps p => "Function(" ++ lambdaText ps ++ displayText p ++ ")"
  | namedFunction f ps as =>
    "NamedFunction(" ++ lambdaText ps ++ f.callName ++ argsText as ++ ")"
  | arg n => "Arg(" ++ n ++ ")"
  | lazy p => "Lazy(" ++ displayText p ++ ")"

/-- Plans in a list, each with a comma in front. -/
def argsText : List Plan → String
  | [] => ""
  | p :: ps => ", " ++ displayText p ++ argsText ps

end

end Wiring.Plan
