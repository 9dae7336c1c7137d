import Wiring.Layout.Basic
import Wiring.Plan.Basic
import Wiring.Text.Literal

/-!
# Expressions of plans

The source expression that builds a plan. Every name is qualified, so the generated text needs no
imports.
-/

namespace Wiring.Emit

/-- The runtime type of components that own a scope cache. -/
def scopedComponent : String := "me.tatarka.inject.internal.ScopedComponent"

/-- The runtime type of a scope cache. -/
def lazyMap : String := "me.tatarka.inject.internal.LazyMap"

/-- The runtime type of class references. -/
def classReference : String := "kotlin.reflect.KClass"

/-- A lambda with the given body. -/
def lambda (params : LambdaParams) (body : Doc) : Doc :=
  if params.isEmpty then .block "\x7b" body
  else .block ("\x7b " ++ ", ".intercalate (params.map (·.2)) ++ " ->") body

/-- The scope cache reached by an accessor. -/
def cache : Option String → String
  | some a => "(" ++ a ++ " as " ++ scopedComponent ++ ")._scoped"
  | none => "_scoped"

/-- A call inside the component reached by an accessor. -/
def through (accessor : Option String) (call : Doc) : Doc :=
  match accessor with
  | some a => .concat [.text (a ++ "."), call]
  | none => call

/-- A call inside the component reached by an accessor, which is entered for it. -/
def inside (accessor : Option String) (call : Doc) : Doc :=
  match accessor with
  | some a => .block ("with(" ++ a ++ ") \x7b") call
  | none => call

/-- The name of a member and, for a function, its arguments. -/
def callParts (f : Callable) (args : List Doc) : List Doc :=
  .text f.callName
    :: match f.kind with
      | .function => [.delimited "(" args ")"]
      | .property => []

mutual

/-- The expression that builds a plan. -/
def expression : Plan → Doc
  | .call a f as => through a (.concat (callParts f (expressions as)))
  | .extensionCall a f r as =>
    inside a (.concat (expression r :: .text "." :: callParts f (expressions as)))
  | .cached a _ key p =>
    .block (cache a ++ ".get(\"" ++ Text.Literal.escape key ++ "\") \x7b") (expression p)
  | .construct k as =>
    .concat [.text k.type.qualifiedName, .delimited "(" (expressions as) ")"]
  | .container b as => .concat [.text b.name, .delimited "(" (expressions as) ")"]
  | .function ps p => lambda ps (expression p)
  | .namedFunction f ps as =>
    lambda ps (.concat [.text f.callName, .delimited "(" (expressions as) ")"])
  | .arg n => .text n
  | .lazy p => .block "lazy \x7b" (expression p)

/-- The expressions that build several plans. -/
def expressions : List Plan → List Doc
  | [] => []
  | p :: ps => expression p :: expressions ps

end

end Wiring.Emit
