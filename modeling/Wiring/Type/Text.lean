import Wiring.Type.Basic

/-!
# Type expressions as text

Two written forms. In source text every name is qualified; in messages the names of the packages
that need no import stand alone. Function types are written with an arrow, unless they are known
by the name of an alias.
-/

namespace Wiring.TypeExpr

/-- Packages whose names are visible without an import. -/
def defaultImports : List String :=
  ["kotlin", "kotlin.annotation", "kotlin.collections", "kotlin.comparisons", "kotlin.io",
    "kotlin.ranges", "kotlin.sequences", "kotlin.text"]

/-- How the names in a written type are qualified. -/
inductive Style where
  /-- Every name in full, for source text. -/
  | source
  /-- Names of the default imports alone, for messages. -/
  | display
  deriving DecidableEq, Repr

/-- A written name. -/
def Style.name : Style → (package name : String) → String
  | source, p, n => qualify p n
  | display, p, n => if p ∈ defaultImports then n else qualify p n

/-- Whether a name applied to arguments is written with an arrow. -/
def isArrow (package name : String) (arguments : List TypeExpr) : Bool :=
  package == "kotlin" && !arguments.isEmpty && isFunctionName name

/-- The mark after a type. -/
def mark (nullable : Bool) : String := if nullable then "?" else ""

/-- Arguments in angle brackets; nothing for none. -/
def bracketed (arguments : List String) : String :=
  if arguments.isEmpty then "" else "<" ++ ", ".intercalate arguments ++ ">"

/-- An arrow type whose written parameters and result are given as one list. -/
def arrow (parts : List String) (nullable : Bool) : String :=
  let text := "(" ++ ", ".intercalate parts.dropLast ++ ") -> " ++ parts.getLastD ""
  if nullable then "(" ++ text ++ ")?" else text

mutual

/-- A type in the given style. -/
def write (style : Style) : TypeExpr → String
  | declared p n as q =>
    if isArrow p n as then arrow (writeList style as) q
    else style.name p n ++ bracketed (writeList style as) ++ mark q
  | aliased p n as q _ => style.name p n ++ bracketed (writeList style as) ++ mark q

/-- Types in the given style, one text each. -/
def writeList (style : Style) : List TypeExpr → List String
  | [] => []
  | t :: ts => write style t :: writeList style ts

end

/-- The type as it stands in source text. -/
def sourceText (t : TypeExpr) : String := t.write .source

/-- The type as it stands in messages. -/
def displayText (t : TypeExpr) : String := t.write .display

/-- Types one after the other are written one by one. -/
@[simp] theorem writeList_eq_map (style : Style) (ts : List TypeExpr) :
    writeList style ts = ts.map (write style) := by
  induction ts with
  | nil => rfl
  | cons t ts ih => simp [writeList, ih]

end Wiring.TypeExpr
