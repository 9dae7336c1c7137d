import Wiring.Text.Affix

/-!
# Type expressions

A type as it is written in a declaration: a name in a package applied to arguments, possibly
nullable. An alias keeps its own name and carries the type it stands for. Two expressions are the
same type when they are written the same way, so equality is structural and decidable.
-/

namespace Wiring

/-- A type expression. -/
inductive TypeExpr where
  /-- A name in a package, applied to arguments. -/
  | declared (package name : String) (arguments : List TypeExpr) (nullable : Bool)
  /-- An alias of `target`. -/
  | aliased (package name : String) (arguments : List TypeExpr) (nullable : Bool)
      (target : TypeExpr)
  deriving Repr

namespace TypeExpr

instance : Inhabited TypeExpr := ⟨.declared "" "" [] false⟩

mutual

/-- Structural equality of type expressions is decidable. -/
def decEq : (a b : TypeExpr) → Decidable (a = b)
  | .declared p n as q, .declared p' n' as' q' =>
    match decEqList as as' with
    | isTrue h =>
      if h' : p = p' ∧ n = n' ∧ q = q' then isTrue (by simp [h, h'])
      else isFalse (by intro e; cases e; exact h' ⟨rfl, rfl, rfl⟩)
    | isFalse h => isFalse (by intro e; cases e; exact h rfl)
  | .aliased p n as q t, .aliased p' n' as' q' t' =>
    match decEqList as as', decEq t t' with
    | isTrue h, isTrue ht =>
      if h' : p = p' ∧ n = n' ∧ q = q' then isTrue (by simp [h, ht, h'])
      else isFalse (by intro e; cases e; exact h' ⟨rfl, rfl, rfl⟩)
    | isFalse h, _ => isFalse (by intro e; cases e; exact h rfl)
    | _, isFalse h => isFalse (by intro e; cases e; exact h rfl)
  | .declared .., .aliased .. => isFalse (by intro e; cases e)
  | .aliased .., .declared .. => isFalse (by intro e; cases e)

/-- Structural equality of lists of type expressions is decidable. -/
def decEqList : (as bs : List TypeExpr) → Decidable (as = bs)
  | [], [] => isTrue rfl
  | [], _ :: _ => isFalse (by intro e; cases e)
  | _ :: _, [] => isFalse (by intro e; cases e)
  | a :: as, b :: bs =>
    match decEq a b, decEqList as bs with
    | isTrue h, isTrue h' => isTrue (by simp [h, h'])
    | isFalse h, _ => isFalse (by intro e; cases e; exact h rfl)
    | _, isFalse h => isFalse (by intro e; cases e; exact h rfl)

end

instance : DecidableEq TypeExpr := decEq

/-- The package of the name; empty for the root package and for type parameters. -/
def package : TypeExpr → String
  | declared p _ _ _ | aliased p _ _ _ _ => p

/-- The name inside the package. -/
def name : TypeExpr → String
  | declared _ n _ _ | aliased _ n _ _ _ => n

/-- The type arguments. -/
def arguments : TypeExpr → List TypeExpr
  | declared _ _ as _ | aliased _ _ as _ _ => as

/-- Whether the type itself is marked nullable. -/
def nullable : TypeExpr → Bool
  | declared _ _ _ q | aliased _ _ _ q _ => q

/-- The type an alias stands for. -/
def target? : TypeExpr → Option TypeExpr
  | declared .. => none
  | aliased _ _ _ _ t => some t

/-- The same type with the nullable mark set or cleared. -/
def withNullable (q : Bool) : TypeExpr → TypeExpr
  | declared p n as _ => declared p n as q
  | aliased p n as _ t => aliased p n as q t

/-- The same type applied to other arguments. -/
def withArguments (as : List TypeExpr) : TypeExpr → TypeExpr
  | declared p n _ q => declared p n as q
  | aliased p n _ q t => aliased p n as q t

/-- The same type without the nullable mark. -/
def nonNull (t : TypeExpr) : TypeExpr := t.withNullable false

/-- Whether the type is an alias. -/
def isAlias : TypeExpr → Bool
  | declared .. => false
  | aliased .. => true

/-- The type at the end of a chain of aliases. -/
def resolved : TypeExpr → TypeExpr
  | t@(declared ..) => t
  | aliased _ _ _ _ t => t.resolved

/-- A name qualified by its package; in the root package, the name alone. -/
def qualify (package name : String) : String :=
  if package.isEmpty then name else package ++ "." ++ name

/-- The qualified name of the type, without arguments and marks. -/
def qualifiedName (t : TypeExpr) : String := qualify t.package t.name

/-- The type of a bare name in a package. -/
def ofName (package name : String) : TypeExpr := .declared package name [] false

/-- The type called by a qualified name: the last dot ends the package, and a question mark at
the end makes the type nullable. -/
def ofQualified (text : String) : TypeExpr :=
  let cs := text.toList
  let (cs, nullable) := match cs.reverse with
    | '?' :: rest => (rest.reverse, true)
    | _ => (cs, false)
  match Text.splitLast? '.' cs with
  | some (package, name) => .declared (String.ofList package) (String.ofList name) [] nullable
  | none => .declared "" (String.ofList cs) [] nullable

/-- The generic classes that the planner itself knows. -/
inductive Known where
  | set
  | map
  | pair
  | lazy
  deriving DecidableEq, Repr

/-- The package of a known class. -/
def Known.package : Known → String
  | set | map => "kotlin.collections"
  | pair | lazy => "kotlin"

/-- The name of a known class. -/
def Known.name : Known → String
  | set => "Set"
  | map => "Map"
  | pair => "Pair"
  | lazy => "Lazy"

/-- A known class applied to arguments. -/
def known (k : Known) (arguments : List TypeExpr) : TypeExpr :=
  .declared k.package k.name arguments false

/-- The type of functions from `params` to `result`. -/
def function (params : List TypeExpr) (result : TypeExpr) : TypeExpr :=
  .declared "kotlin" ("Function" ++ toString params.length) (params ++ [result]) false

/-- The type without values of interest. -/
def unit : TypeExpr := ofName "kotlin" "Unit"

/-- Whether the type, seen through aliases, is the unit type. -/
def isUnit (t : TypeExpr) : Bool :=
  t.resolved.package == "kotlin" && t.resolved.name == "Unit"

/-- Whether the type, seen through aliases, is an application of a known class. -/
def isKnown (k : Known) (t : TypeExpr) : Bool :=
  t.resolved.package == k.package && t.resolved.name == k.name

/-- Whether a name is that of a function class: `Function` and a number. -/
def isFunctionName (name : String) : Bool :=
  match Text.dropHead? "Function".toList name.toList with
  | some digits => !digits.isEmpty && digits.all Char.isDigit
  | none => false

/-- Whether the type, seen through aliases, is a function type; its last argument is then the
result. -/
def isFunction (t : TypeExpr) : Bool :=
  t.resolved.package == "kotlin" && !t.resolved.arguments.isEmpty
    && isFunctionName t.resolved.name

/-- The parameters and the result of a function type, seen through aliases. -/
def signature? (t : TypeExpr) : Option (List TypeExpr × TypeExpr) :=
  if t.isFunction then
    t.resolved.arguments.getLast?.map fun result => (t.resolved.arguments.dropLast, result)
  else none

mutual

/-- How many names a type expression is written with. -/
def size : TypeExpr → Nat
  | declared _ _ as _ => 1 + sizeList as
  | aliased _ _ as _ t => 1 + sizeList as + t.size

/-- How many names a list of type expressions is written with. -/
def sizeList : List TypeExpr → Nat
  | [] => 0
  | t :: ts => t.size + sizeList ts

end

/-- The nullable mark is the one that was set last. -/
@[simp] theorem nullable_withNullable (q : Bool) (t : TypeExpr) :
    (t.withNullable q).nullable = q := by cases t <;> rfl

/-- A declared type stands for itself. -/
@[simp] theorem resolved_declared (p n : String) (as : List TypeExpr) (q : Bool) :
    (declared p n as q).resolved = declared p n as q := rfl

/-- An alias stands for what its target stands for. -/
@[simp] theorem resolved_aliased (p n : String) (as : List TypeExpr) (q : Bool) (t : TypeExpr) :
    (aliased p n as q t).resolved = t.resolved := rfl

/-- The end of a chain of aliases is no alias. -/
theorem resolved_resolved (t : TypeExpr) : t.resolved.resolved = t.resolved := by
  induction t using resolved.induct with
  | case1 => rfl
  | case2 p n as q t ih => simpa using ih

end TypeExpr

end Wiring
