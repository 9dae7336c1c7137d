import Wiring.Json.Basic
import Wiring.Type.Basic

/-!
# Type expressions in JSON

A type is written as its qualified name or as an object with the fields `package`, `name`,
`arguments`, `nullable` and `alias`, of which only the name is required. The written form of a
type is always the object, without the parts that are empty.
-/

namespace Wiring.TypeExpr

/-- The fields of a type object met so far. -/
structure Parts where
  package : Option String := none
  name : Option String := none
  arguments : Option (List TypeExpr) := none
  nullable : Option Bool := none
  /-- A `null` alias is the same as none, but a second field is refused. -/
  aliased : Option (Option TypeExpr) := none

/-- The type that the fields of an object make up. -/
def Parts.assemble (p : Parts) : Option TypeExpr :=
  p.name.map fun name =>
    let package := p.package.getD ""
    let arguments := p.arguments.getD []
    let nullable := p.nullable.getD false
    match p.aliased with
    | some (some target) => .aliased package name arguments nullable target
    | _ => .declared package name arguments nullable

mutual

/-- The type written by a value, if it is one. -/
def ofJson? : Json → Option TypeExpr
  | .string s => some (ofQualified s)
  | .object fields => (collect? {} fields).bind Parts.assemble
  | _ => none

/-- The types written by the items of an array, if all are types. -/
def ofItems? : List Json → Option (List TypeExpr)
  | [] => some []
  | item :: items =>
    match ofJson? item, ofItems? items with
    | some t, some ts => some (t :: ts)
    | _, _ => none

/-- Collect the fields of a type object; one that is repeated or of the wrong kind is refused. -/
def collect? : Parts → List (String × Json) → Option Parts
  | p, [] => some p
  | p, (key, value) :: rest =>
    if key = "package" then
      match p.package, value with
      | none, .string s => collect? { p with package := some s } rest
      | _, _ => none
    else if key = "name" then
      match p.name, value with
      | none, .string s => collect? { p with name := some s } rest
      | _, _ => none
    else if key = "arguments" then
      match p.arguments, value with
      | none, .array items =>
        match ofItems? items with
        | some ts => collect? { p with arguments := some ts } rest
        | none => none
      | _, _ => none
    else if key = "nullable" then
      match p.nullable, value with
      | none, .bool b => collect? { p with nullable := some b } rest
      | _, _ => none
    else if key = "alias" then
      match p.aliased with
      | none =>
        if value matches .null then collect? { p with aliased := some none } rest
        else
          match ofJson? value with
          | some t => collect? { p with aliased := some (some t) } rest
          | none => none
      | some _ => none
    else collect? p rest

end

/-- Decode a type. The whole value is read before its shape is looked at. -/
def ofJson (j : Json) : Except Fault TypeExpr := do
  j.readThrough
  match ofJson? j with
  | some t => return t
  | none => .error .misshapen

mutual

/-- The written form of a type. -/
def toJson : TypeExpr → Json
  | declared p n as q =>
    .object ([("package", .string p), ("name", .string n)]
      ++ (if as.isEmpty then [] else [("arguments", .array (toItems as))])
      ++ (if q then [("nullable", .bool true)] else []))
  | aliased p n as q t =>
    .object ([("package", .string p), ("name", .string n)]
      ++ (if as.isEmpty then [] else [("arguments", .array (toItems as))])
      ++ (if q then [("nullable", .bool true)] else [])
      ++ [("alias", toJson t)])

/-- The written forms of several types. -/
def toItems : List TypeExpr → List Json
  | [] => []
  | t :: ts => toJson t :: toItems ts

end

end Wiring.TypeExpr
