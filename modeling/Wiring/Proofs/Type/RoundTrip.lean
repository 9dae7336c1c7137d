import Wiring.Proofs.Json.RoundTrip
import Wiring.Type.Json

/-!
# Types read again

The object that a type is written as says everything about it. The parts that are left out are the
empty ones, and these are what stands in for a part that is not there.
-/

namespace Wiring.TypeExpr

open Json

/-- A type is always written as an object. -/
theorem exists_toJson_eq_object (t : TypeExpr) : ∃ fields, t.toJson = .object fields := by
  cases t with
  | declared => exact ⟨_, rfl⟩
  | aliased => exact ⟨_, rfl⟩

section Fields

variable {p n : String} {as : List TypeExpr} {q : Bool} {t : TypeExpr}

/-- The written arguments are collected, and none if there are none. -/
theorem collect?_arguments (parts : Parts) (hnone : parts.arguments = none)
    (has : ofItems? (toItems as) = some as) (rest : List (String × Json)) :
    collect? parts ((if as.isEmpty then [] else [("arguments", .array (toItems as))]) ++ rest)
      = collect? { parts with arguments := if as.isEmpty then none else some as } rest := by
  obtain ⟨package, name, _, nullable, target⟩ := parts
  cases hnone
  cases as with
  | nil => rfl
  | cons a as => simp [collect?, has]

/-- The written mark is collected, and none if there is none. -/
theorem collect?_nullable (parts : Parts) (hnone : parts.nullable = none)
    (rest : List (String × Json)) :
    collect? parts ((if q then [("nullable", .bool true)] else []) ++ rest)
      = collect? { parts with nullable := if q then some true else none } rest := by
  obtain ⟨package, name, arguments, _, target⟩ := parts
  cases hnone
  cases q <;> rfl

/-- What an alias stands for is collected from its written form. -/
theorem collect?_alias (parts : Parts) (hnone : parts.aliased = none)
    (ht : ofJson? t.toJson = some t) :
    collect? parts [("alias", t.toJson)] = some { parts with aliased := some (some t) } := by
  obtain ⟨package, name, arguments, nullable, _⟩ := parts
  cases hnone
  obtain ⟨fields, hfields⟩ := t.exists_toJson_eq_object
  rw [hfields] at ht ⊢
  simp [collect?, ht]

/-- The fields of a written type are collected as its parts; empty ones are left out. -/
theorem collect?_fields (has : ofItems? (toItems as) = some as) (rest : List (String × Json)) :
    collect? {} ([("package", .string p), ("name", .string n)]
        ++ (if as.isEmpty then [] else [("arguments", .array (toItems as))])
        ++ (if q then [("nullable", .bool true)] else []) ++ rest)
      = collect? {
          package := some p, name := some n, arguments := if as.isEmpty then none else some as
          nullable := if q then some true else none } rest := by
  have hname : ∀ rest, collect? {} ([("package", .string p), ("name", .string n)] ++ rest)
      = collect? { package := some p, name := some n } rest := fun _ => rfl
  rw [List.append_assoc, List.append_assoc, hname, collect?_arguments _ rfl has,
    collect?_nullable _ rfl]

end Fields

mutual

/-- A type is found in the object that it is written as. -/
theorem ofJson?_toJson : ∀ t : TypeExpr, ofJson? t.toJson = some t
  | declared p n as q => by
    have hfields := collect?_fields (p := p) (n := n) (q := q) (ofItems?_toItems as) []
    rw [List.append_nil] at hfields
    rw [toJson, ofJson?, hfields]
    cases as <;> cases q <;> rfl
  | aliased p n as q t => by
    rw [toJson, ofJson?, collect?_fields (ofItems?_toItems as),
      collect?_alias _ rfl (ofJson?_toJson t)]
    cases as <;> cases q <;> rfl

/-- Types one after the other are read back. -/
theorem ofItems?_toItems : ∀ ts : List TypeExpr, ofItems? (toItems ts) = some ts
  | [] => rfl
  | t :: ts => by rw [toItems, ofItems?, ofJson?_toJson t, ofItems?_toItems ts]

end

mutual

/-- Types are plain as written. -/
theorem isPlain_toJson : ∀ t : TypeExpr, t.toJson.isPlain = true
  | declared p n as q => by
    have has := allPlain_toItems as
    cases as <;> cases q <;> simp [toJson, isPlain, allPlainFields, has]
  | aliased p n as q t => by
    have has := allPlain_toItems as
    have ht := isPlain_toJson t
    cases as <;> cases q <;> simp [toJson, isPlain, allPlainFields, has, ht]

/-- Types one after the other are plain as written. -/
theorem allPlain_toItems : ∀ ts : List TypeExpr, allPlain (toItems ts) = true
  | [] => rfl
  | t :: ts => by rw [toItems, allPlain, isPlain_toJson t, allPlain_toItems ts, Bool.and_self]

end

/-- A type that is written is read again. -/
theorem ofJson_toJson (t : TypeExpr) : ofJson t.toJson = .ok t := by
  rw [ofJson, readThrough_of_isPlain t.isPlain_toJson, ofJson?_toJson]
  rfl

end Wiring.TypeExpr
