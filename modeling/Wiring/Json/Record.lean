import Wiring.Json.Basic

/-!
# Records as JSON objects

How a record with named fields is read. Fields come in any order, a field the record does not have
is skipped, and one it has may occur once. A record may also be written as the array of its fields
in order, of which the last may be left out where they have defaults.
-/

namespace Wiring.Json

/-- The fields of a record, and how the value of one is put into it. -/
structure Record (α : Type) where
  /-- Names of the fields, in the order of the array form. -/
  fields : List String
  /-- Fields that have no default. -/
  required : List String := []
  /-- The record of all defaults; required fields hold a value that is never seen. -/
  start : α
  /-- Decode one field of the record. -/
  put : α → String → Json → Except Fault α

namespace Record

/-- Check that no required field is missing. -/
def finish (r : Record α) (seen : List String) (a : α) : Except Fault α :=
  if r.required.all (· ∈ seen) then .ok a else .error .misshapen

/-- Read the fields of an object from the first to the last. -/
def readObject (r : Record α) : (seen : List String) → α → List (String × Json) → Except Fault α
  | seen, a, [] => r.finish seen a
  | _, _, (_, .nameless name _) :: _ => .error name.nameFault
  | seen, a, (key, value) :: rest =>
    if key ∈ r.fields then
      if key ∈ seen then .error .misshapen
      else do
        let a ← r.put a key value
        r.readObject (key :: seen) a rest
    else do
      value.skip
      r.readObject seen a rest

/-- Read the items of an array as the fields in order. An item too many is out of place, whatever
it is. -/
def readArray (r : Record α) : (names seen : List String) → α → List Json → Except Fault α
  | _, seen, a, [] => r.finish seen a
  | [], _, _, .broken .separator read _ :: _ => .error read
  | [], _, _, _ :: _ => .error .malformed
  | name :: names, seen, a, item :: items => do
    let a ← r.put a name item
    r.readArray names (name :: seen) a items

/-- Read a record. -/
def decode (r : Record α) : Json → Except Fault α
  | .object fields => r.readObject [] r.start fields
  | .array items => r.readArray r.fields [] r.start items
  | .refused (.object _) => .error .malformed
  | .refused (.array _) => .error .malformed
  | j => .error j.mismatch

end Record

end Wiring.Json
