/-!
# JSON values

A JSON value as far as its text could be read. A text that is refused half-way still has a tree:
the place where reading stopped is a leaf, and a value that is well formed but denotes nothing
(half of a surrogate pair, a number past every double) is marked where it stands. A decoder walks
the tree in the order of the text, so of two faults it reports the one that comes first.

What a decoder finds at a leaf depends on what it looks for. One that wants a text reads an
unfinished number to its end before it complains, one that wants a word does not look past the
first character. So a leaf says what stands there (`Onset`), and which fault lies behind it.
-/

namespace Wiring

/-- Why a document is refused. -/
inductive Fault where
  /-- The text is not JSON. -/
  | malformed
  /-- The text ends before the document does. -/
  | truncated
  /-- The document is JSON, but not of the wanted shape. -/
  | misshapen
  deriving DecidableEq, Repr, Inhabited

/-- What stands where reading stopped. -/
inductive Onset where
  /-- Neither a comma nor the closing bracket, after an item or a field. -/
  | separator
  /-- No value begins here. -/
  | nothing
  /-- The beginning of `null`, `true` or `false`. -/
  | literal
  /-- The beginning of a number. -/
  | number
  /-- A string without an end, or with a character it may not hold. -/
  | string
  deriving DecidableEq, Repr, Inhabited

/-- A JSON value. Object fields keep their order, and a key may occur twice. -/
inductive Json where
  | null
  | bool (value : Bool)
  /-- A number written without fraction and exponent, other than `-0`. -/
  | integer (value : Int)
  /-- Any other number, as it is written. -/
  | real (text : String)
  | string (value : String)
  | array (items : List Json)
  | object (fields : List (String × Json))
  /-- A value that may be skipped but not read. -/
  | refused (content : Json)
  /-- The value of a field whose name cannot be read, with what stands in the name's place. -/
  | nameless (name value : Json)
  /-- Reading stopped here: at what, and why, for one who reads this value and for one who skips
  it. -/
  | broken (onset : Onset) (read skipped : Fault)
  deriving BEq, Repr, Inhabited

namespace Json

/-- The value of the first field called `key`, when this is an object that has one. -/
def get? (key : String) : Json → Option Json
  | object fields => fields.lookup key
  | _ => none

/-- The field `key` of an object, or `null`. -/
def get (key : String) (j : Json) : Json :=
  (j.get? key).getD .null

/-- The fault of what stands in the place of a field's name. -/
def nameFault : Json → Fault
  | broken _ read _ => read
  | _ => .malformed

mutual

/-- Pass over a value: only a stop inside it is a fault. -/
def skip : Json → Except Fault Unit
  | broken _ _ skipped => .error skipped
  | refused content => content.skip
  | nameless (broken _ _ skipped) _ => .error skipped
  | nameless _ value => value.skip
  | array items => skipItems items
  | object fields => skipFields fields
  | _ => .ok ()

/-- Pass over the items of an array. -/
def skipItems : List Json → Except Fault Unit
  | [] => .ok ()
  | item :: items => do item.skip; skipItems items

/-- Pass over the fields of an object. -/
def skipFields : List (String × Json) → Except Fault Unit
  | [] => .ok ()
  | (_, value) :: fields => do value.skip; skipFields fields

end

mutual

/-- Read every part of a value before any of it is decoded. -/
def readThrough : Json → Except Fault Unit
  | broken _ read _ => .error read
  | refused _ => .error .malformed
  | nameless name _ => .error name.nameFault
  | array items => readItems items
  | object fields => readFields fields
  | _ => .ok ()

/-- Read every item of an array. -/
def readItems : List Json → Except Fault Unit
  | [] => .ok ()
  | item :: items => do item.readThrough; readItems items

/-- Read every field of an object. -/
def readFields : List (String × Json) → Except Fault Unit
  | [] => .ok ()
  | (_, value) :: fields => do value.readThrough; readFields fields

end

/-- The fault of a value found where one of another kind is wanted. A number or a string is read
to its end first; of a container only the opening bracket is looked at. -/
def mismatch : Json → Fault
  | broken _ read _ => read
  | refused (array _) => .misshapen
  | refused (object _) => .misshapen
  | refused _ => .malformed
  | nameless name _ => name.nameFault
  | _ => .misshapen

/-- The text of a string. -/
def toText : Json → Except Fault String
  | string s => .ok s
  | j => .error j.mismatch

/-- The value of a truth value. -/
def toBool : Json → Except Fault Bool
  | bool b => .ok b
  | j => .error j.mismatch

/-- A whole number of 32 bits without sign. -/
def toWord : Json → Except Fault UInt32
  | integer i => if 0 ≤ i ∧ i < 4294967296 then .ok i.toNat.toUInt32 else .error .misshapen
  | j => .error j.mismatch

/-- A value that may be absent: `null` stands for none. -/
def toOption (decode : Json → Except Fault α) : Json → Except Fault (Option α)
  | null => .ok none
  | j => (decode j).map some

/-- Decode the items of an array one after the other. -/
def decodeItems (decode : Json → Except Fault α) : List Json → Except Fault (List α)
  | [] => .ok []
  | item :: items => do
    let head ← decode item
    let tail ← decodeItems decode items
    return head :: tail

/-- An array whose items all have one shape. -/
def toList (decode : Json → Except Fault α) : Json → Except Fault (List α)
  | array items => decodeItems decode items
  | refused (array _) => .error .malformed
  | j => .error j.mismatch

end Json

end Wiring
