/-!
# TOML values

A TOML document as a tree, and how its statements build it. A table knows whether it was only
implied by a longer name and whether dotted keys made it, because a table may be defined once: a
header may define a table that other headers implied, and dotted keys may only extend tables that
dotted keys made.
-/

namespace Wiring

/-- A TOML value. -/
inductive Toml where
  | string (text : String)
  | integer (value : Int)
  | float (text : String)
  | boolean (value : Bool)
  | datetime (text : String)
  | array (items : List Toml)
  /-- A table written in braces, which nothing can extend. -/
  | inline (entries : List (String × Toml))
  /-- A table made by headers or dotted keys. -/
  | table (implied dotted : Bool) (entries : List (String × Toml))
  /-- An array of tables made by headers; each element is a table. -/
  | tables (elements : List Toml)
  deriving Repr, Inhabited

namespace Toml

/-- The entries of a table. -/
abbrev Entries := List (String × Toml)

/-- The entries with the value of a key changed, or a new key added at the end. -/
def put (key : String) (value : Toml) : Entries → Entries
  | [] => [(key, value)]
  | (k, v) :: rest => if k = key then (k, value) :: rest else (k, v) :: put key value rest

/-- Change the entries of a table, or of the last element of an array of tables. -/
def inTable (change : Entries → Option Entries) : Toml → Option Toml
  | table implied dotted entries => (change entries).map (table implied dotted)
  | tables elements =>
    match elements.reverse with
    | table implied dotted entries :: earlier =>
      (change entries).map fun es => tables (earlier.reverse ++ [table implied dotted es])
    | _ => none
  | _ => none

/-- Add an entry under a dotted key. Tables on the way are made as needed; one that a header
defined cannot be extended. -/
def addDotted : (path : List String) → (key : String) → Toml → Entries → Option Entries
  | [], key, value, entries =>
    match entries.lookup key with
    | some _ => none
    | none => some (entries ++ [(key, value)])
  | p :: path, key, value, entries =>
    match entries.lookup p with
    | none => (addDotted path key value []).map fun es => entries ++ [(p, table true true es)]
    | some (table implied dotted es) =>
      if implied && (dotted || !path.isEmpty) then
        (addDotted path key value es).map fun es => put p (table implied dotted es) entries
      else none
    | some t@(tables _) =>
      if path.isEmpty then none
      else (inTable (addDotted path key value) t).map fun t => put p t entries
    | some _ => none

/-- Define the table of a header. One that was only implied by headers may be defined once. -/
def addHeader : (path : List String) → (key : String) → Entries → Option Entries
  | [], key, entries =>
    match entries.lookup key with
    | none => some (entries ++ [(key, table false false [])])
    | some (table true false es) => some (put key (table false false es) entries)
    | some _ => none
  | p :: path, key, entries =>
    match entries.lookup p with
    | none => (addHeader path key []).map fun es => entries ++ [(p, table true false es)]
    | some t => (inTable (addHeader path key) t).map fun t => put p t entries

/-- Add an element to the array of tables of a header. -/
def addElement : (path : List String) → (key : String) → Entries → Option Entries
  | [], key, entries =>
    match entries.lookup key with
    | none => some (entries ++ [(key, tables [table false false []])])
    | some (tables elements) =>
      some (put key (tables (elements ++ [table false false []])) entries)
    | some _ => none
  | p :: path, key, entries =>
    match entries.lookup p with
    | none => (addElement path key []).map fun es => entries ++ [(p, table true false es)]
    | some t => (inTable (addElement path key) t).map fun t => put p t entries

/-- Add an entry under a dotted key to the table of a header. -/
def addUnder : (header : List String) → (path : List String) → (key : String) → Toml → Entries →
    Option Entries
  | [], path, key, value, entries => addDotted path key value entries
  | h :: header, path, key, value, entries =>
    match entries.lookup h with
    | some t => (inTable (addUnder header path key value) t).map fun t => put h t entries
    | none => none

end Toml

end Wiring
