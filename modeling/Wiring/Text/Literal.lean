import Wiring.Text.Hex

/-!
# String literals in source text

The body of a string literal. A backslash, a quote, a dollar sign and a line break are written
with a backslash in front; every other character stands for itself. Reading a body knows every
escape of the source language, and refuses what ends the literal early or may start a template.
-/

namespace Wiring.Text.Literal

/-- The body of the literal of a text. -/
def encode : List Char → List Char
  | [] => []
  | c :: cs =>
    if c = '\\' then '\\' :: '\\' :: encode cs
    else if c = '"' then '\\' :: '"' :: encode cs
    else if c = '$' then '\\' :: '$' :: encode cs
    else if c = '\n' then '\\' :: 'n' :: encode cs
    else c :: encode cs

/-- The body of the literal of a string. -/
def escape (s : String) : String := String.ofList (encode s.toList)

/-- The characters that the one-letter escapes stand for. -/
def escaped? : Char → Option Char
  | 't' => some '\t'
  | 'b' => some (Char.ofNat 8)
  | 'n' => some '\n'
  | 'r' => some '\r'
  | '\'' => some '\''
  | '"' => some '"'
  | '\\' => some '\\'
  | '$' => some '$'
  | _ => none

/-- The text whose literal has this body. A quote, a dollar sign and a line break have to be
escaped, and a backslash has to begin an escape. -/
def decode : List Char → Option (List Char)
  | [] => some []
  | ['\\'] => none
  | '\\' :: 'u' :: a :: b :: c :: d :: cs =>
    match (hexNumber? [a, b, c, d]).bind charOfCode?, decode cs with
    | some x, some text => some (x :: text)
    | _, _ => none
  | '\\' :: e :: cs =>
    match escaped? e, decode cs with
    | some x, some text => some (x :: text)
    | _, _ => none
  | c :: cs =>
    if c = '"' ∨ c = '$' ∨ c = '\n' then none else (decode cs).map (c :: ·)

end Wiring.Text.Literal
