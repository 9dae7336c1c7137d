import Wiring.Text.Hex
import Wiring.Toml.Basic

/-!
# TOML scalars

Numbers, dates and times as single lexemes. A lexeme is classified as a whole, so it is one of
these or nothing.
-/

namespace Wiring.Toml

/-- The value of a run of digits in a base; `none` when a character is no digit of it. Single
underscores may stand between digits. -/
def digits? (base : Nat) : (afterDigit : Bool) → (value : Nat) → List Char → Option Nat
  | afterDigit, n, [] => if afterDigit then some n else none
  | afterDigit, n, c :: cs =>
    if c = '_' then
      if afterDigit && !cs.isEmpty then digits? base false n cs else none
    else
      match Text.hexDigit? c with
      | some d => if d < base then digits? base true (n * base + d) cs else none
      | none => none

/-- A number in decimal digits without leading zeros. -/
def plain? : List Char → Option Nat
  | '0' :: _ :: _ => none
  | cs => digits? 10 false 0 cs

/-- A number, if it is one of 64 bits with sign. -/
def fits? (i : Int) : Option Toml :=
  if -9223372036854775808 ≤ i ∧ i ≤ 9223372036854775807 then some (.integer i) else none

/-- An integer: decimal with an optional sign, or in base 16, 8 or 2. -/
def integer? : List Char → Option Toml
  | '0' :: 'x' :: cs => (digits? 16 false 0 cs).bind fun n => fits? n
  | '0' :: 'o' :: cs => (digits? 8 false 0 cs).bind fun n => fits? n
  | '0' :: 'b' :: cs => (digits? 2 false 0 cs).bind fun n => fits? n
  | '+' :: cs => (plain? cs).bind fun n => fits? n
  | '-' :: cs => (plain? cs).bind fun n => fits? (-(n : Int))
  | cs => (plain? cs).bind fun n => fits? n

/-- The text without a sign at its start. -/
def unsigned : List Char → List Char
  | '+' :: cs => cs
  | '-' :: cs => cs
  | cs => cs

/-- The exponent of a float, without its letter. -/
def exponent? (cs : List Char) : Option Int :=
  (digits? 10 false 0 (unsigned cs)).map fun n => if cs.head? = some '-' then -(n : Int) else n

/-- The digits of a fraction, without its point, and the exponent after them. -/
def fraction? (cs : List Char) : Option (List Char × Int) :=
  let digits := cs.takeWhile fun c => c != 'e' && c != 'E'
  match digits? 10 false 0 digits, cs.drop digits.length with
  | some _, [] => some (digits, 0)
  | some _, _ :: exponent => (exponent? exponent).map fun e => (digits, e)
  | none, _ => none

/-- Whether the number that some digits write, times a power of ten, rounds past every double. -/
def isPastDoubles (digits : List Char) (exponent : Int) : Bool :=
  let significant := digits.dropWhile (· == '0')
  let n := (digits? 10 false 0 significant).getD 0
  let magnitude : Int := significant.length + exponent
  let limit := Nat.pow 2 1024 - Nat.pow 2 970
  if n = 0 ∨ magnitude < 308 then false
  else if 310 < magnitude then true
  else if 0 ≤ exponent then decide (limit ≤ n * Nat.pow 10 exponent.toNat)
  else decide (limit * Nat.pow 10 (-exponent).toNat ≤ n)

/-- A float: a number with a fraction, an exponent or both, or one of the special values. A number
past every double is refused unless it is negative. -/
def float? (cs : List Char) : Option Toml :=
  let body := unsigned cs
  let whole := body.takeWhile fun c => c.isDigit || c == '_'
  let rest? : Option (List Char × Int) := match body.drop whole.length with
    | '.' :: rest => fraction? rest
    | 'e' :: rest => (exponent? rest).map fun e => ([], e)
    | 'E' :: rest => (exponent? rest).map fun e => ([], e)
    | _ => none
  if body = ['i', 'n', 'f'] ∨ body = ['n', 'a', 'n'] then some (.float (String.ofList cs))
  else match plain? whole, rest? with
    | some _, some (fraction, exponent) =>
      let places := (fraction.filter Char.isDigit).length
      let digits := (whole ++ fraction).filter Char.isDigit
      if cs.head? ≠ some '-' ∧ isPastDoubles digits (exponent - places) then none
      else some (.float (String.ofList cs))
    | _, _ => none

/-- The number written by exactly these digits, when it lies between two bounds. -/
def field? (low high : Nat) (cs : List Char) : Option Nat :=
  if cs.all Char.isDigit then
    (digits? 10 false 0 cs).bind fun n => if low ≤ n ∧ n ≤ high then some n else none
  else none

/-- The number of days in a month. -/
def daysIn (year month : Nat) : Nat :=
  if month = 2 then
    if year % 4 = 0 ∧ (year % 100 ≠ 0 ∨ year % 400 = 0) then 29 else 28
  else if [4, 6, 9, 11].contains month then 30
  else 31

/-- Whether a text is a date. -/
def isDate : List Char → Bool
  | [y1, y2, y3, y4, '-', m1, m2, '-', d1, d2] =>
    match field? 0 9999 [y1, y2, y3, y4], field? 1 12 [m1, m2] with
    | some y, some m => (field? 1 (daysIn y m) [d1, d2]).isSome
    | _, _ => false
  | _ => false

/-- Whether a text is a time of day. -/
def isTime : List Char → Bool
  | h1 :: h2 :: ':' :: m1 :: m2 :: ':' :: s1 :: s2 :: fraction =>
    (field? 0 23 [h1, h2]).isSome && (field? 0 59 [m1, m2]).isSome && (field? 0 60 [s1, s2]).isSome
      && match fraction with
        | [] => true
        | '.' :: ds => !ds.isEmpty && ds.all Char.isDigit
        | _ => false
  | _ => false

/-- Whether a text is an offset from universal time. -/
def isOffset : List Char → Bool
  | ['Z'] => true
  | ['z'] => true
  | [sign, h1, h2, ':', m1, m2] =>
    (sign == '+' || sign == '-') && (field? 0 23 [h1, h2]).isSome && (field? 0 59 [m1, m2]).isSome
  | _ => false

/-- Whether a text is a time of day with an optional offset. -/
def isTimeWithOffset (cs : List Char) : Bool :=
  let time := cs.takeWhile fun c => c.isDigit || c == ':' || c == '.'
  let offset := cs.drop time.length
  isTime time && (offset.isEmpty || isOffset offset)

/-- A date, a time, or both; with a date, the time may have an offset. -/
def datetime? (cs : List Char) : Option Toml :=
  let isDatetime :=
    isTime cs || isDate cs
      || (isDate (cs.take 10) && match cs.drop 10 with
        | 'T' :: time => isTimeWithOffset time
        | 't' :: time => isTimeWithOffset time
        | ' ' :: time => isTimeWithOffset time
        | _ => false)
  if isDatetime then some (.datetime (String.ofList cs)) else none

/-- The value of a lexeme that is not a string. -/
def scalar? (cs : List Char) : Option Toml :=
  if cs = ['t', 'r', 'u', 'e'] then some (.boolean true)
  else if cs = ['f', 'a', 'l', 's', 'e'] then some (.boolean false)
  else ((integer? cs).or (float? cs)).or (datetime? cs)

/-- The characters a lexeme that is not a string is made of. -/
def isScalarChar (c : Char) : Bool :=
  c.isAlphanum || c == '+' || c == '-' || c == '_' || c == '.' || c == ':'

/-- A lexeme that is not a string, and the rest. A date may go on after a space with a time. -/
def lexeme (cs : List Char) : List Char × List Char :=
  let first := cs.takeWhile isScalarChar
  let rest := cs.drop first.length
  match rest with
  | ' ' :: d :: _ =>
    if isDate first && d.isDigit then
      let second := (rest.drop 1).takeWhile isScalarChar
      (first ++ ' ' :: second, rest.drop (second.length + 1))
    else (first, rest)
  | _ => (first, rest)

end Wiring.Toml
