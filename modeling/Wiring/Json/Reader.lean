import Wiring.Json.Basic
import Wiring.Text.Hex

/-!
# Reading JSON text

Reading never fails as a whole: it returns the tree of what was read, and a flag for text that
follows the document. Containers nested 128 deep, numbers past the range of a double and strings
with half of a surrogate pair are read and marked as refused, because a decoder that skips them
does not mind.
-/

namespace Wiring.Json

/-- What follows the lexeme just read; `none` where reading stopped. -/
abbrev Rest := Option (List Char)

/-- The blanks that may stand between two lexemes. -/
def isLayout (c : Char) : Bool :=
  c == ' ' || c == '\n' || c == '\t' || c == '\r'

/-- The text after the blanks at its start. -/
def dropLayout (cs : List Char) : List Char :=
  cs.dropWhile isLayout

/-- Reading stops, for one and the same reason whether the value is read or skipped. -/
def stop (onset : Onset) (fault : Fault) : Json × Rest :=
  (.broken onset fault fault, none)

/-- The rest of a literal name such as `true`. -/
def literal (value : Json) : List Char → List Char → Json × Rest
  | [], cs => (value, some cs)
  | _ :: _, [] => stop .literal .truncated
  | w :: ws, c :: cs => if w = c then literal value ws cs else stop .literal .malformed

/-! ## Numbers -/

/-- The value of a run of decimal digits. -/
def digitsValue (cs : List Char) : Nat :=
  cs.foldl (fun n c => 10 * n + (c.toNat - 48)) 0

/-- The nearest number with at most 53 binary digits; halfway goes to the even one. -/
def nearest53 (n : Nat) : Nat :=
  let bits := n.log2 + 1
  if bits ≤ 53 then n
  else
    let unit := Nat.pow 2 (bits - 53)
    let q := n / unit
    let r := n % unit
    if 2 * r < unit then q * unit
    else if unit < 2 * r then (q + 1) * unit
    else if q % 2 = 0 then q * unit
    else (q + 1) * unit

/-- The leading digits that fit into 64 bits, and how many digits were left out. -/
def leadingDigits : List Char → Nat → Nat × Nat
  | [], n => (n, 0)
  | c :: cs, n =>
    let next := 10 * n + (c.toNat - 48)
    if next < 18446744073709551616 then leadingDigits cs next else (n, (c :: cs).length)

/-- Whether the number `whole.fraction * 10 ^ exponent` is past the range of a double. The digits
are first cut to 64 bits, and the product of two doubles is rounded once. The digits of the
fraction are tried also when some of the whole part were left out: the first of them may fit. -/
def overflows (whole fraction : List Char) (exponent : Int) : Bool :=
  let (kept, dropped) := leadingDigits whole 0
  let (digits, left) := leadingDigits fraction kept
  let power : Int := exponent + dropped - (fraction.length - left : Nat)
  if digits = 0 ∨ power < 0 then false
  else if 308 < power then true
  else
    let limit := Nat.pow 2 1024 - Nat.pow 2 970
    decide (limit ≤ nearest53 digits * nearest53 (Nat.pow 10 power.toNat))

/-- The value of a number from its parts. -/
def numberValue (negative : Bool) (whole : List Char) (fraction : Option (List Char))
    (exponent : Option (Bool × List Char)) (written : List Char) : Json :=
  let power : Int := match exponent with
    | none => 0
    | some (false, ds) => digitsValue ds
    | some (true, ds) => -(digitsValue ds : Int)
  let value := match fraction, exponent with
    | none, none =>
      let n := digitsValue whole
      if negative then
        if n = 0 then .real (String.ofList written) else .integer (-(n : Int))
      else .integer n
    | _, _ => .real (String.ofList written)
  if overflows whole (fraction.getD []) power then .refused value else value

/-- A number that ends where a digit has to stand. -/
def digitMissing (cs : List Char) : Json × Rest :=
  match cs with
  | [] => (.broken .number .truncated .malformed, none)
  | _ => stop .number .malformed

/-- The exponent of a number, and the value of the whole number. -/
def numberExponent (negative : Bool) (whole : List Char) (fraction : Option (List Char))
    (written cs : List Char) : Json × Rest :=
  match cs with
  | e :: cs =>
    if e = 'e' ∨ e = 'E' then
      let (sign, cs) : List Char × List Char := match cs with
        | '+' :: cs => (['+'], cs)
        | '-' :: cs => (['-'], cs)
        | _ => ([], cs)
      let digits := cs.takeWhile Char.isDigit
      let rest := cs.dropWhile Char.isDigit
      if digits.isEmpty then digitMissing rest
      else
        (numberValue negative whole fraction (some (sign == ['-'], digits))
          (written ++ e :: sign ++ digits), some rest)
    else (numberValue negative whole fraction none written, some (e :: cs))
  | [] => (numberValue negative whole fraction none written, some [])

/-- A number after its sign: no leading zeros, a digit after the point. -/
def number (negative : Bool) (cs : List Char) : Json × Rest :=
  let whole := cs.takeWhile Char.isDigit
  let rest := cs.dropWhile Char.isDigit
  let written := (if negative then ['-'] else []) ++ whole
  match whole with
  | [] => digitMissing rest
  | '0' :: _ :: _ => stop .number .malformed
  | _ =>
    match rest with
    | '.' :: rest =>
      let fraction := rest.takeWhile Char.isDigit
      let rest := rest.dropWhile Char.isDigit
      if fraction.isEmpty then digitMissing rest
      else numberExponent negative whole (some fraction) (written ++ '.' :: fraction) rest
    | _ => numberExponent negative whole none written rest

/-! ## Strings -/

/-- The four hexadecimal digits after a `\u`. Fewer than four bytes of text are an early end. -/
def hexUnit : List Char → Except Fault (Nat × List Char)
  | a :: b :: c :: d :: rest =>
    match Text.hexNumber? [a, b, c, d] with
    | some n => .ok (n, rest)
    | none => .error .malformed
  | cs =>
    if (cs.foldl (fun n c => n + c.utf8Size) 0) < 4 then .error .truncated else .error .malformed

/-- The characters named by the one-letter escapes. -/
def shortEscape? : Char → Option Char
  | '"' => some '"'
  | '\\' => some '\\'
  | '/' => some '/'
  | 'b' => some (Char.ofNat 8)
  | 'f' => some (Char.ofNat 12)
  | 'n' => some '\n'
  | 'r' => some '\r'
  | 't' => some '\t'
  | _ => none

/-- How the text of a string ends. -/
inductive Quoted where
  /-- The closing quote was found; `sound` is false after half of a surrogate pair. -/
  | closed (text : List Char) (sound : Bool) (rest : List Char)
  /-- Reading stopped; `sound` as above. -/
  | stopped (fault : Fault) (sound : Bool)

/-- Whether a UTF-16 unit is the second half of a pair. -/
def isLowUnit (n : Nat) : Bool := 0xDC00 ≤ n && n ≤ 0xDFFF

/-- Whether a UTF-16 unit is the first half of a pair. -/
def isHighUnit (n : Nat) : Bool := 0xD800 ≤ n && n ≤ 0xDBFF

/-- A string after its opening quote, with the characters read so far in reverse. Each round
takes at least one character, so `fuel` never runs out when it exceeds the length of the text. -/
def quoted : Nat → (read : List Char) → (sound : Bool) → List Char → Quoted
  | 0, _, sound, _ => .stopped .truncated sound
  | _ + 1, _, sound, [] => .stopped .truncated sound
  | fuel + 1, read, sound, c :: cs =>
    if c = '"' then .closed read.reverse sound cs
    else if c = '\\' then
      match cs with
      | [] => .stopped .truncated sound
      | 'u' :: cs =>
        match hexUnit cs with
        | .error fault => .stopped fault sound
        | .ok (n, rest) =>
          if isLowUnit n then quoted fuel read false rest
          else if isHighUnit n then
            match rest with
            | '\\' :: 'u' :: next =>
              match hexUnit next with
              | .error fault => .stopped fault sound
              | .ok (low, after) =>
                if isLowUnit low then
                  let code := 0x10000 + (n - 0xD800) * 0x400 + (low - 0xDC00)
                  quoted fuel (Char.ofNat code :: read) sound after
                else quoted fuel read false rest
            | [] => .stopped .truncated sound
            | ['\\'] => .stopped .truncated sound
            | _ => quoted fuel read false rest
          else quoted fuel (Char.ofNat n :: read) sound rest
      | e :: cs =>
        match shortEscape? e with
        | some c => quoted fuel (c :: read) sound cs
        | none => .stopped .malformed sound
    else if c.toNat < 32 then .stopped .malformed sound
    else quoted fuel (c :: read) sound cs

/-- A string value after its opening quote. -/
def stringValue (cs : List Char) : Json × Rest :=
  match quoted (cs.length + 1) [] true cs with
  | .closed text true rest => (.string (String.ofList text), some rest)
  | .closed text false rest => (.refused (.string (String.ofList text)), some rest)
  | .stopped fault true => stop .string fault
  | .stopped fault false => (.broken .string .malformed fault, none)

/-! ## Values -/

/-- The deepest level at which a container may be read. -/
def depthLimit : Nat := 127

/-- Mark a container that lies too deep. -/
def atDepth (depth : Nat) (j : Json) : Json :=
  if depth ≤ depthLimit then j else .refused j

/-- What stands where the name of a field is wanted. Anything but a string is out of place. -/
def fieldName (cs : List Char) : Json × Rest :=
  match cs with
  | [] => stop .nothing .truncated
  | '"' :: cs => stringValue cs
  | _ => stop .nothing .malformed

/-- A field under its name, or under no name when what stands there is not a sound string. -/
def field (name value : Json) : String × Json :=
  match name with
  | .string key => (key, value)
  | name => ("", .nameless name value)

mutual

/-- A value at the given nesting depth. Each call takes a character or ends, so `fuel` never runs
out when it exceeds the length of the text. -/
def value : Nat → (depth : Nat) → List Char → Json × Rest
  | 0, _, _ => stop .nothing .truncated
  | fuel + 1, depth, cs =>
    match dropLayout cs with
    | [] => stop .nothing .truncated
    | c :: cs =>
      if c = 'n' then literal .null ['u', 'l', 'l'] cs
      else if c = 't' then literal (.bool true) ['r', 'u', 'e'] cs
      else if c = 'f' then literal (.bool false) ['a', 'l', 's', 'e'] cs
      else if c = '"' then stringValue cs
      else if c = '-' then number true cs
      else if c.isDigit then number false (c :: cs)
      else if c = '[' then
        match dropLayout cs with
        | ']' :: rest => (atDepth (depth + 1) (.array []), some rest)
        | cs =>
          let (items, rest) := arrayItems fuel (depth + 1) cs
          (atDepth (depth + 1) (.array items), rest)
      else if c = '\x7b' then
        match dropLayout cs with
        | '\x7d' :: rest => (atDepth (depth + 1) (.object []), some rest)
        | cs =>
          let (fields, rest) := objectFields fuel (depth + 1) cs
          (atDepth (depth + 1) (.object fields), rest)
      else stop .nothing .malformed

/-- The items of an array up to its closing bracket, one at least. -/
def arrayItems : Nat → (depth : Nat) → List Char → List Json × Rest
  | 0, _, _ => ([.broken .nothing .truncated .truncated], none)
  | fuel + 1, depth, cs =>
    match value fuel depth cs with
    | (item, none) => ([item], none)
    | (item, some rest) =>
      match dropLayout rest with
      | ']' :: rest => ([item], some rest)
      | ',' :: rest =>
        let (items, rest) := arrayItems fuel depth rest
        (item :: items, rest)
      | [] => ([item, .broken .separator .truncated .truncated], none)
      | _ => ([item, .broken .separator .malformed .malformed], none)

/-- The fields of an object up to its closing brace, one at least. -/
def objectFields : Nat → (depth : Nat) → List Char → List (String × Json) × Rest
  | 0, _, _ => ([field (.broken .nothing .truncated .truncated) .null], none)
  | fuel + 1, depth, cs =>
    match fieldName (dropLayout cs) with
    | (name, none) => ([field name .null], none)
    | (name, some rest) =>
      match dropLayout rest with
      | ':' :: rest =>
        match value fuel depth rest with
        | (item, none) => ([field name item], none)
        | (item, some rest) =>
          match dropLayout rest with
          | '\x7d' :: rest => ([field name item], some rest)
          | ',' :: rest =>
            let (fields, rest) := objectFields fuel depth rest
            (field name item :: fields, rest)
          | [] => ([field name item, ("", .broken .separator .truncated .truncated)], none)
          | _ => ([field name item, ("", .broken .separator .malformed .malformed)], none)
      | [] => ([field name (.broken .nothing .truncated .truncated)], none)
      | _ => ([field name (.broken .nothing .malformed .malformed)], none)

end

/-- A text read as one document. -/
structure Document where
  /-- The value at the start of the text. -/
  root : Json
  /-- Whether anything but blanks follows it. -/
  trailing : Bool
  deriving Repr

/-- Read a whole text. -/
def read (text : String) : Document :=
  let cs := text.toList
  match value (2 * cs.length + 2) 0 cs with
  | (root, some rest) => ⟨root, !(dropLayout rest).isEmpty⟩
  | (root, none) => ⟨root, false⟩

/-- Decode a whole text; what follows the document is looked at last. -/
def Document.decode (decode : Json → Except Fault α) (d : Document) : Except Fault α := do
  let a ← decode d.root
  if d.trailing then .error .malformed else return a

/-- The value of a whole text that is sound throughout. -/
def parse (text : String) : Except Fault Json :=
  (read text).decode fun j => do j.readThrough; return j

end Wiring.Json
