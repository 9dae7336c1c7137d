import Wiring.Text.Affix
import Wiring.Toml.Scalar

/-!
# Reading TOML

A document is read statement by statement; the first fault ends reading without a result. Every
function that reads takes what it reads off the front of the text.
-/

namespace Wiring.Toml

/-- What was read, and the rest of the text; `none` for a fault. -/
abbrev Read (α : Type) := Option (α × List Char)

/-- A blank within a line. -/
def isSpace (c : Char) : Bool := c == ' ' || c == '\t'

/-- The text after the blanks at its start. -/
def dropSpaces (cs : List Char) : List Char := cs.dropWhile isSpace

/-- Characters that may stand in comments and in strings of one line. -/
def isLineChar (c : Char) : Bool := c == '\t' || (0x20 ≤ c.toNat && c.toNat != 0x7F)

/-- The text after a comment at its start, if there is one. -/
def dropComment : List Char → List Char
  | '#' :: cs => cs.dropWhile isLineChar
  | cs => cs

/-- The text after a line break. -/
def newline? : List Char → Option (List Char)
  | '\n' :: cs => some cs
  | '\r' :: '\n' :: cs => some cs
  | _ => none

/-- The text after the rest of a line that holds nothing but blanks and a comment. -/
def endOfLine? (cs : List Char) : Option (List Char) :=
  match dropComment (dropSpaces cs) with
  | [] => some []
  | cs => newline? cs

/-- The text after blanks, comments and line breaks. -/
def dropBlankLines : (inComment : Bool) → List Char → List Char
  | _, [] => []
  | _, '\n' :: cs => dropBlankLines false cs
  | _, '\r' :: '\n' :: cs => dropBlankLines false cs
  | true, c :: cs => if isLineChar c then dropBlankLines true cs else c :: cs
  | false, c :: cs =>
    if isSpace c then dropBlankLines false cs
    else if c = '#' then dropBlankLines true cs
    else c :: cs

/-! ## Strings -/

/-- The character with a code given by `count` hexadecimal digits. -/
def unicode? (count : Nat) (cs : List Char) : Read Char :=
  let ds := cs.take count
  if ds.length < count then none
  else ((Text.hexNumber? ds).bind Text.charOfCode?).map fun c => (c, cs.drop count)

/-- The character of an escape, after its backslash. -/
def escaped? : List Char → Read Char
  | 'b' :: cs => some (Char.ofNat 8, cs)
  | 't' :: cs => some ('\t', cs)
  | 'n' :: cs => some ('\n', cs)
  | 'f' :: cs => some (Char.ofNat 12, cs)
  | 'r' :: cs => some ('\r', cs)
  | '"' :: cs => some ('"', cs)
  | '\\' :: cs => some ('\\', cs)
  | 'u' :: cs => unicode? 4 cs
  | 'U' :: cs => unicode? 8 cs
  | _ => none

/-- A basic string after its opening quote; `read` holds its characters in reverse. -/
def basic? : Nat → (read : List Char) → List Char → Read String
  | 0, _, _ => none
  | _ + 1, _, [] => none
  | fuel + 1, read, c :: cs =>
    if c = '"' then some (String.ofList read.reverse, cs)
    else if c = '\\' then
      (escaped? cs).bind fun (e, cs) => basic? fuel (e :: read) cs
    else if isLineChar c then basic? fuel (c :: read) cs
    else none

/-- A literal string after its opening quote. -/
def literal? (cs : List Char) : Read String :=
  let body := cs.takeWhile fun c => isLineChar c && c.toNat != 39
  match cs.drop body.length with
  | '\'' :: rest => some (String.ofList body, rest)
  | _ => none

/-- The end of a string of several lines: its three closing quotes, with up to two quotes of the
string in front of them. -/
def closing? (quote : Char) (cs : List Char) : Read (List Char) :=
  let quotes := cs.takeWhile (· == quote)
  if 3 ≤ quotes.length ∧ quotes.length ≤ 5 then
    some (quotes.drop 3, cs.drop quotes.length)
  else none

/-- The text after the blanks and line breaks at its start. -/
def dropBreaks : List Char → List Char
  | '\r' :: '\n' :: cs => dropBreaks cs
  | c :: cs => if isSpace c || c == '\n' then dropBreaks cs else c :: cs
  | [] => []

/-- The text after a backslash at the end of a line, and after the blanks and line breaks that
follow it. -/
def continued? (cs : List Char) : Option (List Char) :=
  (newline? (dropSpaces cs)).map dropBreaks

/-- A basic string of several lines, after its opening quotes. -/
def multiBasic? : Nat → (read : List Char) → List Char → Read String
  | 0, _, _ => none
  | _ + 1, _, [] => none
  | fuel + 1, read, c :: cs =>
    if c = '"' then
      match closing? '"' (c :: cs) with
      | some (own, rest) => some (String.ofList (read.reverse ++ own), rest)
      | none => if cs.take 2 = ['"', '"'] then none else multiBasic? fuel (c :: read) cs
    else if c = '\\' then
      match continued? cs with
      | some rest => multiBasic? fuel read rest
      | none => (escaped? cs).bind fun (e, cs) => multiBasic? fuel (e :: read) cs
    else
      match newline? (c :: cs) with
      | some rest => multiBasic? fuel ('\n' :: read) rest
      | none => if isLineChar c then multiBasic? fuel (c :: read) cs else none

/-- A literal string of several lines, after its opening quotes. -/
def multiLiteral? : Nat → (read : List Char) → List Char → Read String
  | 0, _, _ => none
  | _ + 1, _, [] => none
  | fuel + 1, read, c :: cs =>
    if c.toNat = 39 then
      match closing? '\'' (c :: cs) with
      | some (own, rest) => some (String.ofList (read.reverse ++ own), rest)
      | none => if cs.take 2 = ['\'', '\''] then none else multiLiteral? fuel (c :: read) cs
    else
      match newline? (c :: cs) with
      | some rest => multiLiteral? fuel ('\n' :: read) rest
      | none => if isLineChar c then multiLiteral? fuel (c :: read) cs else none

/-- The text after the line break that may follow the opening quotes. -/
def dropFirstBreak (cs : List Char) : List Char := (newline? cs).getD cs

/-- A string of one of the four kinds; `none` also when the text does not start with a quote. Each
round of reading takes a character, so `fuel` never runs out when it exceeds the length of the
text. -/
def string? (fuel : Nat) : List Char → Read String
  | '"' :: '"' :: '"' :: cs => multiBasic? fuel [] (dropFirstBreak cs)
  | '"' :: cs => basic? fuel [] cs
  | '\'' :: '\'' :: '\'' :: cs => multiLiteral? fuel [] (dropFirstBreak cs)
  | '\'' :: cs => literal? cs
  | _ => none

/-! ## Keys -/

/-- Characters of a key without quotes. -/
def isBareKeyChar (c : Char) : Bool := c.isAlphanum || c == '-' || c == '_'

/-- One part of a key. -/
def keyPart? : List Char → Read String
  | '"' :: cs => basic? (cs.length + 1) [] cs
  | '\'' :: cs => literal? cs
  | cs =>
    let part := cs.takeWhile isBareKeyChar
    if part.isEmpty then none else some (String.ofList part, cs.drop part.length)

/-- How deep arrays and tables in braces may be nested, and how many parts a key may have. -/
def depthLimit : Nat := 79

/-- A key of at most so many parts: those up to the last, and the last. -/
def keyWithin? : (parts : Nat) → List Char → Read (List String × String)
  | 0, _ => none
  | parts + 1, cs =>
    (keyPart? (dropSpaces cs)).bind fun (part, cs) =>
      match dropSpaces cs with
      | '.' :: cs => (keyWithin? parts cs).map fun ((path, last), cs) => ((part :: path, last), cs)
      | cs => some (([], part), cs)

/-- A key: its parts up to the last, and the last. -/
def key? : List Char → Read (List String × String) := keyWithin? depthLimit

/-! ## Values -/

mutual

/-- A value, with so many levels of nesting left. Each call takes a character or fails, so `fuel`
never runs out when it exceeds the length of the text. -/
def value? : Nat → (levels : Nat) → List Char → Read Toml
  | 0, _, _ => none
  | _ + 1, _, [] => none
  | fuel + 1, levels, c :: cs =>
    if c = '"' ∨ c.toNat = 39 then (string? (fuel + 1) (c :: cs)).map fun (s, cs) => (.string s, cs)
    else if c = '[' then
      if levels = 0 then none
      else (items? fuel (levels - 1) cs).map fun (items, cs) => (.array items, cs)
    else if c = '\x7b' then
      if levels = 0 then none
      else
        match dropSpaces cs with
        | '\x7d' :: cs => some (.inline [], cs)
        | cs => (pairs? fuel (levels - 1) [] cs).map fun (entries, cs) => (.inline entries, cs)
    else
      let (text, rest) := lexeme (c :: cs)
      (scalar? text).map fun v => (v, rest)

/-- The items of an array up to its closing bracket; a comma may follow the last. -/
def items? : Nat → (levels : Nat) → List Char → Read (List Toml)
  | 0, _, _ => none
  | fuel + 1, levels, cs =>
    match dropBlankLines false cs with
    | ']' :: cs => some ([], cs)
    | cs =>
      (value? fuel levels cs).bind fun (item, cs) =>
        match dropBlankLines false cs with
        | ']' :: cs => some ([item], cs)
        | ',' :: cs => (items? fuel levels cs).map fun (items, cs) => (item :: items, cs)
        | _ => none

/-- The pairs of a table in braces up to its closing brace, one at least. -/
def pairs? : Nat → (levels : Nat) → Entries → List Char → Read Entries
  | 0, _, _, _ => none
  | fuel + 1, levels, entries, cs =>
    (key? cs).bind fun ((path, last), cs) =>
      match cs with
      | '=' :: cs =>
        (value? fuel levels (dropSpaces cs)).bind fun (v, cs) =>
          (addDotted path last v entries).bind fun entries =>
            match dropSpaces cs with
            | '\x7d' :: cs => some (entries, cs)
            | ',' :: cs => pairs? fuel levels entries cs
            | _ => none
      | _ => none

end

/-! ## Statements -/

/-- A header after its opening brackets: its key, and the text after the closing ones. -/
def header? (closing : List Char) (cs : List Char) : Read (List String × String) :=
  (key? cs).bind fun (key, cs) =>
    (Text.dropHead? closing cs).map fun cs => (key, cs)

/-- The statements of a document, one after the other, added to the entries read so far. `under` is
the table of the last header. -/
def statements? : Nat → (under : List String) → Entries → List Char → Option Entries
  | 0, _, _, _ => none
  | fuel + 1, under, entries, cs =>
    match dropBlankLines false cs with
    | [] => some entries
    | '[' :: '[' :: cs =>
      (header? [']', ']'] cs).bind fun ((path, last), cs) =>
        (endOfLine? cs).bind fun cs =>
          (addElement path last entries).bind fun entries =>
            statements? fuel (path ++ [last]) entries cs
    | '[' :: cs =>
      (header? [']'] cs).bind fun ((path, last), cs) =>
        (endOfLine? cs).bind fun cs =>
          (addHeader path last entries).bind fun entries =>
            statements? fuel (path ++ [last]) entries cs
    | cs =>
      (key? cs).bind fun ((path, last), cs) =>
        match cs with
        | '=' :: cs =>
          (value? (2 * cs.length + 2) depthLimit (dropSpaces cs)).bind fun (v, cs) =>
            (endOfLine? cs).bind fun cs =>
              (addUnder under path last v entries).bind fun entries =>
                statements? fuel under entries cs
        | _ => none

/-- The entries of a document. A byte order mark at its start is passed over. -/
def parse? (text : String) : Option Entries :=
  let cs := match text.toList with
    | '\ufeff' :: cs => cs
    | cs => cs
  statements? (cs.length + 1) [] [] cs

end Wiring.Toml
