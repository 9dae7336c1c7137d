import Wiring.Diagnostic
import Wiring.Text.Blank
import Wiring.Text.Width

/-!
# Source excerpts

A report that shows the marked source line with the mark drawn under it. Places are counted in
characters, and a mark is as wide as the character it stands under. A tab reaches to the next
multiple of four, every other blank is drawn as one space, and blanks at the end of the line are
not drawn. Only a mark on one line is drawn. For one over several lines, in the source or past its
end, the place where it starts is named, and its lines are left out.
-/

namespace Wiring.Excerpt

/-- The characters that end a line. -/
def endsLine (c : Char) : Bool :=
  let n := c.toNat
  (10 ≤ n && n ≤ 13) || n == 0x85 || n == 0x2028 || n == 0x2029

/-- The lines of a source, each with what ends it; a carriage return and a line feed end one line
together. -/
def lines : List Char → List (List Char)
  | [] => []
  | c :: cs =>
    if endsLine c && !(c == '\r' && cs.head? == some '\n') then [c] :: lines cs
    else match lines cs with
      | [] => [[c]]
      | l :: ls => (c :: l) :: ls

/-- A line of the source. -/
structure Line where
  /-- Its number, from one. -/
  number : Nat
  /-- The place of its first character in the source. -/
  start : Nat
  /-- The place after the line and what ends it. -/
  stop : Nat
  /-- Its characters, without blanks at the end. -/
  text : List Char
  deriving Repr, Inhabited

/-- The line that holds the character at a place, or the last line. -/
def lineAt (place : Nat) : (number start : Nat) → List (List Char) → Line
  | number, start, [] => ⟨number, start, start, []⟩
  | number, start, [l] => ⟨number, start, start + l.length, Text.trimEnd l⟩
  | number, start, l :: ls =>
    if place < start + l.length then ⟨number, start, start + l.length, Text.trimEnd l⟩
    else lineAt place (number + 1) (start + l.length) ls

/-- The columns that a character takes. -/
def width (column : Nat) : Option Char → Nat
  | some c =>
    if c = '\t' then 4 - column % 4
    else if Text.isBlank c then 1
    else Text.charWidth c
  | none => 1

/-- A line as it is drawn. -/
def drawn (l : Line) : String :=
  String.join (l.text.zipIdx.map fun (c, column) =>
    if c = '\t' then "".pushn ' ' (width column (some c))
    else if Text.isBlank c then " "
    else c.toString)

/-- A row of marks under the characters of a line: the mark first, then its filling where the
character is wider than one column. Under a character without a column nothing is drawn. -/
def marks (l : Line) (places : Nat) (mark : Nat → Char × Char) : String :=
  String.join ((List.range places).map fun place =>
    let (first, fill) := mark place
    match width place l.text[place]? with
    | 0 => ""
    | columns + 1 => first.toString.pushn fill columns)

/-- The lines of a note. A line feed ends a line, together with a carriage return before it. -/
def noteLines (note : String) : List String :=
  let pieces := note.splitOn "\n"
  let ended := pieces.dropLast.map fun p => (if p.endsWith "\r" then (p.dropEnd 1).toString else p)
  match pieces.getLast? with
  | some "" | none => ended
  | some last => ended ++ [last]

/-- What is wrong, on one line. -/
def header (d : Diagnostic) (code : String) : String :=
  "[" ++ code ++ "] " ++ (match d.severity with
    | .error => "Error"
    | .warning => "Warning") ++ ": " ++ d.message ++ "\n"

/-- The notes under the excerpt. -/
def notesText (margin : String) (notes : List String) : String :=
  if notes.isEmpty then ""
  else
    margin ++ " \n" ++ match noteLines ("\n".intercalate notes) with
      | [] => ""
      | first :: rest =>
        margin ++ " Note: " ++ first ++ "\n"
          ++ String.join (rest.map fun line => margin ++ "       " ++ line ++ "\n")

/-- The line with the mark under it, and the label at the end of the mark. The mark covers the
places of the line from `s` to before `e`, and the label hangs at the place `m`. -/
def marked (l : Line) (number margin label : String) (s e m : Nat) : String :=
  " " ++ number ++ " │ " ++ drawn l ++ "\n"
    ++ margin ++ " " ++ marks l (e + 2) (fun place =>
        if place = m then
          if s ≤ place ∧ place < e then ('┬', '─') else ('│', ' ')
        else if s ≤ place ∧ place < e then ('─', '─')
        else (' ', ' ')) ++ "\n"
    ++ margin ++ " " ++ marks l (e + 2) (fun place =>
        if place < m then (' ', ' ')
        else if place = m then ('╰', '─')
        else ('─', '─'))
    ++ " " ++ label ++ "\n"

/-- The report of a diagnostic whose mark covers the characters from `start` to before `stop`. When
the mark lies outside the source there is nothing to show but the header. When it does not end on
the line it starts on, because it goes on over the lines after it or past the end of the source, no
line is shown: a picture of several lines is not drawn here. -/
def render (d : Diagnostic) (code : String) (source : String) (start stop : Nat) : String :=
  let chars := source.toList
  let length := chars.length
  if length < start ∨ (start < stop ∧ length < stop - 1) then header d code
  else
    let l := lineAt start 1 0 (lines chars)
    let s := start - l.start
    let number := toString l.number
    let blank := "".pushn ' ' (number.length + 2)
    let margin := blank ++ "│"
    header d code
      ++ blank ++ "╭─[ <unknown>:" ++ number ++ ":" ++ toString (s + 1) ++ " ]\n"
      ++ margin ++ "\n"
      ++ (if stop ≤ l.stop then
          marked l number margin ((d.element.map (·.trace)).getD "") s (stop - l.start)
            (max s ((start + stop) / 2 - l.start))
        else margin ++ " \n")
      ++ notesText margin d.notes
      ++ "".pushn '─' (number.length + 2) ++ "╯\n"

end Wiring.Excerpt
