import Wiring.Layout.Basic

/-!
# Printing layout documents

A document is written from left to right. A group is laid out flat exactly when its flat width
still fits into the line, and flatness holds for all that is inside; widths are counted in bytes.
Indentation is written only in front of text, so blank lines stay empty. Widths stop at the largest
number that is counted, and indentations wrap around there.
-/

namespace Wiring.Doc

/-- How wide lines may be, and how deep a level of indentation is. -/
structure Page where
  /-- Columns of a level of indentation. -/
  indentSize : Nat := 4
  /-- The width at which groups break. -/
  maxWidth : Nat := 100
  deriving Repr, Inhabited

/-- The largest number that widths and indentations are counted up to. It is the width of what
cannot be laid out flat. -/
def unbounded : Nat := 18446744073709551615

/-- The sum of two widths. -/
def addWidth (a b : Nat) : Nat := min (a + b) unbounded

mutual

/-- The width of a document on one line, `unbounded` when it has a certain line break. -/
def flatWidth : Doc → Nat
  | empty | softLine => 0
  | text s => min s.utf8ByteSize unbounded
  | space => 1
  | hardLine => unbounded
  | indent d | group d => flatWidth d
  | concat ds => flatWidths ds

/-- The width of documents one after the other on one line. -/
def flatWidths : List Doc → Nat
  | [] => 0
  | d :: ds => addWidth (flatWidth d) (flatWidths ds)

end

/-- Whether breaks are taken. -/
inductive Mode where
  | flat
  | broken
  deriving DecidableEq, Repr

/-- What has been written. -/
structure Page.Ink where
  /-- The text so far, without the indentation that is still due. -/
  written : String := ""
  /-- The column at which text continues, the indentation that is due included. -/
  column : Nat := 0
  /-- Indentation to write before the next text on this line. -/
  due : Option Nat := none
  deriving Repr, Inhabited

namespace Page.Ink

/-- Write a text on the current line. -/
def put (ink : Ink) (s : String) : Ink :=
  if s.isEmpty then ink
  else {
    written := (match ink.due with
      | some n => ink.written.pushn ' ' n
      | none => ink.written) ++ s
    column := ink.column + s.utf8ByteSize
    due := none }

/-- Start a line with the given indentation. -/
def newline (ink : Ink) (indent : Nat) : Ink :=
  { written := ink.written.push '\n', column := indent, due := some indent }

end Page.Ink

/-- How a group that starts at `column` is laid out. -/
def Page.modeAt (page : Page) (column : Nat) (d : Doc) : Mode :=
  if addWidth column d.flatWidth ≤ page.maxWidth then .flat else .broken

/-- The indentation one level further in. A sum that is not counted wraps around. -/
def Page.deepen (page : Page) (indentation : Nat) : Nat :=
  (indentation + page.indentSize) % (unbounded + 1)

mutual

/-- Write a document at an indentation, in a mode. -/
def write (page : Page) (indentation : Nat) (mode : Mode) : Doc → Page.Ink → Page.Ink
  | empty, ink => ink
  | text s, ink => ink.put s
  | space, ink =>
    match mode with
    | .flat => ink.put " "
    | .broken => ink.newline indentation
  | softLine, ink =>
    match mode with
    | .flat => ink
    | .broken => ink.newline indentation
  | hardLine, ink => ink.newline indentation
  | indent d, ink => write page (page.deepen indentation) mode d ink
  | group d, ink => write page indentation (page.modeAt ink.column d) d ink
  | concat ds, ink => writeAll page indentation mode ds ink

/-- Write documents one after the other. -/
def writeAll (page : Page) (indentation : Nat) (mode : Mode) : List Doc → Page.Ink → Page.Ink
  | [], ink => ink
  | d :: ds, ink => writeAll page indentation mode ds (write page indentation mode d ink)

end

/-- The text with a line break at its end, unless it is empty. -/
def endLine (s : String) : String :=
  if s.isEmpty ∨ s.endsWith "\n" then s else s.push '\n'

/-- The text of a document. -/
def render (page : Page) (d : Doc) : String :=
  endLine (d.write page 0 .broken {}).written

end Wiring.Doc
