/-!
# Layout documents

Source text before its line breaks are chosen: a tree of texts, possible and certain breaks,
indentation, and groups that are laid out on one line when they fit.
-/

namespace Wiring

/-- A layout document. -/
inductive Doc where
  /-- Nothing at all. -/
  | empty
  /-- Text that is written as it is. -/
  | text (s : String)
  /-- A space when flat, a line break when broken. -/
  | space
  /-- Nothing when flat, a line break when broken. -/
  | softLine
  /-- Always a line break. -/
  | hardLine
  /-- The same document, its line breaks indented one level further. -/
  | indent (d : Doc)
  /-- The same document, flat if it fits into the rest of the line. -/
  | group (d : Doc)
  /-- Documents one after the other. -/
  | concat (ds : List Doc)
  deriving Repr, Inhabited

namespace Doc

/-- An opening text, a body on indented lines of its own, and a closing brace. -/
def block (opening : String) (body : Doc) : Doc :=
  concat [text opening, indent (concat [hardLine, body]), hardLine, text "\x7d"]

/-- The items after the first, each with the comma and the break before it. -/
def separated : List Doc → List Doc
  | [] => []
  | item :: items => text "," :: space :: item :: separated items

/-- Items between an opening and a closing text, on one line or each on an indented line. -/
def delimited (opening : String) (items : List Doc) (closing : String) : Doc :=
  match items with
  | [] => text (opening ++ closing)
  | item :: items =>
    concat [text opening,
      group (concat [indent (concat (softLine :: item :: separated items)), softLine]),
      text closing]

end Doc

end Wiring
