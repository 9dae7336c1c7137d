import Wiring.Proofs.Layout.Commands
import Wiring.Proofs.Layout.Printed

/-!
# The lines of a page

What has been written, as lines. A line begins with an indentation and goes on with text, and the
indentation is printed in front of text only. The column is where the current line ends, the
indentation included even while it is still due. At every moment of printing such lines have been
written.
-/

namespace Wiring

namespace Doc.Page

/-- A line: the indentation it begins with, and what is written on it. -/
structure Line where
  indentation : Nat := 0
  text : String := ""
  deriving DecidableEq, Repr

namespace Line

/-- What is printed of a line. A line without text is left blank. -/
def printed (l : Line) : String :=
  if l.text = "" then "" else "".pushn ' ' l.indentation ++ l.text

/-- Where the line ends. -/
def column (l : Line) : Nat := l.indentation + l.text.utf8ByteSize

end Line

/-- Lines that have been written. -/
structure Sheet where
  /-- The lines that are finished, the first line first. -/
  above : List Line := []
  /-- The line that is being written. -/
  current : Line := {}
  deriving DecidableEq, Repr

namespace Sheet

/-- Write a text at the end of the current line. -/
def put (s : Sheet) (t : String) : Sheet :=
  { s with current := { s.current with text := s.current.text ++ t } }

/-- Start a line with the given indentation. -/
def newline (s : Sheet) (indentation : Nat) : Sheet := ⟨s.above ++ [s.current], ⟨indentation, ""⟩⟩

/-- The finished lines, each with the line break at its end. -/
def finished (s : Sheet) : String :=
  s.above.foldl (fun written l => (written ++ l.printed).push '\n') ""

/-- What is printed of the lines. -/
def printed (s : Sheet) : String := s.finished ++ s.current.printed

/-- Writing a text leaves the finished lines as they are. -/
@[simp] theorem above_put (s : Sheet) (t : String) : (s.put t).above = s.above := rfl

/-- Writing a text leaves the indentation of its line as it is. -/
@[simp] theorem indentation_put (s : Sheet) (t : String) :
    (s.put t).current.indentation = s.current.indentation := rfl

/-- A text moves the end of the line by its width. -/
theorem column_put (s : Sheet) (t : String) :
    (s.put t).current.column = s.current.column + t.utf8ByteSize := by
  rw [Line.column, Line.column, put, String.utf8ByteSize_append, Nat.add_assoc]

/-- Texts one after the other may be written as one. -/
theorem put_put (s : Sheet) (t u : String) : (s.put t).put u = s.put (t ++ u) := by
  rw [put, put, put, String.append_assoc]

/-- The empty text changes no sheet. -/
theorem put_empty (s : Sheet) : s.put "" = s := by
  rw [put, String.append_empty]

/-- A line that is left is finished with a line break at its end. -/
theorem finished_newline (s : Sheet) (indentation : Nat) :
    (s.newline indentation).finished = s.printed.push '\n' := by
  rw [finished, newline, List.foldl_append]
  rfl

/-- The indentation of the current line that has not been printed, since the line has no text. -/
def due (s : Sheet) : Nat := if s.current.text = "" then s.current.indentation else 0

/-- A text is printed behind the indentation of its line. -/
theorem printed_put (s : Sheet) {t : String} (ht : t ≠ "") :
    (s.put t).printed = s.printed.pushn ' ' s.due ++ t := by
  have htext : (s.put t).current.text ≠ "" := fun h => ht (String.append_eq_empty_iff.1 h).2
  have hfinished : (s.put t).finished = s.finished := rfl
  have hcurrent : (s.put t).current.text = s.current.text ++ t := rfl
  rw [printed, printed, Line.printed, Line.printed, if_neg htext, hfinished, hcurrent, due,
    indentation_put]
  by_cases hs : s.current.text = ""
  · rw [if_pos hs, if_pos hs, hs, String.append_empty, String.empty_append,
      Text.pushn_eq_append s.finished, String.append_assoc]
  · have hnone : ∀ u : String, u.pushn ' ' 0 = u := fun _ => rfl
    rw [if_neg hs, if_neg hs, hnone, String.append_assoc, String.append_assoc]

end Sheet

namespace Ink

/-- A text is written behind the indentation that is due, after which none is. -/
theorem put_of_ne (ink : Ink) {t : String} (ht : t ≠ "") : ink.put t
    = ⟨ink.written.pushn ' ' (ink.due.getD 0) ++ t, ink.column + t.utf8ByteSize, none⟩ := by
  have hempty : ¬ t.isEmpty = true := fun h => ht (String.isEmpty_iff.1 h)
  rw [put, if_neg hempty]
  cases ink.due <;> rfl

/-- Writing a text moves the column by the width of the text. -/
theorem column_put (ink : Ink) (t : String) :
    (ink.put t).column = ink.column + t.utf8ByteSize := by
  by_cases ht : t = ""
  · rw [ht]
    rfl
  · rw [put_of_ne ink ht]

/-- Texts written one after the other are written as one. -/
theorem put_put (ink : Ink) (t u : String) : (ink.put t).put u = ink.put (t ++ u) := by
  by_cases ht : t = ""
  · rw [ht, String.empty_append]
    rfl
  by_cases hu : u = ""
  · rw [hu, String.append_empty]
    rfl
  have htu : t ++ u ≠ "" := fun h => ht (String.append_eq_empty_iff.1 h).1
  have hnone : ∀ v : String, v.pushn ' ' 0 = v := fun _ => rfl
  rw [put_of_ne ink ht, put_of_ne _ hu, put_of_ne ink htu, String.utf8ByteSize_append,
    Option.getD_none, hnone, String.append_assoc, Nat.add_assoc]

end Ink

/-- What has been written are the lines of a sheet. The indentation of the current line is due as
long as the line has no text. -/
structure Ink.Shows (ink : Ink) (s : Sheet) : Prop where
  written : ink.written = s.printed
  column : ink.column = s.current.column
  due : ink.due.getD 0 = s.due

namespace Ink.Shows

variable {ink : Ink} {s : Sheet}

/-- Nothing has been written at the beginning. -/
theorem blank : Ink.Shows {} {} := ⟨rfl, rfl, rfl⟩

/-- A text goes to the end of the current line, behind the indentation if that is still due. -/
theorem put (h : ink.Shows s) (t : String) : (ink.put t).Shows (s.put t) := by
  by_cases ht : t = ""
  · rw [ht, Sheet.put_empty]
    exact h
  · have htext : (s.put t).current.text ≠ "" := fun h => ht (String.append_eq_empty_iff.1 h).2
    rw [put_of_ne ink ht]
    refine ⟨?_, ?_, (if_neg htext).symm⟩
    · rw [h.written, h.due, Sheet.printed_put s ht]
    · rw [Sheet.column_put, ← h.column]

/-- A line that is started in print is started on the sheet. -/
theorem newline (h : ink.Shows s) (indentation : Nat) :
    (ink.newline indentation).Shows (s.newline indentation) where
  written := by
    rw [Sheet.printed, Sheet.finished_newline, ← h.written]
    exact String.append_empty.symm
  column := rfl
  due := rfl

end Ink.Shows

end Doc.Page

namespace Doc.Printing

open Page

variable {page : Page} {p q : Printing}

/-- A command leaves lines behind. -/
theorem exists_shows_perform {ink : Ink} {s : Sheet} (h : ink.Shows s) (c : Command)
    (left : List Command) : ∃ s', (perform page c left ink).ink.Shows s' := by
  obtain ⟨indentation, mode, d⟩ := c
  cases d with
  | text t => exact ⟨_, h.put t⟩
  | space =>
    cases mode with
    | flat => exact ⟨_, h.put " "⟩
    | broken => exact ⟨_, h.newline indentation⟩
  | softLine =>
    cases mode with
    | flat => exact ⟨_, h⟩
    | broken => exact ⟨_, h.newline indentation⟩
  | hardLine => exact ⟨_, h.newline indentation⟩
  | _ => exact ⟨_, h⟩

/-- At every moment of printing lines have been written. -/
theorem exists_shows_of_reaches {d : Doc} (h : Reaches page (start d) p) :
    ∃ s, p.ink.Shows s := by
  induction h with
  | refl => exact ⟨{}, .blank⟩
  | tail _ hstep ih =>
    obtain ⟨s, hs⟩ := ih
    obtain ⟨c, left, _, rfl⟩ := step_eq_some_iff.1 hstep
    exact exists_shows_perform hs c left

end Doc.Printing

end Wiring
