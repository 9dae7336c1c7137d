import Mathlib.Logic.Relation
import Wiring.Layout.Printer

/-!
# Printing with a stack

A document can be written without recursion. What is left to write waits on a stack of commands,
each a document with its indentation and its mode. A step takes the first command off and writes
it, or puts commands for its parts in its place. The stack at any moment stands for what the
recursion has still to do, so the two write the same.
-/

namespace Wiring.Doc

/-- A document that is left to write, with the indentation of its line breaks and its mode. -/
structure Command where
  indentation : Nat
  mode : Mode
  doc : Doc

/-- A moment of printing. -/
structure Printing where
  /-- What is left to write, the next command first. -/
  left : List Command
  ink : Page.Ink

namespace Printing

/-- Printing a document begins with one command. -/
def start (d : Doc) : Printing := ⟨[⟨0, .broken, d⟩], {}⟩

/-- Carry out a command with the given commands behind it. -/
def perform (page : Page) (c : Command) (left : List Command) (ink : Page.Ink) : Printing :=
  match c.doc, c.mode with
  | .empty, _ => ⟨left, ink⟩
  | .text s, _ => ⟨left, ink.put s⟩
  | .space, .flat => ⟨left, ink.put " "⟩
  | .space, .broken => ⟨left, ink.newline c.indentation⟩
  | .softLine, .flat => ⟨left, ink⟩
  | .softLine, .broken => ⟨left, ink.newline c.indentation⟩
  | .hardLine, _ => ⟨left, ink.newline c.indentation⟩
  | .indent d, mode => ⟨⟨page.deepen c.indentation, mode, d⟩ :: left, ink⟩
  | .group d, _ => ⟨⟨c.indentation, page.modeAt ink.column d, d⟩ :: left, ink⟩
  | .concat ds, mode => ⟨ds.map (⟨c.indentation, mode, ·⟩) ++ left, ink⟩

/-- Carry out the next command; printing stops when none is left. -/
def step (page : Page) (p : Printing) : Option Printing :=
  match p.left with
  | [] => none
  | c :: left => some (perform page c left p.ink)

/-- One moment of printing comes some steps after another. -/
def Reaches (page : Page) : Printing → Printing → Prop :=
  Relation.ReflTransGen fun p q => p.step page = some q

/-- What the commands that are left will have written, each by recursion on its document. -/
def outcome (page : Page) (p : Printing) : Page.Ink :=
  p.left.foldl (fun ink c => c.doc.write page c.indentation c.mode ink) p.ink

end Printing

mutual

/-- How many steps a document takes. -/
def steps : Doc → Nat
  | indent d | group d => 1 + steps d
  | concat ds => 1 + stepsAll ds
  | _ => 1

/-- How many steps documents take one after the other. -/
def stepsAll : List Doc → Nat
  | [] => 0
  | d :: ds => steps d + stepsAll ds

end

namespace Printing

variable {page : Page} {p q : Printing}

/-- How many steps are left. -/
def remaining (p : Printing) : Nat := stepsAll (p.left.map (·.doc))

/-- The steps of documents one after the other add up. -/
theorem stepsAll_append (ds ds' : List Doc) :
    stepsAll (ds ++ ds') = stepsAll ds + stepsAll ds' := by
  induction ds with
  | nil => rw [List.nil_append, stepsAll, Nat.zero_add]
  | cons d ds ih => rw [List.cons_append, stepsAll, stepsAll, ih, Nat.add_assoc]

/-- Documents are written one after the other as the commands for them are. -/
theorem foldl_write_eq_writeAll (page : Page) (indentation : Nat) (mode : Mode) :
    ∀ (ds : List Doc) (ink : Page.Ink),
      (ds.map (Command.mk indentation mode)).foldl
        (fun ink c => c.doc.write page c.indentation c.mode ink) ink
        = writeAll page indentation mode ds ink
  | [], _ => rfl
  | d :: ds, ink => by
    rw [List.map_cons, List.foldl_cons, foldl_write_eq_writeAll page indentation mode ds, writeAll]

/-- Carrying out a command does what the recursion does with its document. -/
theorem outcome_perform (page : Page) (c : Command) (left : List Command) (ink : Page.Ink) :
    (perform page c left ink).outcome page = outcome page ⟨c :: left, ink⟩ := by
  obtain ⟨indentation, mode, d⟩ := c
  cases d with
  | space => cases mode <;> rfl
  | softLine => cases mode <;> rfl
  | concat ds =>
    simp only [perform, outcome, List.foldl_append, List.foldl_cons, foldl_write_eq_writeAll, write]
  | _ => rfl

/-- Carrying out a command is one of the steps that are left. -/
theorem remaining_perform (page : Page) (c : Command) (left : List Command) (ink : Page.Ink) :
    (perform page c left ink).remaining + 1 = remaining ⟨c :: left, ink⟩ := by
  obtain ⟨indentation, mode, d⟩ := c
  have hrest : ∀ ink : Page.Ink,
      remaining ⟨left, ink⟩ + 1 = 1 + stepsAll (left.map (·.doc)) := fun _ => Nat.add_comm _ 1
  cases d with
  | space => cases mode <;> exact hrest _
  | softLine => cases mode <;> exact hrest _
  | indent d =>
    simp only [perform, remaining, List.map_cons, stepsAll, steps]
    omega
  | group d =>
    simp only [perform, remaining, List.map_cons, stepsAll, steps]
    omega
  | concat ds =>
    have hdocs : (ds.map (Command.mk indentation mode)).map (·.doc) = ds := by
      rw [List.map_map]
      exact List.map_id ds
    simp only [perform, remaining, List.map_append, hdocs, stepsAll_append, List.map_cons, stepsAll,
      steps]
    omega
  | _ => exact hrest _

/-- A step carries out the next command. -/
theorem step_eq_some_iff : p.step page = some q ↔
    ∃ c left, p.left = c :: left ∧ q = perform page c left p.ink := by
  rw [step]
  cases p.left with
  | nil => exact ⟨fun h => (nomatch h), fun ⟨_, _, h, _⟩ => (nomatch h)⟩
  | cons c left =>
    constructor
    · intro h
      exact ⟨c, left, rfl, (Option.some.inj h).symm⟩
    · rintro ⟨_, _, hleft, rfl⟩
      cases hleft
      rfl

/-- Printing comes to its end, and has then written what the recursion writes. -/
theorem reaches_outcome (page : Page) (p : Printing) : Reaches page p ⟨[], p.outcome page⟩ := by
  induction hn : p.remaining using Nat.strongRecOn generalizing p with
  | ind n ih =>
    obtain ⟨left, ink⟩ := p
    cases left with
    | nil => exact .refl
    | cons c left =>
      have hless := remaining_perform page c left ink
      have hrest := ih _ (by omega) (perform page c left ink) rfl
      rw [outcome_perform] at hrest
      exact .head rfl hrest

/-- Carrying out a command leaves those far below alone. -/
theorem perform_append (page : Page) (c : Command) (above left : List Command) (ink : Page.Ink) :
    perform page c (above ++ left) ink
      = ⟨(perform page c above ink).left ++ left, (perform page c above ink).ink⟩ := by
  obtain ⟨indentation, mode, d⟩ := c
  cases d with
  | space => cases mode <;> rfl
  | softLine => cases mode <;> rfl
  | concat ds => simp only [perform, List.append_assoc]
  | _ => rfl

/-- Commands are carried out in the same way whatever waits below them. -/
theorem Reaches.append (h : Reaches page p q) (left : List Command) :
    Reaches page ⟨p.left ++ left, p.ink⟩ ⟨q.left ++ left, q.ink⟩ := by
  induction h with
  | refl => exact .refl
  | tail _ hstep ih =>
    obtain ⟨c, above, habove, rfl⟩ := step_eq_some_iff.1 hstep
    refine ih.tail (step_eq_some_iff.2 ⟨c, above ++ left, ?_, (perform_append ..).symm⟩)
    dsimp only
    rw [habove, List.cons_append]

/-- After a command come those below it, and its document has been written. -/
theorem reaches_write (page : Page) (c : Command) (left : List Command) (ink : Page.Ink) :
    Reaches page ⟨c :: left, ink⟩ ⟨left, c.doc.write page c.indentation c.mode ink⟩ :=
  (reaches_outcome page ⟨[c], ink⟩).append left

end Printing

/-- The text of a document is what a stack of commands writes. -/
theorem reaches_render (page : Page) (d : Doc) : ∃ ink,
    Printing.Reaches page (.start d) ⟨[], ink⟩ ∧ d.render page = endLine ink.written :=
  ⟨_, Printing.reaches_outcome page (.start d), rfl⟩

end Wiring.Doc
