import Wiring.Proofs.Layout.Commands

/-!
# What layout leaves alone

Layout decides about spaces and line breaks only. At every moment of printing, what is written
together with what is left are the texts of the document, each once and in order, as far as spaces
and line breaks do not count. Indentation that is still due, flat and broken groups, the width of
the page and the depth of its indentation make no difference to that.
-/

namespace Wiring

namespace Text

/-- The characters of a text other than spaces and line breaks. -/
def unspaced (s : String) : List Char := s.toList.filter fun ch => ch ≠ ' ' ∧ ch ≠ '\n'

/-- Texts one after the other have the characters of both. -/
theorem unspaced_append (s t : String) : unspaced (s ++ t) = unspaced s ++ unspaced t := by
  rw [unspaced, String.toList_append, List.filter_append]
  rfl

/-- A blank at the end of a text is not among its characters. -/
theorem unspaced_push {ch : Char} (h : ch = ' ' ∨ ch = '\n') (s : String) :
    unspaced (s.push ch) = unspaced s := by
  have hblank : unspaced (String.singleton ch) = [] := by
    rcases h with rfl | rfl <;> decide
  rw [String.push_eq_append, unspaced_append, hblank, List.append_nil]

/-- Blanks at the end of a text are not among its characters. -/
theorem unspaced_pushn (s : String) (n : Nat) : unspaced (s.pushn ' ' n) = unspaced s := by
  rw [String.pushn_eq_repeat_push]
  induction n with
  | zero => rfl
  | succ n ih => rw [Nat.repeat, unspaced_push (.inl rfl), ih]

end Text

namespace Doc

open Text

mutual

/-- The texts at the leaves of a document, in order. -/
def leaves : Doc → List String
  | text s => [s]
  | indent d | group d => leaves d
  | concat ds => leavesAll ds
  | _ => []

/-- The texts at the leaves of documents one after the other. -/
def leavesAll : List Doc → List String
  | [] => []
  | d :: ds => leaves d ++ leavesAll ds

end

/-- Documents one after the other have the leaves of all. -/
theorem leavesAll_append (ds ds' : List Doc) :
    leavesAll (ds ++ ds') = leavesAll ds ++ leavesAll ds' := by
  induction ds with
  | nil => rfl
  | cons d ds ih => rw [List.cons_append, leavesAll, leavesAll, ih, List.append_assoc]

namespace Page.Ink

/-- A text is written with no more than blanks in front of it. -/
theorem unspaced_put (ink : Page.Ink) (s : String) :
    unspaced (ink.put s).written = unspaced ink.written ++ unspaced s := by
  rw [put]
  split
  · next hs =>
    rw [String.isEmpty_iff.1 hs]
    exact (List.append_nil _).symm
  · cases ink.due with
    | none => exact unspaced_append ..
    | some n =>
      dsimp only
      rw [unspaced_append, unspaced_pushn]

/-- A line break adds no character. -/
theorem unspaced_newline (ink : Page.Ink) (indentation : Nat) :
    unspaced (ink.newline indentation).written = unspaced ink.written :=
  unspaced_push (.inr rfl) ink.written

end Page.Ink

/-- The end of the last line adds no character. -/
theorem unspaced_endLine (s : String) : unspaced (endLine s) = unspaced s := by
  rw [endLine]
  split
  · rfl
  · exact unspaced_push (.inr rfl) s

namespace Printing

variable {page : Page} {p q : Printing}

/-- The characters other than blanks that are written or left to write, in order. -/
def content (p : Printing) : List Char :=
  unspaced p.ink.written ++ (leavesAll (p.left.map (·.doc))).flatMap unspaced

/-- Carrying out a command moves its characters to those that are written. -/
theorem content_perform (page : Page) (c : Command) (left : List Command) (ink : Page.Ink) :
    (perform page c left ink).content = content ⟨c :: left, ink⟩ := by
  obtain ⟨indentation, mode, d⟩ := c
  have hbreak : content ⟨left, ink.newline indentation⟩ = content ⟨left, ink⟩ := by
    rw [content, content, Page.Ink.unspaced_newline]
  cases d with
  | text s =>
    simp only [perform, content, Page.Ink.unspaced_put, List.map_cons, leavesAll, leaves,
      List.flatMap_append, List.flatMap_cons, List.flatMap_nil, List.append_nil, List.append_assoc]
  | space =>
    cases mode with
    | flat =>
      have hspace : unspaced " " = [] := by decide
      rw [perform, content, Page.Ink.unspaced_put, hspace, List.append_nil]
      rfl
    | broken => exact hbreak
  | softLine =>
    cases mode with
    | flat => rfl
    | broken => exact hbreak
  | hardLine => exact hbreak
  | concat ds =>
    have hdocs : (ds.map (Command.mk indentation mode)).map (·.doc) = ds := by
      rw [List.map_map]
      exact List.map_id ds
    simp only [perform, content, List.map_append, hdocs, leavesAll_append, List.map_cons, leavesAll,
      leaves]
  | empty => rfl
  | indent d => rfl
  | group d => rfl

/-- A step neither loses nor repeats nor moves a character. -/
theorem content_step (h : p.step page = some q) : q.content = p.content := by
  obtain ⟨c, left, hleft, rfl⟩ := step_eq_some_iff.1 h
  obtain ⟨_, ink⟩ := p
  subst hleft
  exact content_perform page c left ink

/-- The content stays the same throughout a printing. -/
theorem content_of_reaches (h : Reaches page p q) : q.content = p.content := by
  induction h with
  | refl => rfl
  | tail _ hstep ih => rw [content_step hstep, ih]

/-- At the start the content is that of the leaves of the document. -/
theorem content_start (d : Doc) : (start d).content = d.leaves.flatMap unspaced := by
  rw [content, start, List.map_singleton, leavesAll, leavesAll, List.append_nil]
  rfl

end Printing

/-- On every page a document has its texts and nothing else, spaces and line breaks apart, and this
is so at every moment of printing. -/
theorem unspaced_render (d : Doc) :
    (∀ page, unspaced (d.render page) = d.leaves.flatMap unspaced) ∧
    (∀ page page', unspaced (d.render page) = unspaced (d.render page')) ∧
    (∀ page p, Printing.Reaches page (.start d) p →
      unspaced p.ink.written ++ (leavesAll (p.left.map (·.doc))).flatMap unspaced
        = d.leaves.flatMap unspaced) ∧
    ∀ page, ∃ ink, Printing.Reaches page (.start d) ⟨[], ink⟩ ∧
      d.render page = endLine ink.written := by
  have hmoment : ∀ page p, Printing.Reaches page (.start d) p →
      p.content = d.leaves.flatMap unspaced := by
    intro page p h
    rw [Printing.content_of_reaches h, Printing.content_start]
  have hrender : ∀ page, unspaced (d.render page) = d.leaves.flatMap unspaced := by
    intro page
    obtain ⟨ink, hreaches, hwritten⟩ := reaches_render page d
    rw [hwritten, unspaced_endLine, ← hmoment page _ hreaches, Printing.content, List.map_nil,
      leavesAll, List.flatMap_nil, List.append_nil]
  refine ⟨hrender, fun page page' => ?_, hmoment, fun page => reaches_render page d⟩
  rw [hrender page, hrender page']

/-- A call with an argument is laid out on one line or on three, and has the same characters. After
a line break its indentation is still due, and nothing of it is lost. -/
theorem unspaced_render_call :
    let argument := indent (concat [softLine, text "x y"])
    let call := group (concat [text "f(", argument, softLine, text ")"])
    call.render {} = "f(x y)\n" ∧
    call.render ⟨2, 3⟩ = "f(\n  x y\n)\n" ∧
    unspaced (call.render {}) = unspaced (call.render ⟨2, 3⟩) ∧
    ∃ p, Printing.Reaches ⟨2, 3⟩ (.start call) p ∧ p.ink.due = some 2 ∧
      unspaced p.ink.written ++ (leavesAll (p.left.map (·.doc))).flatMap unspaced
        = ['f', '(', 'x', 'y', ')'] := by
  intro argument call
  have hreaches : Printing.Reaches ⟨2, 3⟩ (.start call)
      ⟨[⟨2, .broken, text "x y"⟩, ⟨0, .broken, softLine⟩, ⟨0, .broken, text ")"⟩],
        ⟨"f(\n", 2, some 2⟩⟩ := by
    refine .head rfl (.head rfl (.head rfl (.head rfl (.head rfl (.head rfl ?_)))))
    exact .refl
  obtain ⟨-, hpages, hmoment, -⟩ := unspaced_render call
  refine ⟨by decide +kernel, by decide +kernel, hpages _ _, _, hreaches, rfl, ?_⟩
  rw [hmoment _ _ hreaches]
  decide

end Doc

end Wiring
