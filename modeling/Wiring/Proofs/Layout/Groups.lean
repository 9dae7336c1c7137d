import Wiring.Proofs.Layout.Content
import Wiring.Proofs.Layout.Lines

/-!
# Groups on one line or on several

A group that is reached stays on its line exactly if its texts and spaces end within the width of
the page and no certain line break is in it. Everything inside such a group stays on the line with
it. In any other group the spaces and soft breaks that lie outside of further groups are line
breaks, each with the indentation that it stands in, and further groups are decided where they are
reached. These rules say what a whole document is printed as, if the width of the page and the
indentations in the document are small enough to be counted. A line feed in a text is no line break
of the layout: it is written wherever the text is.
-/

namespace Wiring

namespace Text

/-- How many line feeds are in a text. -/
def lineFeeds (s : String) : Nat := s.toList.count '\n'

/-- The line feeds of texts one after the other add up. -/
theorem lineFeeds_append (s t : String) : lineFeeds (s ++ t) = lineFeeds s + lineFeeds t := by
  rw [lineFeeds, String.toList_append, List.count_append, lineFeeds, lineFeeds]

/-- Blanks are no line feeds. -/
theorem lineFeeds_pushn (s : String) (n : Nat) : lineFeeds (s.pushn ' ' n) = lineFeeds s := by
  rw [String.pushn_eq_repeat_push]
  induction n with
  | zero => rfl
  | succ n ih =>
    rw [Nat.repeat, String.push_eq_append, lineFeeds_append, ih]
    rfl

end Text

namespace Doc

open Page Text

mutual

/-- The text of a document on one line: its texts in order, and a blank for each space. -/
def flatText : Doc → String
  | text s => s
  | space => " "
  | indent d | group d => flatText d
  | concat ds => flatTexts ds
  | _ => ""

/-- The texts of documents one after the other on one line. -/
def flatTexts : List Doc → String
  | [] => ""
  | d :: ds => flatText d ++ flatTexts ds

end

mutual

/-- Whether a certain line break is in a document. -/
def hasHardLine : Doc → Bool
  | hardLine => true
  | indent d | group d => hasHardLine d
  | concat ds => anyHardLine ds
  | _ => false

/-- Whether a certain line break is in one of the documents. -/
def anyHardLine : List Doc → Bool
  | [] => false
  | d :: ds => hasHardLine d || anyHardLine ds

end

mutual

/-- How many indentations stand inside of each other in a document at most. -/
def nesting : Doc → Nat
  | indent d => nesting d + 1
  | group d => nesting d
  | concat ds => nestingAll ds
  | _ => 0

/-- How many indentations stand inside of each other in one of the documents at most. -/
def nestingAll : List Doc → Nat
  | [] => 0
  | d :: ds => max (nesting d) (nestingAll ds)

end

/-- A document fits behind a column: on one line it ends within the width of the page, and nothing
in it breaks the line for certain. -/
def Fits (d : Doc) (page : Page) (column : Nat) : Prop :=
  column + d.flatText.utf8ByteSize ≤ page.maxWidth ∧ d.hasHardLine = false

instance (d : Doc) (page : Page) (column : Nat) : Decidable (d.Fits page column) :=
  inferInstanceAs (Decidable (_ ∧ _))

/-- What lies in a document outside of its groups, and its groups. -/
inductive Item where
  | text (s : String)
  /-- A space or a break, inside so many indentations. -/
  | lineBreak (depth : Nat)
  | group (depth : Nat) (d : Doc)

mutual

/-- The items of a document that stands inside so many indentations, in order. -/
def items (depth : Nat) : Doc → List Item
  | empty => []
  | text s => [.text s]
  | space | softLine | hardLine => [.lineBreak depth]
  | indent d => items (depth + 1) d
  | group d => [.group depth d]
  | concat ds => itemsAll depth ds

/-- The items of documents one after the other. -/
def itemsAll (depth : Nat) : List Doc → List Item
  | [] => []
  | d :: ds => items depth d ++ itemsAll depth ds

end

/-- The rules by which items are laid out behind what is on a sheet. A line break begins a line with
the indentation it stands in. A group that fits is put on the current line as a whole, and one that
does not has its own items laid out. -/
inductive Lays (page : Page) : List Item → Sheet → Sheet → Prop where
  | done {s} : Lays page [] s s
  | text {s s' t rest} (hr : Lays page rest (s.put t) s') : Lays page (.text t :: rest) s s'
  | lineBreak {s s' depth rest} (hr : Lays page rest (s.newline (depth * page.indentSize)) s') :
      Lays page (.lineBreak depth :: rest) s s'
  | flat {s s' depth d rest} (hd : d.Fits page s.current.column)
      (hr : Lays page rest (s.put d.flatText) s') : Lays page (.group depth d :: rest) s s'
  | broken {s s' s'' depth d rest} (hd : ¬ d.Fits page s.current.column)
      (hg : Lays page (d.items depth) s s') (hr : Lays page rest s' s'') :
      Lays page (.group depth d :: rest) s s''

variable {page : Page} {d g : Doc} {ds : List Doc} {column : Nat} {ink : Ink} {s s' s'' : Sheet}

/-- Items one after the other are laid out one after the other. -/
theorem Lays.append {xs ys : List Item} (h : Lays page xs s s') (h' : Lays page ys s' s'') :
    Lays page (xs ++ ys) s s'' := by
  induction h with
  | done => exact h'
  | text _ ih => exact .text (ih h')
  | lineBreak _ ih => exact .lineBreak (ih h')
  | flat hd _ ih => exact .flat hd (ih h')
  | broken hd hg _ _ ih => exact .broken hd hg (ih h')

/-! ### The measure of a group -/

/-- A width that is not counted stays so. -/
theorem addWidth_unbounded (n : Nat) : addWidth unbounded n = unbounded :=
  Nat.min_eq_right (Nat.le_add_right ..)

/-- Widths may be added in any order. -/
theorem addWidth_comm (a b : Nat) : addWidth a b = addWidth b a := by
  rw [addWidth, addWidth, Nat.add_comm]

/-- The bound on widths makes no difference to sums that stay below it. -/
theorem addWidth_min (a b : Nat) : addWidth (min a unbounded) (min b unbounded)
    = min (a + b) unbounded := by
  rw [addWidth]
  omega

mutual

/-- The measure of a document is the width of its text on one line, as far as widths are counted,
unless a certain line break is in it. -/
theorem flatWidth_eq : ∀ d : Doc, d.flatWidth
    = if d.hasHardLine then unbounded else min d.flatText.utf8ByteSize unbounded
  | empty => rfl
  | text _ => rfl
  | space => rfl
  | softLine => rfl
  | hardLine => rfl
  | indent d => flatWidth_eq d
  | group d => flatWidth_eq d
  | concat ds => flatWidths_eq ds

/-- The measure of documents is the width of their text on one line, as far as widths are counted,
unless a certain line break is in one of them. -/
theorem flatWidths_eq : ∀ ds : List Doc, flatWidths ds
    = if anyHardLine ds then unbounded else min (flatTexts ds).utf8ByteSize unbounded
  | [] => rfl
  | d :: ds => by
    rw [flatWidths, flatWidth_eq d, flatWidths_eq ds, anyHardLine, flatTexts,
      String.utf8ByteSize_append]
    cases d.hasHardLine with
    | true => exact addWidth_unbounded _
    | false =>
      cases anyHardLine ds with
      | true =>
        rw [addWidth_comm]
        exact addWidth_unbounded _
      | false => exact addWidth_min ..

end

/-- On a page whose width is counted, a group is flat exactly if it fits. -/
theorem modeAt_eq (h : page.maxWidth < unbounded) (column : Nat) (d : Doc) :
    page.modeAt column d = if d.Fits page column then .flat else .broken := by
  have hiff : addWidth column d.flatWidth ≤ page.maxWidth ↔ d.Fits page column := by
    rw [Fits, flatWidth_eq, addWidth]
    cases d.hasHardLine with
    | true =>
      simp only [if_true, Bool.true_eq_false, and_false, iff_false]
      omega
    | false =>
      simp only [Bool.false_eq_true, if_false, and_true]
      omega
  rw [modeAt]
  simp only [hiff]

/-- An indentation that is counted is one level deeper than the one it is made from. -/
theorem deepen_mul {depth : Nat} (h : (depth + 1) * page.indentSize ≤ unbounded) :
    page.deepen (depth * page.indentSize) = (depth + 1) * page.indentSize := by
  rw [Page.deepen, ← Nat.succ_mul]
  exact Nat.mod_eq_of_lt (Nat.lt_succ_of_le h)

/-! ### A group that fits -/

mutual

/-- On one line, the line feeds of a document are those of its texts. -/
theorem lineFeeds_flatText :
    ∀ d : Doc, lineFeeds d.flatText = (d.leaves.flatMap String.toList).count '\n'
  | empty => rfl
  | text s => congrArg (List.count '\n') (List.append_nil s.toList).symm
  | space => rfl
  | softLine => rfl
  | hardLine => rfl
  | indent d => lineFeeds_flatText d
  | group d => lineFeeds_flatText d
  | concat ds => lineFeeds_flatTexts ds

/-- On one line, the line feeds of documents are those of their texts. -/
theorem lineFeeds_flatTexts :
    ∀ ds : List Doc, lineFeeds (flatTexts ds) = ((leavesAll ds).flatMap String.toList).count '\n'
  | [] => rfl
  | d :: ds => by
    rw [flatTexts, lineFeeds_append, lineFeeds_flatText d, lineFeeds_flatTexts ds, leavesAll,
      List.flatMap_append, List.count_append]

end

/-- With a text its own line feeds are written, and no other. -/
theorem lineFeeds_put (ink : Ink) (t : String) :
    lineFeeds (ink.put t).written = lineFeeds ink.written + lineFeeds t := by
  by_cases ht : t = ""
  · rw [ht]
    rfl
  · rw [Ink.put_of_ne ink ht, lineFeeds_append, lineFeeds_pushn]

/-- The text of documents on one line is put together from that of any two parts. -/
theorem flatTexts_append (ds ds' : List Doc) :
    flatTexts (ds ++ ds') = flatTexts ds ++ flatTexts ds' := by
  induction ds with
  | nil => exact String.empty_append.symm
  | cons d ds ih => rw [List.cons_append, flatTexts, flatTexts, ih, String.append_assoc]

/-- A certain line break is in one of two parts or the other. -/
theorem anyHardLine_append (ds ds' : List Doc) :
    anyHardLine (ds ++ ds') = (anyHardLine ds || anyHardLine ds') := by
  induction ds with
  | nil => rfl
  | cons d ds ih => rw [List.cons_append, anyHardLine, anyHardLine, ih, Bool.or_assoc]

namespace Printing

variable {p q r : Printing}

/-- A moment of printing a document on one line, from the given ink on. -/
structure Flat (page : Page) (d : Doc) (ink : Ink) (q : Printing) : Prop where
  /-- All that is left is laid out flat, and does not break the line for certain. -/
  modes : ∀ c ∈ q.left, c.mode = .flat
  noHardLine : anyHardLine (q.left.map (·.doc)) = false
  /-- What has been written and what is left are the text of the document on one line. -/
  text : ∃ t, q.ink = ink.put t ∧ d.flatText = t ++ flatTexts (q.left.map (·.doc))

/-- Printing a document without certain line breaks starts flat. -/
theorem Flat.start (h : d.hasHardLine = false) (indentation : Nat) (ink : Ink) :
    Flat page d ink ⟨[⟨indentation, .flat, d⟩], ink⟩ where
  modes c hc := by rw [List.mem_singleton.1 hc]
  noHardLine := by
    rw [List.map_singleton, anyHardLine, anyHardLine, Bool.or_false]
    exact h
  text := by
    refine ⟨"", rfl, ?_⟩
    rw [List.map_singleton, flatTexts, flatTexts, String.append_empty, String.empty_append]

/-- What comes next fits, if the whole does. -/
theorem Flat.fits {c : Command} {left : List Command} (h : Flat page d ink q)
    (hd : d.Fits page ink.column) (hleft : q.left = c :: left) : c.doc.Fits page q.ink.column := by
  obtain ⟨t, hink, htext⟩ := h.text
  have hnone := h.noHardLine
  rw [hleft, List.map_cons, anyHardLine, Bool.or_eq_false_iff] at hnone
  have hwidth := congrArg String.utf8ByteSize htext
  rw [hleft, List.map_cons, flatTexts, String.utf8ByteSize_append, String.utf8ByteSize_append]
    at hwidth
  have hend := hd.1
  refine ⟨?_, hnone.1⟩
  rw [hink, Ink.column_put]
  omega

/-- Carrying out a flat command that fits writes some of its text, and leaves the rest to flat
commands. -/
theorem perform_flat (hpage : page.maxWidth < unbounded) (indentation : Nat)
    (hd : d.Fits page ink.column) (left : List Command) : ∃ u above,
      perform page ⟨indentation, .flat, d⟩ left ink = ⟨above ++ left, ink.put u⟩ ∧
      (∀ c ∈ above, c.mode = .flat) ∧ anyHardLine (above.map (·.doc)) = false ∧
      d.flatText = u ++ flatTexts (above.map (·.doc)) := by
  -- A document inside takes the place of the one around it, and nothing is written yet.
  have hone : ∀ (n : Nat) (x : Doc), x.hasHardLine = false → ∃ u above,
      (⟨⟨n, .flat, x⟩ :: left, ink⟩ : Printing) = ⟨above ++ left, ink.put u⟩ ∧
      (∀ c ∈ above, c.mode = .flat) ∧ anyHardLine (above.map (·.doc)) = false ∧
      x.flatText = u ++ flatTexts (above.map (·.doc)) := by
    intro n x hx
    obtain ⟨hmodes, hnone, _⟩ : Flat page x ink ⟨[⟨n, .flat, x⟩], ink⟩ := .start hx n ink
    exact ⟨"", [⟨n, .flat, x⟩], rfl, hmodes, hnone, by
      rw [List.map_singleton, flatTexts, flatTexts, String.append_empty, String.empty_append]⟩
  -- A leaf is written, and nothing takes its place.
  have hleaf : ∀ u : String, ∃ u' above,
      (⟨left, ink.put u⟩ : Printing) = ⟨above ++ left, ink.put u'⟩ ∧
      (∀ c ∈ above, c.mode = .flat) ∧ anyHardLine (above.map (·.doc)) = false ∧
      u = u' ++ flatTexts (above.map (·.doc)) := fun u =>
    ⟨u, [], rfl, fun c hc => absurd hc List.not_mem_nil, rfl, String.append_empty.symm⟩
  cases d with
  | empty => exact hleaf ""
  | text s => exact hleaf s
  | space => exact hleaf " "
  | softLine => exact hleaf ""
  | hardLine => cases hd.2
  | indent d => exact hone _ d hd.2
  | group d =>
    have hperform : perform page ⟨indentation, .flat, group d⟩ left ink
        = ⟨⟨indentation, page.modeAt ink.column d, d⟩ :: left, ink⟩ := rfl
    have hfits : d.Fits page ink.column := hd
    rw [hperform, modeAt_eq hpage, if_pos hfits]
    exact hone indentation d hd.2
  | concat ds =>
    have hdocs : (ds.map (Command.mk indentation .flat)).map (·.doc) = ds := by
      rw [List.map_map]
      exact List.map_id ds
    refine ⟨"", ds.map (⟨indentation, .flat, ·⟩), rfl, fun c hc => ?_, ?_, ?_⟩
    · obtain ⟨d, _, rfl⟩ := List.mem_map.1 hc
      rfl
    · rw [hdocs]
      exact hd.2
    · rw [hdocs, String.empty_append]
      rfl

/-- A flat moment is followed by a flat moment. -/
theorem Flat.step (hpage : page.maxWidth < unbounded) (hd : d.Fits page ink.column)
    (h : Flat page d ink q) (hstep : q.step page = some r) : Flat page d ink r := by
  obtain ⟨⟨indentation, mode, x⟩, left, hleft, rfl⟩ := step_eq_some_iff.1 hstep
  have hx := h.fits hd hleft
  obtain ⟨hmodes, hnone, t, hink, htext⟩ := h
  rw [hleft] at hmodes hnone htext
  obtain ⟨hmode, hrest⟩ := List.forall_mem_cons.1 hmodes
  rw [List.map_cons, anyHardLine, Bool.or_eq_false_iff] at hnone
  dsimp only at hmode
  subst hmode
  obtain ⟨u, above, hperform, habove, hnone', hu⟩ := perform_flat hpage indentation hx left
  rw [hperform]
  refine ⟨fun c hc => ?_, ?_, t ++ u, ?_, ?_⟩
  · exact (List.mem_append.1 hc).elim (habove c) (hrest c)
  · rw [List.map_append, anyHardLine_append, hnone', hnone.2]
    rfl
  · rw [hink, Ink.put_put]
  · rw [htext, List.map_cons, flatTexts, hu, List.map_append, flatTexts_append]
    simp only [String.append_assoc]

/-- While a document that fits is printed, every moment is flat. -/
theorem flat_of_reaches (hpage : page.maxWidth < unbounded) (hd : d.Fits page ink.column)
    {indentation : Nat} (h : Reaches page ⟨[⟨indentation, .flat, d⟩], ink⟩ q) :
    Flat page d ink q := by
  induction h with
  | refl => exact .start hd.2 indentation ink
  | tail _ hstep ih => exact ih.step hpage hd hstep

end Printing

/-- A document that fits is written as its text on one line. -/
theorem write_flat (hpage : page.maxWidth < unbounded) (hd : d.Fits page ink.column)
    (indentation : Nat) : d.write page indentation .flat ink = ink.put d.flatText := by
  have hend := Printing.reaches_write page ⟨indentation, .flat, d⟩ [] ink
  obtain ⟨t, hink, htext⟩ := (Printing.flat_of_reaches hpage hd hend).text
  rw [List.map_nil, flatTexts, String.append_empty] at htext
  rw [htext]
  exact hink

/-! ### A group that does not fit -/

mutual

/-- What is written of a document that is not on one line follows the rules of layout. -/
theorem exists_lays_write (hpage : page.maxWidth < unbounded) :
    ∀ (d : Doc) (depth : Nat) {ink : Ink} {s : Sheet},
      (depth + d.nesting) * page.indentSize ≤ unbounded → ink.Shows s → ∃ s',
      Lays page (d.items depth) s s' ∧
      (d.write page (depth * page.indentSize) .broken ink).Shows s'
  | empty, _, _, s, _, h => ⟨s, .done, h⟩
  | text t, _, _, _, _, h => ⟨_, .text .done, h.put t⟩
  | space, _, _, _, _, h => ⟨_, .lineBreak .done, h.newline _⟩
  | softLine, _, _, _, _, h => ⟨_, .lineBreak .done, h.newline _⟩
  | hardLine, _, _, _, _, h => ⟨_, .lineBreak .done, h.newline _⟩
  | indent d, depth, ink, s, hdeep, h => by
    have hnesting : depth + (indent d).nesting = depth + 1 + d.nesting := by
      rw [nesting, Nat.add_comm d.nesting, Nat.add_assoc]
    rw [hnesting] at hdeep
    -- Counted around the whole, the indentation is counted here, so it does not wrap.
    have hinside : (depth + 1) * page.indentSize ≤ unbounded :=
      Nat.le_trans (Nat.mul_le_mul_right _ (Nat.le_add_right ..)) hdeep
    rw [items, write, deepen_mul hinside]
    exact exists_lays_write hpage d (depth + 1) hdeep h
  | group d, depth, ink, s, hdeep, h => by
    rw [items, write, modeAt_eq hpage, h.column]
    by_cases hd : d.Fits page s.current.column
    · rw [if_pos hd, write_flat hpage (by rwa [h.column])]
      exact ⟨_, .flat hd .done, h.put d.flatText⟩
    · rw [if_neg hd]
      obtain ⟨s', hlays, hshows⟩ := exists_lays_write hpage d depth hdeep h
      exact ⟨s', .broken hd hlays .done, hshows⟩
  | concat ds, depth, _, _, hdeep, h => exists_lays_writeAll hpage ds depth hdeep h

/-- What is written of documents one after the other follows the rules of layout. -/
theorem exists_lays_writeAll (hpage : page.maxWidth < unbounded) :
    ∀ (ds : List Doc) (depth : Nat) {ink : Ink} {s : Sheet},
      (depth + nestingAll ds) * page.indentSize ≤ unbounded → ink.Shows s → ∃ s',
      Lays page (itemsAll depth ds) s s' ∧
      (writeAll page (depth * page.indentSize) .broken ds ink).Shows s'
  | [], _, _, s, _, h => ⟨s, .done, h⟩
  | d :: ds, depth, ink, s, hdeep, h => by
    have hfirst : (depth + d.nesting) * page.indentSize ≤ unbounded :=
      Nat.le_trans (Nat.mul_le_mul_right _ (Nat.add_le_add_left (Nat.le_max_left ..) _)) hdeep
    have hlater : (depth + nestingAll ds) * page.indentSize ≤ unbounded :=
      Nat.le_trans (Nat.mul_le_mul_right _ (Nat.add_le_add_left (Nat.le_max_right ..) _)) hdeep
    obtain ⟨s', hlays, hshows⟩ := exists_lays_write hpage d depth hfirst h
    obtain ⟨s'', hrest, hend⟩ := exists_lays_writeAll hpage ds depth hlater hshows
    exact ⟨s'', hlays.append hrest, hend⟩

end

/-! ### All groups of a document -/

/-- One document is in another, inside so many indentations. -/
inductive Holds (d : Doc) : Nat → Doc → Prop where
  | self : Holds d 0 d
  | indent {depth x} (h : Holds d depth (indent x)) : Holds d (depth + 1) x
  | group {depth x} (h : Holds d depth (group x)) : Holds d depth x
  | concat {depth xs x} (h : Holds d depth (concat xs)) (hx : x ∈ xs) : Holds d depth x

/-- None of several documents has more nesting than all of them. -/
theorem nesting_le_nestingAll (hd : d ∈ ds) : d.nesting ≤ nestingAll ds := by
  induction ds with
  | nil => exact absurd hd List.not_mem_nil
  | cons x ds ih =>
    rw [nestingAll]
    rcases List.mem_cons.1 hd with rfl | hd
    · exact Nat.le_max_left ..
    · exact Nat.le_trans (ih hd) (Nat.le_max_right ..)

/-- The indentations around a part and those in it are indentations of the whole. -/
theorem Holds.nesting_le {depth : Nat} {x : Doc} (h : d.Holds depth x) :
    depth + x.nesting ≤ d.nesting := by
  induction h with
  | self => exact Nat.le_of_eq (Nat.zero_add _)
  | indent _ ih =>
    rw [nesting] at ih
    omega
  | group _ ih => exact ih
  | concat _ hx ih =>
    rw [nesting] at ih
    exact Nat.le_trans (Nat.add_le_add_left (nesting_le_nestingAll hx) _) ih

/-- Where the indentations of a document are counted, those of its parts are. -/
theorem Holds.counted {depth : Nat} {x : Doc} (h : d.Holds depth x)
    (hdeep : d.nesting * page.indentSize ≤ unbounded) :
    (depth + x.nesting) * page.indentSize ≤ unbounded :=
  Nat.le_trans (Nat.mul_le_mul_right _ h.nesting_le) hdeep

namespace Printing

variable {p q : Printing}

/-- A command is for a part of the document, with the indentation that the part stands in. -/
def Command.IsFor (page : Page) (d : Doc) (c : Command) : Prop :=
  ∃ depth, c.indentation = depth * page.indentSize ∧ d.Holds depth c.doc

/-- What takes the place of a command is for parts of its document. -/
theorem isFor_perform (hdeep : d.nesting * page.indentSize ≤ unbounded) {c : Command}
    (hc : Command.IsFor page d c) {left : List Command}
    (hleft : ∀ c ∈ left, Command.IsFor page d c) (ink : Ink) :
    ∀ next ∈ (perform page c left ink).left, Command.IsFor page d next := by
  obtain ⟨indentation, mode, x⟩ := c
  obtain ⟨depth, hdepth, hx⟩ := hc
  dsimp only at hdepth hx
  cases x with
  | space => cases mode <;> exact hleft
  | softLine => cases mode <;> exact hleft
  | indent x =>
    refine List.forall_mem_cons.2 ⟨⟨depth + 1, ?_, hx.indent⟩, hleft⟩
    have hinside := Nat.mul_le_mul_right page.indentSize (Nat.le_add_right (depth + 1) x.nesting)
    rw [hdepth]
    exact deepen_mul (Nat.le_trans hinside (hx.indent.counted hdeep))
  | group x => exact List.forall_mem_cons.2 ⟨⟨depth, hdepth, hx.group⟩, hleft⟩
  | concat xs =>
    intro next hnext
    rcases List.mem_append.1 hnext with hnext | hnext
    · obtain ⟨x, hmem, rfl⟩ := List.mem_map.1 hnext
      exact ⟨depth, hdepth, hx.concat hmem⟩
    · exact hleft next hnext
  | _ => exact hleft

/-- At every moment of printing, the commands that are left are for parts of the document. -/
theorem isFor_of_reaches (hdeep : d.nesting * page.indentSize ≤ unbounded)
    (h : Reaches page (start d) p) : ∀ c ∈ p.left, Command.IsFor page d c := by
  induction h with
  | refl =>
    intro c hc
    rw [List.mem_singleton.1 hc]
    exact ⟨0, (Nat.zero_mul _).symm, .self⟩
  | @tail q _ _ hstep ih =>
    obtain ⟨c, left, hleft, rfl⟩ := step_eq_some_iff.1 hstep
    rw [hleft] at ih
    obtain ⟨hc, hrest⟩ := List.forall_mem_cons.1 ih
    exact isFor_perform hdeep hc hrest q.ink

/-- A group that is next is flat if it fits, and is broken otherwise. -/
theorem step_group (hpage : page.maxWidth < unbounded) {n : Nat} {mode : Mode}
    {left : List Command} (hleft : p.left = ⟨n, mode, .group g⟩ :: left) : p.step page
      = some ⟨⟨n, if g.Fits page p.ink.column then .flat else .broken, g⟩ :: left, p.ink⟩ := by
  rw [← modeAt_eq hpage]
  exact step_eq_some_iff.2 ⟨_, left, hleft, rfl⟩

/-- How the group that is next is laid out behind what is on the sheet. -/
structure GroupLaid (page : Page) (p : Printing) (s : Sheet) (depth : Nat) (g : Doc)
    (left : List Command) : Prop where
  /-- The group is flat exactly if it fits behind the column. -/
  decided : p.step page = some
    ⟨⟨depth * page.indentSize, if g.Fits page s.current.column then .flat else .broken, g⟩ :: left,
      p.ink⟩
  /-- A flat group adds its text to the current line. The column moves by the width of the text, and
  no further than the page is wide. All line feeds that it writes are in its texts. -/
  onOneLine : g.Fits page s.current.column →
    Reaches page p ⟨left, p.ink.put g.flatText⟩ ∧
    (p.ink.put g.flatText).Shows (s.put g.flatText) ∧
    (s.put g.flatText).current.column = s.current.column + g.flatText.utf8ByteSize ∧
    (s.put g.flatText).current.column ≤ page.maxWidth ∧
    lineFeeds (p.ink.put g.flatText).written
      = lineFeeds p.ink.written + (g.leaves.flatMap String.toList).count '\n'
  /-- At all moments until a flat group is written, what there is of it is on the current line, what
  is left of it is flat, and so is every group in it that comes next. -/
  allFlat : g.Fits page s.current.column → ∀ q,
    Reaches page ⟨[⟨depth * page.indentSize, .flat, g⟩], p.ink⟩ q →
    Reaches page p ⟨q.left ++ left, q.ink⟩ ∧
    (∃ t rest, g.flatText = t ++ rest ∧ q.ink.Shows (s.put t)) ∧
    (∀ c ∈ q.left, c.mode = .flat) ∧
    ∀ n mode x rest, q.left = ⟨n, mode, .group x⟩ :: rest →
      q.step page = some ⟨⟨n, .flat, x⟩ :: rest, q.ink⟩
  /-- A flat group whose texts have no line feed breaks no line, at any moment until it is
  written. -/
  unbroken : g.Fits page s.current.column → (∀ t ∈ g.leaves, '\n' ∉ t.toList) → ∀ q,
    Reaches page ⟨[⟨depth * page.indentSize, .flat, g⟩], p.ink⟩ q →
    lineFeeds q.ink.written = lineFeeds p.ink.written
  /-- The items of a broken group are laid out by the rules, its spaces and soft breaks outside of
  further groups as line breaks. -/
  acrossLines : ¬ g.Fits page s.current.column → ∃ ink s',
    Reaches page p ⟨left, ink⟩ ∧ ink.Shows s' ∧ Lays page (g.items depth) s s'

/-- A group that is next is flat if it fits, and is laid out by the rules otherwise. -/
theorem groupLaid (hpage : page.maxWidth < unbounded) {depth : Nat}
    (hdeep : (depth + g.nesting) * page.indentSize ≤ unbounded) {mode : Mode}
    {left : List Command} (hs : p.ink.Shows s)
    (hleft : p.left = ⟨depth * page.indentSize, mode, .group g⟩ :: left) :
    GroupLaid page p s depth g left := by
  have hdecided : p.step page = some ⟨⟨depth * page.indentSize,
      if g.Fits page s.current.column then .flat else .broken, g⟩ :: left, p.ink⟩ := by
    rw [← hs.column]
    exact step_group hpage hleft
  refine ⟨hdecided, fun hg => ?_, fun hg q hq => ?_, fun hg hfeeds q hq => ?_, fun hg => ?_⟩
  · rw [if_pos hg] at hdecided
    have hend := reaches_write page ⟨depth * page.indentSize, .flat, g⟩ left p.ink
    rw [write_flat hpage (by rwa [hs.column])] at hend
    have hcolumn := s.column_put g.flatText
    refine ⟨.head hdecided hend, hs.put _, hcolumn, ?_, ?_⟩
    · rw [hcolumn]
      exact hg.1
    · rw [lineFeeds_put, lineFeeds_flatText]
  · rw [if_pos hg] at hdecided
    have hfits : g.Fits page p.ink.column := by rwa [hs.column]
    have hflat := flat_of_reaches hpage hfits hq
    obtain ⟨t, hink, htext⟩ := hflat.text
    refine ⟨.head hdecided (hq.append left), ⟨t, _, htext, ?_⟩, hflat.modes, ?_⟩
    · rw [hink]
      exact hs.put t
    · intro n mode x rest hnext
      have hx : x.Fits page q.ink.column := hflat.fits hfits hnext
      rw [step_group hpage hnext, if_pos hx]
  · have hfits : g.Fits page p.ink.column := by rwa [hs.column]
    obtain ⟨t, hink, htext⟩ := (flat_of_reaches hpage hfits hq).text
    -- What has been written by then is a part of a text without line feeds.
    have hnone : lineFeeds g.flatText = 0 := by
      rw [lineFeeds_flatText, List.count_eq_zero]
      intro hfeed
      obtain ⟨t, ht, hmem⟩ := List.mem_flatMap.1 hfeed
      exact hfeeds t ht hmem
    rw [htext, lineFeeds_append] at hnone
    rw [hink, lineFeeds_put, (Nat.add_eq_zero_iff.1 hnone).1, Nat.add_zero]
  · rw [if_neg hg] at hdecided
    obtain ⟨s', hlays, hshows⟩ := exists_lays_write hpage g depth hdeep hs
    exact ⟨_, s', .head hdecided (reaches_write page _ left p.ink), hshows, hlays⟩

end Printing

/-- A document breaks where it has to and nowhere else. -/
structure BreaksAsNeeded (page : Page) (d : Doc) : Prop where
  /-- The text of the document is what the rules of layout make of its items. -/
  whole : ∃ s, Lays page (d.items 0) {} s ∧ d.render page = endLine s.printed
  /-- A group that is reached stands in so many indentations, and is laid out as it fits behind the
  lines that are there. -/
  groups : ∀ p n mode g left, Printing.Reaches page (.start d) p →
    p.left = ⟨n, mode, .group g⟩ :: left → ∃ s depth, p.ink.Shows s ∧
      n = depth * page.indentSize ∧ d.Holds depth (.group g) ∧
      Printing.GroupLaid page p s depth g left

/-- On a page whose width is counted, every document whose indentations are counted breaks where it
has to and nowhere else. -/
theorem breaksAsNeeded (page : Page) (d : Doc) (hpage : page.maxWidth < unbounded)
    (hdeep : d.nesting * page.indentSize ≤ unbounded) : BreaksAsNeeded page d where
  whole := by
    have hinside := Holds.self.counted hdeep
    obtain ⟨s, hlays, hshows⟩ := exists_lays_write hpage d 0 hinside Ink.Shows.blank
    rw [Nat.zero_mul] at hshows
    exact ⟨s, hlays, congrArg endLine hshows.written⟩
  groups p n mode g left hp hleft := by
    obtain ⟨s, hs⟩ := Printing.exists_shows_of_reaches hp
    have hfor := Printing.isFor_of_reaches hdeep hp ⟨n, mode, .group g⟩
      (hleft ▸ List.mem_cons_self ..)
    obtain ⟨depth, hdepth, hholds⟩ := hfor
    dsimp only at hdepth
    subst hdepth
    have hinside : (depth + g.nesting) * page.indentSize ≤ unbounded := hholds.counted hdeep
    exact ⟨s, depth, hs, rfl, hholds, Printing.groupLaid hpage hinside hs hleft⟩

/-- A call inside of a call. The outer one does not fit behind its opening bracket and is written on
four lines, on the second of which the inner one stands, as it fits there. -/
theorem breaksAsNeeded_call :
    let page : Page := ⟨4, 14⟩
    let inner := concat [indent (concat [softLine, text "a", text ",", space, text "b"]), softLine]
    let outer := concat [indent (concat [softLine, text "Bar(", group inner, text ")", text ",",
      space, text "second"]), softLine]
    let call := concat [text "Foo(", group outer, text ")"]
    page.maxWidth < unbounded ∧ call.nesting * page.indentSize ≤ unbounded ∧
    BreaksAsNeeded page call ∧ ¬ outer.Fits page 4 ∧ inner.Fits page 8 ∧
    (∃ p left, Printing.Reaches page (.start call) p ∧ p.ink.column = 8 ∧
      p.left = ⟨4, .broken, group inner⟩ :: left) ∧
    call.render page = "Foo(\n    Bar(a, b),\n    second\n)\n" := by
  intro page inner outer call
  have hpage : page.maxWidth < unbounded := by decide
  have hdeep : call.nesting * page.indentSize ≤ unbounded := by decide
  have hmoment : ∃ p left, Printing.Reaches page (.start call) p ∧ p.ink.column = 8 ∧
      p.left = ⟨4, .broken, group inner⟩ :: left := by
    have houter : Printing.Reaches page (.start call)
        ⟨[⟨0, page.modeAt (({} : Page.Ink).put "Foo(").column outer, outer⟩,
          ⟨0, .broken, text ")"⟩], ({} : Page.Ink).put "Foo("⟩ :=
      .head rfl (.head rfl (.head rfl .refl))
    have hbroken : page.modeAt (({} : Page.Ink).put "Foo(").column outer = .broken := by
      decide +kernel
    rw [hbroken] at houter
    refine ⟨_, _, houter.trans (.head rfl (.head rfl (.head rfl (.head rfl (.head rfl .refl))))),
      ?_, rfl⟩
    decide +kernel
  exact ⟨hpage, hdeep, breaksAsNeeded page call hpage hdeep, by decide, by decide, hmoment,
    by decide +kernel⟩

/-- A text is printed behind a blank if an indentation is due. -/
theorem blank_mem_printed_put {t : String} (ht : t ≠ "") (hdue : s.due ≠ 0) :
    ' ' ∈ (s.put t).printed.toList := by
  obtain ⟨n, hn⟩ := Nat.exists_eq_succ_of_ne_zero hdue
  rw [s.printed_put ht, hn, String.pushn_eq_repeat_push, Nat.repeat, String.toList_append,
    String.toList_push]
  exact List.mem_append_left _ (List.mem_append_right _ (List.mem_singleton_self ' '))

/-- A character of a text stays there when its last line is ended. -/
theorem mem_endLine {c : Char} {t : String} (h : c ∈ t.toList) : c ∈ (endLine t).toList := by
  rw [endLine]
  split
  · exact h
  · rw [String.toList_push]
    exact List.mem_append_left _ h

/-- Without the two conditions things are different. A group with a line feed in its text fits, is
flat, and writes the line feed. Behind a break in two indentations of half of what is counted, a
text stands at the beginning of its line. -/
theorem not_breaksAsNeeded_torn_deep :
    let torn := text "a\nb"
    let half : Page := ⟨9223372036854775808, 0⟩
    let deep := group (indent (indent (concat [space, text "a"])))
    (torn.Fits {} 0 ∧ Printing.step {} (.start (group torn)) = some ⟨[⟨0, .flat, torn⟩], {}⟩ ∧
      Printing.Reaches {} ⟨[⟨0, .flat, torn⟩], {}⟩ ⟨[], ⟨"a\nb", 3, none⟩⟩ ∧
      lineFeeds "a\nb" = 1) ∧
    half.maxWidth < unbounded ∧ deep.render half = "\na\n" ∧ ¬ BreaksAsNeeded half deep := by
  intro torn half deep
  have hrender : deep.render half = "\na\n" := by decide +kernel
  refine ⟨⟨by decide, rfl, .head rfl .refl, rfl⟩, by decide, hrender, fun h => ?_⟩
  obtain ⟨s, hlays, hprinted⟩ := h.whole
  -- By the rules a blank would be printed in front of the text.
  cases hlays with
  | flat hd => exact absurd hd (by decide)
  | broken _ hg hr =>
    cases hr
    cases hg with
    | lineBreak hr =>
      cases hr with
      | text hr =>
        cases hr
        have hdue : (Sheet.newline {} (2 * half.indentSize)).due ≠ 0 := by decide
        have hblank := mem_endLine (blank_mem_printed_put (t := "a") (by decide) hdue)
        rw [← hprinted, hrender] at hblank
        exact absurd hblank (by decide)

end Doc

end Wiring
