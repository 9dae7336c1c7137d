import Mathlib.Data.Nat.Count
import Wiring.Report.Excerpt
import Wiring.Text.Affix

/-!
# What an excerpt shows

The lines of a source are its characters again, and only the last one may lack a character that ends
it. The line that an excerpt shows is the one that holds the place where the mark starts, or the
last one, so its number counts the line ends before that place. An excerpt can be read back: its
first lines tell the number of the line and the place in it, and where the mark does not reach past
the line, the label stands under the character at that place.
-/

namespace Wiring

namespace Text

/-- What stands before the first separator, and what after it. -/
theorem append_cons_inj {sep : Char} {before before' after after' : List Char} (h : sep ∉ before)
    (h' : sep ∉ before') (heq : before ++ sep :: after = before' ++ sep :: after') :
    before = before' ∧ after = after' := by
  have hsplit := splitFirst?_append h after
  rw [heq, splitFirst?_append h' after', Option.some.injEq, Prod.mk.injEq] at hsplit
  exact ⟨hsplit.1.symm, hsplit.2.symm⟩

/-- Pushing a character several times puts so many of it at the end. -/
theorem toList_pushn (s : String) (c : Char) (n : Nat) :
    (s.pushn c n).toList = s.toList ++ List.replicate n c := by
  rw [String.pushn_eq_repeat_push]
  induction n with
  | zero => rw [List.replicate_zero, List.append_nil]; rfl
  | succ n ih => rw [Nat.repeat, String.toList_push, ih, List.append_assoc,
      ← List.replicate_succ']

end Text

namespace Excerpt

/-! ### The lines of a source -/

/-- Whether the character at a place ends a line. -/
def endsAt (chars : List Char) (place : Nat) : Bool :=
  match chars.drop place with
  | [] => false
  | c :: cs => endsLine c && !(c == '\r' && cs.head? == some '\n')

variable {chars : List Char} {l : Line} {place start stop : Nat}

/-- Whether a place ends a line does not depend on the characters before it. -/
theorem endsAt_succ (c : Char) (cs : List Char) (place : Nat) :
    endsAt (c :: cs) (place + 1) = endsAt cs place := rfl

/-- A line feed ends a line. -/
theorem endsAt_of_lineFeed (h : chars[place]? = some '\n') : endsAt chars place = true := by
  obtain ⟨hlt, hget⟩ := List.getElem?_eq_some_iff.1 h
  rw [endsAt, List.drop_eq_getElem_cons hlt, hget]
  rfl

/-- A character that ends a line is a line of its own when it comes first. -/
theorem lines_cons_of_endsAt {c : Char} {cs : List Char} (h : endsAt (c :: cs) 0 = true) :
    lines (c :: cs) = [c] :: lines cs := by
  rw [lines]
  exact if_pos h

/-- A character that ends no line belongs to the first of the lines behind it. -/
theorem lines_cons_of_not_endsAt {c : Char} {cs : List Char} (h : endsAt (c :: cs) 0 = false) :
    lines (c :: cs) = match lines cs with
      | [] => [[c]]
      | l :: ls => (c :: l) :: ls := by
  rw [lines]
  exact if_neg (Bool.eq_false_iff.1 h)

/-- Nothing is lost. -/
theorem flatten_lines (chars : List Char) : (lines chars).flatten = chars := by
  induction chars with
  | nil => rfl
  | cons c cs ih =>
    cases hends : endsAt (c :: cs) 0 with
    | true => rw [lines_cons_of_endsAt hends, List.flatten_cons, ih, List.singleton_append]
    | false =>
      rw [lines_cons_of_not_endsAt hends]
      cases hlines : lines cs with
      | nil =>
        rw [hlines, List.flatten_nil] at ih
        rw [← ih]
        rfl
      | cons l ls =>
        rw [hlines, List.flatten_cons] at ih
        rw [List.flatten_cons, List.cons_append, ih]

/-- A line of a source, between those before and those after it. -/
structure Piece (chars : List Char) (before : List (List Char)) (piece : List Char)
    (after : List (List Char)) : Prop where
  /-- Every line holds a character. -/
  ne_nil : piece ≠ []
  /-- There are as many lines before it as there are line ends before its start. -/
  count : Nat.count (endsAt chars · = true) before.flatten.length = before.length
  /-- No line ends inside it. -/
  inside : ∀ place, before.flatten.length ≤ place →
    place + 1 < before.flatten.length + piece.length → endsAt chars place = false
  /-- A line that is not the last one has an end. -/
  ends : after ≠ [] →
    endsAt chars (before.flatten.length + piece.length - 1) = true

/-- A line that stays as it is when a character comes before the source moves by one place. -/
theorem Piece.cons {c : Char} {cs : List Char} {before before' : List (List Char)}
    {piece : List Char} {after : List (List Char)} (h : Piece cs before piece after)
    (hlength : before'.flatten.length = before.flatten.length + 1)
    (hcount : before'.length = before.length + if endsAt (c :: cs) 0 = true then 1 else 0) :
    Piece (c :: cs) before' piece after where
  ne_nil := h.ne_nil
  count := by
    rw [hlength, Nat.count_succ', hcount]
    exact congrArg (· + _) h.count
  inside place hle hlt := by
    rw [hlength] at hle hlt
    obtain ⟨place, rfl⟩ := Nat.exists_eq_add_of_lt (Nat.lt_of_lt_of_le (Nat.succ_pos _) hle)
    rw [Nat.zero_add] at hle hlt ⊢
    rw [endsAt_succ]
    exact h.inside place (by omega) (by omega)
  ends hafter := by
    have hpos := List.length_pos_iff.2 h.ne_nil
    have hlast : before'.flatten.length + piece.length - 1
        = before.flatten.length + piece.length - 1 + 1 := by omega
    rw [hlast, endsAt_succ]
    exact h.ends hafter

/-- A line of one character. -/
theorem Piece.singleton {c : Char} {cs : List Char} {after : List (List Char)}
    (hends : after ≠ [] → endsAt (c :: cs) 0 = true) : Piece (c :: cs) [] [c] after where
  ne_nil := List.cons_ne_nil c []
  count := rfl
  inside place _ hlt := by
    rw [List.flatten_nil, List.length_nil, List.length_singleton] at hlt
    omega
  ends := hends

/-- A character that ends no line is put in front of the first line. -/
theorem Piece.cons_first {c : Char} {cs piece : List Char} {after : List (List Char)}
    (hends : endsAt (c :: cs) 0 = false) (h : Piece cs [] piece after) :
    Piece (c :: cs) [] (c :: piece) after where
  ne_nil := List.cons_ne_nil c piece
  count := rfl
  inside place _ hlt := by
    rw [List.flatten_nil, List.length_nil, List.length_cons] at hlt
    cases place with
    | zero => exact hends
    | succ place =>
      refine h.inside place (Nat.zero_le _) ?_
      rw [List.flatten_nil, List.length_nil]
      omega
  ends hafter := by
    have hlast := h.ends hafter
    have hpos := List.length_pos_iff.2 h.ne_nil
    rw [List.flatten_nil, List.length_nil, Nat.zero_add] at hlast ⊢
    rw [List.length_cons, Nat.add_sub_cancel, ← Nat.sub_add_cancel hpos, endsAt_succ]
    exact hlast

/-- What is among the lines of a source is a line between those before and those after. -/
theorem piece_of_lines {before after : List (List Char)} {piece : List Char}
    (h : lines chars = before ++ piece :: after) : Piece chars before piece after := by
  induction chars generalizing before piece after with
  | nil => cases before <;> cases h
  | cons c cs ih =>
    cases hends : endsAt (c :: cs) 0 with
    | true =>
      rw [lines_cons_of_endsAt hends] at h
      cases before with
      | nil =>
        obtain ⟨rfl, rfl⟩ := List.cons.inj h
        exact .singleton fun _ => hends
      | cons l before =>
        obtain ⟨rfl, hrest⟩ := List.cons.inj h
        refine (ih hrest).cons ?_ ?_
        · rw [List.flatten_cons, List.length_append, List.length_singleton, Nat.add_comm]
        · rw [if_pos hends, List.length_cons]
    | false =>
      rw [lines_cons_of_not_endsAt hends] at h
      cases hlines : lines cs with
      | nil =>
        rw [hlines] at h
        cases before with
        | nil =>
          obtain ⟨rfl, rfl⟩ := List.cons.inj h
          exact .singleton fun hne => absurd rfl hne
        | cons l before => exact absurd (List.cons.inj h).2 (by simp)
      | cons m ms =>
        rw [hlines] at h
        cases before with
        | nil =>
          obtain ⟨rfl, rfl⟩ := List.cons.inj h
          exact .cons_first hends (ih hlines)
        | cons l before =>
          obtain ⟨rfl, hrest⟩ := List.cons.inj h
          have hbefore : lines cs = (m :: before) ++ piece :: after := by
            rw [hlines, hrest]
            rfl
          refine (ih hbefore).cons ?_ ?_
          · rw [List.flatten_cons, List.flatten_cons, List.cons_append, List.length_cons]
          · rw [if_neg (Bool.eq_false_iff.1 hends), Nat.add_zero, List.length_cons,
              List.length_cons]

/-! ### The line that is shown -/

/-- A line of a source, with its number and its place. -/
def IsLine (chars : List Char) (l : Line) : Prop :=
  ∃ before piece after, lines chars = before ++ piece :: after ∧
    l = ⟨before.length + 1, before.flatten.length, before.flatten.length + piece.length,
      Text.trimEnd piece⟩

/-- A line is known by its number. -/
theorem IsLine.ext {l' : Line} (h : IsLine chars l) (h' : IsLine chars l')
    (heq : l.number = l'.number) : l = l' := by
  obtain ⟨before, piece, after, hlines, rfl⟩ := h
  obtain ⟨before', piece', after', hlines', rfl⟩ := h'
  obtain ⟨rfl, hrest⟩ := List.append_inj (hlines.symm.trans hlines') (Nat.succ.inj heq)
  rw [(List.cons.inj hrest).1]

/-- The line that is shown is one of those given; the place lies before it only if it is the first,
and after it only if it is the last. -/
theorem lineAt_spec (place : Nat) : ∀ {ls : List (List Char)} (number start : Nat), ls ≠ [] →
    ∃ before piece after, ls = before ++ piece :: after ∧
      lineAt place number start ls = ⟨number + before.length, start + before.flatten.length,
        start + before.flatten.length + piece.length, Text.trimEnd piece⟩ ∧
      (before ≠ [] → start + before.flatten.length ≤ place) ∧
      (after ≠ [] → place < start + before.flatten.length + piece.length)
  | [], _, _, hne => absurd rfl hne
  | [l], _, _, _ => ⟨[], l, [], rfl, rfl, fun h => absurd rfl h, fun h => absurd rfl h⟩
  | l :: m :: ms, number, start, _ => by
    rw [lineAt.eq_3 place number start l (m :: ms) (by simp)]
    by_cases hlt : place < start + l.length
    · rw [if_pos hlt]
      exact ⟨[], l, m :: ms, rfl, rfl, fun h => absurd rfl h, fun _ => hlt⟩
    · rw [if_neg hlt]
      obtain ⟨before, piece, after, hls, hline, hstart, hstop⟩ :=
        lineAt_spec place (number + 1) (start + l.length) (by simp : m :: ms ≠ [])
      refine ⟨l :: before, piece, after, by rw [hls]; rfl, ?_, fun _ => ?_, fun hne => ?_⟩
      · rw [hline, List.flatten_cons, List.length_append, List.length_cons]
        simp only [Nat.add_assoc, Nat.add_comm 1]
      · rw [List.flatten_cons, List.length_append]
        by_cases hne : before = []
        · subst hne
          simpa using Nat.le_of_not_lt hlt
        · have hstart := hstart hne
          omega
      · have hstop := hstop hne
        rw [List.flatten_cons, List.length_append]
        omega

/-- The line that an excerpt shows. -/
def shown (chars : List Char) (place : Nat) : Line := lineAt place 1 0 (lines chars)

/-- What the line of a place in a source says about the place. -/
structure Holds (chars : List Char) (place : Nat) (l : Line) : Prop where
  isLine : IsLine chars l
  /-- It starts at the place or before. -/
  start_le : l.start ≤ place
  /-- It lies in the source. -/
  stop_le : l.stop ≤ chars.length
  /-- Its number is one more than the number of line ends before the place, the last character of
  the source apart. -/
  number : l.number = Nat.count (endsAt chars · = true) (min place (chars.length - 1)) + 1
  /-- If it is not the last line, it ends after the place with a character that ends lines. -/
  ends : l.stop < chars.length → place < l.stop ∧ endsAt chars (l.stop - 1) = true

/-- Between two places without line ends the count does not grow. -/
theorem count_endsAt_eq {m n : Nat} (hle : m ≤ n)
    (hnone : ∀ place, m ≤ place → place < n → endsAt chars place = false) :
    Nat.count (endsAt chars · = true) n = Nat.count (endsAt chars · = true) m := by
  obtain ⟨k, rfl⟩ := Nat.exists_eq_add_of_le hle
  have hrest : Nat.count (fun i => endsAt chars (m + i) = true) k = 0 :=
    Nat.count_of_forall_not fun i hi => by
      rw [hnone (m + i) (Nat.le_add_right ..) (Nat.add_lt_add_left hi m)]
      exact Bool.false_ne_true
  rw [Nat.count_add, hrest, Nat.add_zero]

/-- The line that an excerpt shows holds the place it is for. -/
theorem holds_shown (hne : chars ≠ []) (place : Nat) : Holds chars place (shown chars place) := by
  have hlines : lines chars ≠ [] := fun h => hne (by rw [← flatten_lines chars, h]; rfl)
  obtain ⟨before, piece, after, hls, hline, hstart, hstop⟩ := lineAt_spec place 1 0 hlines
  have hpiece := piece_of_lines hls
  have hlength : before.flatten.length + piece.length + after.flatten.length = chars.length := by
    rw [← flatten_lines chars, hls, List.flatten_append, List.flatten_cons, List.length_append,
      List.length_append, Nat.add_assoc]
  have hpos := List.length_pos_iff.2 hpiece.ne_nil
  have hplace : before.flatten.length ≤ place := by
    by_cases hbefore : before = []
    · subst hbefore
      exact Nat.zero_le _
    · simpa only [Nat.zero_add] using hstart hbefore
  have hlast : after = [] → after.flatten.length = 0 := fun h => by rw [h]; rfl
  simp only [Nat.zero_add] at hline hstop
  rw [shown, hline]
  refine ⟨⟨before, piece, after, hls, by rw [Nat.add_comm 1]⟩, hplace, by dsimp only; omega, ?_,
    fun hlt => ?_⟩
  · have hcount : Nat.count (endsAt chars · = true) (min place (chars.length - 1))
        = Nat.count (endsAt chars · = true) before.flatten.length := by
      refine count_endsAt_eq (by omega) fun k hk hlt => hpiece.inside k hk ?_
      by_cases hafter : after = []
      · have hlast := hlast hafter
        omega
      · have hstop := hstop hafter
        omega
    rw [hcount, hpiece.count, Nat.add_comm]
  · have hafter : after ≠ [] := fun h => by
      have hlast := hlast h
      dsimp only at hlt
      omega
    exact ⟨hstop hafter, hpiece.ends hafter⟩

/-- Counted in characters, a mark stays on one line, or it leaves the source. -/
def OnOneLine (chars : List Char) (start stop : Nat) : Prop :=
  stop ≤ chars.length → ∀ place, start ≤ place → place + 1 < stop → endsAt chars place = false

/-- A mark that stays on one line of the source stays on the one that is shown. -/
theorem stop_le_of_onOneLine (hne : chars ≠ []) (h : OnOneLine chars start stop)
    (hstop : stop ≤ chars.length) : stop ≤ (shown chars start).stop := by
  refine Nat.le_of_not_lt fun hlt => ?_
  obtain ⟨hstart, hends⟩ := (holds_shown hne start).ends (by omega)
  rw [h hstop _ (by omega) (by omega)] at hends
  exact Bool.false_ne_true hends

/-! ### Marks -/

/-- The columns of the characters of a line before a place. -/
def columnsBefore (l : Line) : (place : Nat) → Nat
  | 0 => 0
  | place + 1 => columnsBefore l place + width place l.text[place]?

/-- A row under a line is blank up to a character and not blank under it, unless the character takes
no column. -/
def StartsUnder (l : Line) (place : Nat) (row : List Char) : Prop :=
  ∃ label, row = List.replicate (columnsBefore l place) ' ' ++ label ∧
    (0 < width place l.text[place]? → ∃ c ∈ label.head?, c ≠ ' ')

/-- What is drawn under a character with some columns. -/
def cell (mark : Char × Char) : Nat → List Char
  | 0 => []
  | columns + 1 => mark.1 :: List.replicate columns mark.2

/-- Blanks are drawn for a blank mark. -/
theorem cell_blank (columns : Nat) : cell (' ', ' ') columns = List.replicate columns ' ' := by
  cases columns <;> rfl

/-- A row of marks is made of what is drawn under each character. -/
theorem toList_marks (l : Line) (places : Nat) (mark : Nat → Char × Char) :
    (marks l places mark).toList
      = (List.range places).flatMap fun i => cell (mark i) (width i l.text[i]?) := by
  rw [marks, String.toList_join, List.flatMap_map]
  refine congrArg (fun f => List.flatMap f _) (funext fun i => ?_)
  dsimp only
  cases width i l.text[i]? with
  | zero => rfl
  | succ columns =>
    change ((mark i).1.toString.pushn (mark i).2 columns).toList = _
    rw [Text.toList_pushn, Char.toString_eq_singleton, String.toList_singleton]
    rfl

/-- Blank marks move what comes next under its own column. -/
theorem flatMap_cell_blank (l : Line) {place : Nat} {mark : Nat → Char × Char}
    (h : ∀ i < place, mark i = (' ', ' ')) :
    ((List.range place).flatMap fun i => cell (mark i) (width i l.text[i]?))
      = List.replicate (columnsBefore l place) ' ' := by
  induction place with
  | zero => rfl
  | succ place ih =>
    rw [List.range_succ, List.flatMap_append, ih fun i hi => h i (Nat.lt_succ_of_lt hi),
      List.flatMap_singleton, h place (Nat.lt_succ_self place), cell_blank,
      List.replicate_append_replicate, columnsBefore]

/-- A row of marks that is blank before a place and not blank there. -/
theorem startsUnder_marks {l : Line} {places : Nat} {mark : Nat → Char × Char}
    (hlt : place < places) (hbefore : ∀ i < place, mark i = (' ', ' '))
    (hplace : (mark place).1 ≠ ' ') (below : List Char) :
    StartsUnder l place ((marks l places mark).toList ++ below) := by
  obtain ⟨k, rfl⟩ := Nat.exists_eq_add_of_lt hlt
  rw [toList_marks, Nat.add_assoc, List.range_add, List.flatMap_append,
    flatMap_cell_blank l hbefore, List.append_assoc, List.range_succ_eq_map, List.map_cons,
    Nat.add_zero, List.flatMap_cons, List.append_assoc]
  refine ⟨_, rfl, fun hpos => ⟨(mark place).1, ?_, hplace⟩⟩
  obtain ⟨columns, hcolumns⟩ := Nat.exists_eq_succ_of_ne_zero (Nat.ne_of_gt hpos)
  rw [hcolumns]
  rfl

/-! ### Reading an excerpt -/

/-- What stands before the rows under the first line of an excerpt. -/
def margin (l : Line) : String := "".pushn ' ' ((toString l.number).length + 2) ++ "│"

/-- The first lines of an excerpt: what is wrong, and the line and the column. -/
def opening (d : Diagnostic) (code : String) (l : Line) (place : Nat) : String :=
  header d code ++ "".pushn ' ' ((toString l.number).length + 2) ++ "╭─[ <unknown>:"
    ++ toString l.number ++ ":" ++ toString (place + 1) ++ " ]\n" ++ margin l ++ "\n"

/-- The row with the line of the source. -/
def sourceRow (l : Line) : String := " " ++ toString l.number ++ " │ " ++ drawn l ++ "\n"

/-- What is no digit is not in the digits of a number. -/
theorem not_mem_toDigits {c : Char} (h : c.isDigit = false) (n : Nat) :
    c ∉ Nat.toDigits 10 n := fun hmem => by
  rw [Nat.isDigit_of_mem_toDigits (by decide) (by decide) hmem] at h
  exact Bool.false_ne_true h.symm

/-- The characters of an excerpt from its header on, with the line and the column among them. -/
theorem toList_opening_append (d : Diagnostic) (code : String) (l : Line) (place : Nat)
    (rest : String) : (opening d code l place ++ rest).toList
      = (header d code).toList ++ (List.replicate ((toString l.number).length + 2) ' ' ++ '╭' ::
        ("─[ <unknown>:".toList ++ (Nat.toDigits 10 l.number ++ ':' ::
          (Nat.toDigits 10 (place + 1) ++ ' ' ::
            ("]\n".toList ++ (margin l ++ "\n" ++ rest).toList))))) := by
  have hcorner : "╭─[ <unknown>:".toList = '╭' :: "─[ <unknown>:".toList := by simp
  have hcolon : ":".toList = [':'] := by simp
  have hclose : " ]\n".toList = ' ' :: "]\n".toList := by simp
  simp only [opening, String.toList_append, Text.toList_pushn, Nat.toString_eq_repr,
    Nat.toList_repr, hcorner, hcolon, hclose, List.append_assoc, List.cons_append,
    List.nil_append, String.toList_empty]

/-- The first lines of an excerpt tell the number of the line and the place in it. -/
theorem opening_append_inj {d : Diagnostic} {code rest rest' : String} {l l' : Line}
    {place place' : Nat}
    (h : opening d code l place ++ rest = opening d code l' place' ++ rest') :
    l.number = l'.number ∧ place = place' ∧ rest = rest' := by
  have hlists := congrArg String.toList h
  rw [toList_opening_append, toList_opening_append, List.append_right_inj] at hlists
  have hblank : ∀ n, '╭' ∉ List.replicate n ' ' := fun n hmem =>
    absurd (List.eq_of_mem_replicate hmem) (by decide)
  obtain ⟨_, hnumbered⟩ := Text.append_cons_inj (hblank _) (hblank _) hlists
  obtain ⟨hnumber, hplaced⟩ := Text.append_cons_inj (not_mem_toDigits (by decide) _)
    (not_mem_toDigits (by decide) _) ((List.append_right_inj _).1 hnumbered)
  obtain ⟨hplace, hrest⟩ := Text.append_cons_inj (not_mem_toDigits (by decide) _)
    (not_mem_toDigits (by decide) _) hplaced
  have heq : ∀ {m n : Nat}, Nat.toDigits 10 m = Nat.toDigits 10 n → m = n := fun {m n} h => by
    rw [← Nat.ofDigitChars_ten_toDigits (n := m), h, Nat.ofDigitChars_ten_toDigits]
  have hnumber := heq hnumber
  have hrest := String.toList_inj.1 ((List.append_right_inj _).1 hrest)
  rw [margin, margin, hnumber] at hrest
  exact ⟨hnumber, Nat.succ.inj (heq hplace), (String.append_right_inj _).1 hrest⟩

/-- A report labels a place: it names the line that holds the place and the column in it, shows the
line, and a label starts under the character at the place. -/
def Labels (d : Diagnostic) (code source report : String) (number place : Nat) : Prop :=
  ∃ l below, IsLine source.toList l ∧ l.number = number ∧ l.start ≤ place ∧
    report = opening d code l (place - l.start) ++ (sourceRow l ++ (margin l ++ " " ++ below)) ∧
    StartsUnder l (place - l.start) below.toList

/-- A report of nothing but what is wrong labels nothing. -/
theorem not_labels_header {d : Diagnostic} {code source : String} {number place : Nat} :
    ¬ Labels d code source (header d code) number place := by
  rintro ⟨l, below, _, _, _, hreport, _⟩
  have hlists := congrArg String.toList hreport
  rw [toList_opening_append] at hlists
  have hlength := congrArg List.length hlists
  rw [List.length_append, List.length_append, List.length_cons] at hlength
  omega

/-- A report in which the line is left out labels nothing. -/
theorem not_labels_empty {d : Diagnostic} {code source rest : String} {l : Line}
    {number place place' : Nat} :
    ¬ Labels d code source (opening d code l place' ++ (margin l ++ rest)) number place := by
  rintro ⟨l', below, _, _, _, hreport, _⟩
  obtain ⟨_, _, hrest⟩ := opening_append_inj hreport
  -- After the first blank a margin goes on with a blank, the row of a line with its number.
  obtain ⟨digit, digits, hdigits⟩ := List.exists_cons_of_ne_nil
    (Nat.toDigits_ne_nil (n := l'.number) (b := 10))
  have hdigit : digit ≠ ' ' := fun h => not_mem_toDigits (c := ' ') (by decide) l'.number
    (by rw [hdigits, h]; exact List.mem_cons_self)
  have hspace : " ".toList = [' '] := by simp
  have hlists := congrArg String.toList hrest
  simp only [margin, sourceRow, String.toList_append, Text.toList_pushn, Nat.toString_eq_repr,
    Nat.toList_repr, hdigits, hspace, List.replicate_succ, String.toList_empty,
    List.nil_append, List.cons_append, List.cons.injEq] at hlists
  exact hdigit hlists.2.1.symm

/-- The row under the line of a source, from the first place of a mark on. -/
def underline (first last middle place : Nat) : Char × Char :=
  if place = middle then
    if first ≤ place ∧ place < last then ('┬', '─') else ('│', ' ')
  else if first ≤ place ∧ place < last then ('─', '─')
  else (' ', ' ')

/-- The row with the label, which hangs in the middle of the mark. -/
def hanger (middle place : Nat) : Char × Char :=
  if place < middle then (' ', ' ')
  else if place = middle then ('╰', '─')
  else ('─', '─')

/-- The rows of a marked line: the line, the marks under it, and the label. -/
theorem marked_append (l : Line) (label rest : String) (first last middle : Nat) :
    marked l (toString l.number) (margin l) label first last middle ++ rest
      = sourceRow l ++ (margin l ++ " " ++ (marks l (last + 2) (underline first last middle)
        ++ ("\n" ++ margin l ++ " " ++ marks l (last + 2) (hanger middle) ++ " " ++ label ++ "\n"
          ++ rest))) := by
  have hmarked : marked l (toString l.number) (margin l) label first last middle
      = " " ++ toString l.number ++ " │ " ++ drawn l ++ "\n"
        ++ margin l ++ " " ++ marks l (last + 2) (underline first last middle) ++ "\n"
        ++ margin l ++ " " ++ marks l (last + 2) (hanger middle) ++ " " ++ label ++ "\n" := rfl
  rw [hmarked, sourceRow]
  simp only [String.append_assoc]

/-- The mark is drawn under the characters from its start. -/
theorem startsUnder_underline {l : Line} {first last middle : Nat} (hfirst : first ≤ last)
    (hmiddle : first ≤ middle) (hempty : first = middle ∨ first < last) (below : List Char) :
    StartsUnder l first ((marks l (last + 2) (underline first last middle)).toList ++ below) := by
  refine startsUnder_marks (by omega) (fun i hi => ?_) ?_ below
  · rw [underline, if_neg (by omega), if_neg (by omega)]
  · rw [underline]
    by_cases heq : first = middle
    · rw [if_pos heq]
      split <;> decide
    · rw [if_neg heq, if_pos (by omega)]
      decide

/-- An excerpt below its first lines: the line with its mark, or nothing where the mark reaches past
the line, and then the notes. -/
theorem render_eq_opening {d : Diagnostic} {code source : String} {l : Line}
    (hl : l = shown source.toList start)
    (hin : ¬ (source.toList.length < start ∨ (start < stop ∧ source.toList.length < stop - 1))) :
    render d code source start stop = opening d code l (start - l.start)
      ++ ((if stop ≤ l.stop then
          marked l (toString l.number) (margin l) ((d.element.map (·.trace)).getD "")
            (start - l.start) (stop - l.start)
            (max (start - l.start) ((start + stop) / 2 - l.start))
        else margin l ++ " \n")
        ++ (notesText (margin l) d.notes
          ++ ("".pushn '─' ((toString l.number).length + 2) ++ "╯\n"))) := by
  subst hl
  rw [render, if_neg hin]
  simp only [opening, margin, shown, String.append_assoc]

/-- What an excerpt labels: the line that is shown and the place where the mark starts, if the mark
does not reach past the line. -/
theorem labels_render_iff {d : Diagnostic} {code source : String} {number place : Nat}
    (hne : source.toList ≠ []) (hle : start ≤ stop) :
    Labels d code source (render d code source start stop) number place ↔
      stop ≤ (shown source.toList start).stop ∧ number = (shown source.toList start).number ∧
        place = start := by
  have hholds := holds_shown hne start
  have hinside := hholds.stop_le
  by_cases hout : source.toList.length < start ∨ (start < stop ∧ source.toList.length < stop - 1)
  · rw [render, if_pos hout]
    exact ⟨fun h => absurd h not_labels_header, fun ⟨h, _⟩ => by omega⟩
  generalize hl : shown source.toList start = l at hholds hinside ⊢
  have hstart := hholds.start_le
  rw [render_eq_opening hl.symm hout]
  by_cases hstop : stop ≤ l.stop
  · rw [if_pos hstop]
    constructor
    · rintro ⟨l', below, hline, rfl, hstart', hreport, _⟩
      obtain ⟨hnumber, hplace, _⟩ := opening_append_inj hreport
      obtain rfl := hholds.isLine.ext hline hnumber
      exact ⟨hstop, rfl, by omega⟩
    · rintro ⟨_, rfl, rfl⟩
      rw [marked_append]
      refine ⟨l, _, hholds.isLine, rfl, hstart, rfl, ?_⟩
      rw [String.toList_append]
      exact startsUnder_underline (by omega) (by omega) (by omega) _
  · rw [if_neg hstop, String.append_assoc]
    exact ⟨fun h => absurd h not_labels_empty, fun h => absurd h.1 hstop⟩

end Excerpt

end Wiring
