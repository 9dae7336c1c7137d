import Wiring.Layout.Printer

/-!
# What a document is printed as

A printer only adds to what it has written, so a text that stands in a document stands in whatever
the document is printed as, at any indentation and however its groups break. Texts that follow each
other in a document with nothing between them are printed as one.
-/

namespace Wiring

namespace Text

/-- A text stands somewhere in another one. -/
def Contains (whole part : String) : Prop := ∃ before after, whole = before ++ part ++ after

/-- A text stays where it is when others are put around it. -/
theorem Contains.append {whole part : String} (h : Contains whole part) (left right : String) :
    Contains (left ++ whole ++ right) part := by
  obtain ⟨before, after, rfl⟩ := h
  exact ⟨left ++ before, after ++ right, by simp only [String.append_assoc]⟩

/-- Texts one after the other. -/
def joined : List String → String
  | [] => ""
  | s :: ss => s ++ joined ss

/-- Characters are pushed behind what is there. -/
theorem pushn_eq_append (s : String) (c : Char) (n : Nat) : s.pushn c n = s ++ "".pushn c n := by
  rw [String.pushn_eq_repeat_push, String.pushn_eq_repeat_push]
  induction n with
  | zero => exact String.append_empty.symm
  | succ n ih => rw [Nat.repeat, Nat.repeat, ih, String.push_eq_append, String.push_eq_append,
      String.append_assoc]

end Text

namespace Doc

namespace Page.Ink

/-- A state of printing in which something was added. -/
def Extends (ink ink' : Page.Ink) : Prop := ∃ more, ink'.written = ink.written ++ more

/-- Nothing need be added. -/
theorem Extends.refl (ink : Page.Ink) : ink.Extends ink := ⟨"", String.append_empty.symm⟩

/-- What is added later comes behind what was added first. -/
theorem Extends.trans {ink ink' ink'' : Page.Ink} (h : ink.Extends ink')
    (h' : ink'.Extends ink'') : ink.Extends ink'' := by
  obtain ⟨more, hmore⟩ := h
  obtain ⟨more', hmore'⟩ := h'
  exact ⟨more ++ more', by rw [hmore', hmore, String.append_assoc]⟩

/-- The empty text changes nothing. -/
theorem put_empty (ink : Page.Ink) : ink.put "" = ink := rfl

/-- Before a text goes the indentation that is due, which then is due no longer. -/
theorem written_put (ink : Page.Ink) {s : String} (hs : s ≠ "") :
    (ink.put s).due = none ∧
      ∃ blank, (ink.put s).written = ink.written ++ blank ++ s ∧ (ink.due = none → blank = "") := by
  have hempty : ¬ s.isEmpty = true := fun h => hs (String.isEmpty_iff.1 h)
  rw [put, if_neg hempty]
  refine ⟨rfl, ?_⟩
  cases hdue : ink.due with
  | none => exact ⟨"", by rw [String.append_empty], fun _ => rfl⟩
  | some n =>
    refine ⟨"".pushn ' ' n, ?_, fun h => by cases h⟩
    dsimp only
    rw [Text.pushn_eq_append]

/-- Writing a text adds to what is written. -/
theorem extends_put (ink : Page.Ink) (s : String) : ink.Extends (ink.put s) := by
  by_cases hs : s = ""
  · rw [hs, put_empty]
    exact .refl ink
  · obtain ⟨_, blank, hwritten, _⟩ := ink.written_put hs
    exact ⟨blank ++ s, by rw [hwritten, String.append_assoc]⟩

/-- Starting a line adds to what is written. -/
theorem extends_newline (ink : Page.Ink) (indentation : Nat) :
    ink.Extends (ink.newline indentation) :=
  ⟨String.singleton '\n', by rw [newline, String.push_eq_append]⟩

end Page.Ink

variable {page : Page} {d : Doc} {ds : List Doc} {s : String}

mutual

/-- Writing a document adds to what is written. -/
theorem extends_write (page : Page) (indentation : Nat) (mode : Mode) :
    ∀ (d : Doc) (ink : Page.Ink), ink.Extends (d.write page indentation mode ink)
  | empty, ink => .refl ink
  | text s, ink => ink.extends_put s
  | space, ink => by
    cases mode with
    | flat => exact ink.extends_put " "
    | broken => exact ink.extends_newline indentation
  | softLine, ink => by
    cases mode with
    | flat => exact .refl ink
    | broken => exact ink.extends_newline indentation
  | hardLine, ink => ink.extends_newline indentation
  | indent d, ink => extends_write page (page.deepen indentation) mode d ink
  | group d, ink => extends_write page indentation (page.modeAt ink.column d) d ink
  | concat ds, ink => extends_writeAll page indentation mode ds ink

/-- Writing several documents adds to what is written. -/
theorem extends_writeAll (page : Page) (indentation : Nat) (mode : Mode) :
    ∀ (ds : List Doc) (ink : Page.Ink), ink.Extends (writeAll page indentation mode ds ink)
  | [], ink => .refl ink
  | d :: ds, ink =>
    (extends_write page indentation mode d ink).trans (extends_writeAll page indentation mode ds _)

end

/-- Documents are written in two parts as they are at once. -/
theorem writeAll_append (page : Page) (indentation : Nat) (mode : Mode) (more : List Doc) :
    ∀ (ds : List Doc) (ink : Page.Ink), writeAll page indentation mode (ds ++ more) ink
      = writeAll page indentation mode more (writeAll page indentation mode ds ink) := by
  intro ds
  induction ds with
  | nil =>
    intro ink
    rfl
  | cons d ds ih =>
    intro ink
    rw [List.cons_append, writeAll, writeAll, ih]

/-- Texts one after the other are printed as one, with what indentation is due before it. -/
theorem written_texts (page : Page) (indentation : Nat) (mode : Mode) :
    ∀ (ss : List String) (ink : Page.Ink), ∃ blank,
      (writeAll page indentation mode (ss.map text) ink).written
        = ink.written ++ blank ++ Text.joined ss ∧ (ink.due = none → blank = "") := by
  intro ss
  induction ss with
  | nil =>
    intro ink
    refine ⟨"", ?_, fun _ => rfl⟩
    rw [Text.joined, String.append_empty, String.append_empty]
    rfl
  | cons s ss ih =>
    intro ink
    rw [List.map_cons, writeAll, write, Text.joined]
    obtain ⟨blank, hwritten, hblank⟩ := ih (ink.put s)
    by_cases hs : s = ""
    · rw [hs, Page.Ink.put_empty] at hwritten hblank ⊢
      exact ⟨blank, by rw [hwritten, String.empty_append], hblank⟩
    · obtain ⟨hdue, blank', hput, hblank'⟩ := ink.written_put hs
      refine ⟨blank', ?_, hblank'⟩
      rw [hwritten, hput, hblank hdue, String.append_empty, String.append_assoc]

/-- A text stands in whatever a document is printed as. -/
def Shows (d : Doc) (s : String) : Prop :=
  ∀ (page : Page) (indentation : Nat) (mode : Mode) (ink : Page.Ink),
    ∃ before after,
      (d.write page indentation mode ink).written = ink.written ++ before ++ s ++ after

/-- What texts that follow each other amount to is shown. -/
theorem shows_texts {ss : List String} {before after : List Doc}
    (h : ds = before ++ ss.map text ++ after) : (concat ds).Shows (Text.joined ss) := by
  intro page indentation mode ink
  rw [write, h, writeAll_append, writeAll_append]
  obtain ⟨left, hleft⟩ := extends_writeAll page indentation mode before ink
  obtain ⟨blank, hmiddle, _⟩ := written_texts page indentation mode ss
    (writeAll page indentation mode before ink)
  obtain ⟨right, hright⟩ := extends_writeAll page indentation mode after
    (writeAll page indentation mode (ss.map text) (writeAll page indentation mode before ink))
  refine ⟨left ++ blank, right, ?_⟩
  rw [hright, hmiddle, hleft]
  simp only [String.append_assoc]

/-- A text is shown by the document that is that text. -/
theorem shows_text (s : String) : (text s).Shows s := by
  intro page indentation mode ink
  by_cases hs : s = ""
  · obtain ⟨more, hmore⟩ := extends_write page indentation mode (text s) ink
    exact ⟨"", more, by rw [hmore, hs, String.append_empty, String.append_empty]⟩
  · obtain ⟨_, blank, hwritten, _⟩ := ink.written_put hs
    exact ⟨blank, "", by rw [write, hwritten, String.append_empty]⟩

/-- What begins a text that is shown is shown. -/
theorem Shows.of_append {rest : String} (h : d.Shows (s ++ rest)) : d.Shows s := by
  intro page indentation mode ink
  obtain ⟨before, after, hwritten⟩ := h page indentation mode ink
  exact ⟨before, rest ++ after, by rw [hwritten]; simp only [String.append_assoc]⟩

/-- An indented document shows what the document shows. -/
theorem Shows.indent (h : d.Shows s) : (indent d).Shows s :=
  fun page indentation mode ink => h page (page.deepen indentation) mode ink

/-- What a document shows is shown by documents one after the other that it is among. -/
theorem Shows.concat (h : d.Shows s) (hd : d ∈ ds) : (concat ds).Shows s := by
  intro page indentation mode ink
  obtain ⟨before, after, rfl⟩ := List.append_of_mem hd
  rw [write, writeAll_append, writeAll]
  obtain ⟨left, hleft⟩ := extends_writeAll page indentation mode before ink
  obtain ⟨inner, outer, hmiddle⟩ := h page indentation mode
    (writeAll page indentation mode before ink)
  obtain ⟨right, hright⟩ := extends_writeAll page indentation mode after
    (d.write page indentation mode (writeAll page indentation mode before ink))
  refine ⟨left ++ inner, outer ++ right, ?_⟩
  rw [hright, hmiddle, hleft]
  simp only [String.append_assoc]

/-- What a document shows stands in its text. -/
theorem Shows.contains_render (h : d.Shows s) : Text.Contains (d.render page) s := by
  obtain ⟨before, after, hwritten⟩ := h page 0 .broken {}
  have hcontains : Text.Contains (d.write page 0 .broken {}).written s :=
    ⟨_, after, hwritten⟩
  rw [render, endLine]
  split
  · exact hcontains
  · have hline := hcontains.append "" (String.singleton '\n')
    rwa [String.empty_append, ← String.push_eq_append] at hline

section Composed

variable {body : Doc} {items : List Doc} {opening closing : String}

/-- A group shows what the document in it shows. -/
theorem Shows.group (h : d.Shows s) : (group d).Shows s :=
  fun page indentation _ ink => h page indentation (page.modeAt ink.column d) ink

/-- An item is still there behind its comma. -/
theorem mem_separated (h : d ∈ items) : d ∈ separated items := by
  induction items with
  | nil => exact absurd h List.not_mem_nil
  | cons item items ih =>
    rw [separated]
    rcases List.mem_cons.1 h with rfl | h
    · exact List.mem_cons_of_mem _ (List.mem_cons_of_mem _ (List.mem_cons_self ..))
    · exact List.mem_cons_of_mem _ (List.mem_cons_of_mem _ (List.mem_cons_of_mem _ (ih h)))

/-- What an item shows is shown by the delimited items. -/
theorem Shows.delimited (h : d.Shows s) (hd : d ∈ items) :
    (delimited opening items closing).Shows s := by
  cases items with
  | nil => exact absurd hd List.not_mem_nil
  | cons item items =>
    have hmem : d ∈ softLine :: item :: separated items := by
      rcases List.mem_cons.1 hd with rfl | hd
      · exact List.mem_cons_of_mem _ (List.mem_cons_self ..)
      · exact List.mem_cons_of_mem _ (List.mem_cons_of_mem _ (mem_separated hd))
    have hinside : (Doc.concat
        [.indent (.concat (softLine :: item :: separated items)), softLine]).Shows s :=
      (h.concat hmem).indent.concat (List.mem_cons_self ..)
    exact hinside.group.concat (List.mem_cons_of_mem _ (List.mem_cons_self ..))

/-- What its body shows is shown by a block. -/
theorem Shows.block (h : body.Shows s) : (block opening body).Shows s := by
  have hbody : (Doc.concat [hardLine, body]).Shows s :=
    h.concat (List.mem_cons_of_mem _ (List.mem_cons_self ..))
  exact hbody.indent.concat (List.mem_cons_of_mem _ (List.mem_cons_self ..))

/-- A block shows the text that opens it. -/
theorem shows_block (opening : String) (body : Doc) : (block opening body).Shows opening :=
  (shows_text opening).concat (List.mem_cons_self ..)

/-- The text of a block begins with what opens it. -/
theorem exists_render_block (page : Page) (opening : String) (body : Doc) :
    ∃ more, (block opening body).render page = opening ++ more := by
  have hput : (({} : Page.Ink).put opening).written = opening := by
    by_cases h : opening = ""
    · rw [h, Page.Ink.put_empty]
    · obtain ⟨_, blank, hwritten, hblank⟩ := ({} : Page.Ink).written_put h
      rw [hwritten, hblank rfl]
      exact (String.empty_append ..).trans (String.empty_append ..)
  obtain ⟨more, hmore⟩ := extends_writeAll page 0 .broken
    [indent (concat [hardLine, body]), hardLine, text "\x7d"] (({} : Page.Ink).put opening)
  rw [hput] at hmore
  have hwrite : ((block opening body).write page 0 .broken {}).written = opening ++ more := hmore
  rw [render, hwrite, endLine]
  split
  · exact ⟨more, rfl⟩
  · refine ⟨more.push '\n', ?_⟩
    rw [String.push_eq_append, String.push_eq_append, String.append_assoc]

end Composed

end Doc

end Wiring
