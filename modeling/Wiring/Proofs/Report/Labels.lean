import Wiring.Proofs.Report.Excerpts
import Wiring.Proofs.Report.Positions

/-!
# Where labels stand

A report for people and a record for tools are given one mark, a range of bytes. A record says where
it lies by bytes; an excerpt takes the two numbers for places of characters, and it has a wider idea
of what ends a line. So the two point at the same place only where counting characters and counting
bytes come to the same: where every character before the mark takes one byte, and only line feeds
end the lines before it.
-/

namespace Wiring.Report

open Excerpt (endsAt shown OnOneLine Labels)
open Position (bytes bytes_eq_flatMap length_bytes lineFeed lineColumn)

variable {d : Diagnostic} {source file : String} {s : Span} {chars : List Char}
variable {line start stop place : Nat}

/-! ### Bytes and characters -/

/-- A source that is not empty has a character. -/
theorem toList_ne_nil (h : source.isEmpty = false) : source.toList ≠ [] := fun hnil => by
  rw [String.toList_eq_nil_iff.1 hnil] at h
  exact absurd h (by decide)

/-- The offset of the byte at which the character at a place starts. -/
def byteOffset (source : String) (place : Nat) : Nat :=
  (String.ofList (source.toList.take place)).utf8ByteSize

/-- There are as many bytes as characters where each character takes one byte. -/
theorem length_flatMap_utf8EncodeChar_eq_iff (chars : List Char) :
    (chars.flatMap String.utf8EncodeChar).length = chars.length ↔ ∀ c ∈ chars, c.utf8Size = 1 := by
  have hle : ∀ cs : List Char, cs.length ≤ (cs.flatMap String.utf8EncodeChar).length := by
    intro cs
    induction cs with
    | nil => exact Nat.le_refl 0
    | cons c cs ih =>
      have hpos := c.utf8Size_pos
      rw [List.flatMap_cons, List.length_append, String.length_utf8EncodeChar, List.length_cons]
      omega
  induction chars with
  | nil => exact ⟨fun _ c hc => absurd hc List.not_mem_nil, fun _ => rfl⟩
  | cons c cs ih =>
    have hpos := c.utf8Size_pos
    have hle := hle cs
    rw [List.flatMap_cons, List.length_append, String.length_utf8EncodeChar, List.length_cons,
      List.forall_mem_cons]
    exact ⟨fun h => ⟨by omega, ih.1 (by omega)⟩, fun ⟨h, hcs⟩ => by rw [h, ih.2 hcs, Nat.add_comm]⟩

/-- A character starts at the byte of its own place exactly if every character before it takes one
byte. -/
theorem byteOffset_eq_iff (hle : place ≤ source.toList.length) :
    byteOffset source place = place ↔ ∀ c ∈ source.toList.take place, c.utf8Size = 1 := by
  rw [← length_flatMap_utf8EncodeChar_eq_iff, List.length_take, Nat.min_eq_left hle, byteOffset,
    ← length_bytes, bytes_eq_flatMap, String.toList_ofList]

/-- Of the characters that take one byte, only a line feed is the byte that ends a line. -/
theorem count_lineFeed_of_narrow {chars : List Char} (h : ∀ c ∈ chars, c.utf8Size = 1) :
    (chars.flatMap String.utf8EncodeChar).count lineFeed = chars.count '\n' := by
  induction chars with
  | nil => rfl
  | cons c cs ih =>
    rw [List.forall_mem_cons] at h
    have hsmall := UInt32.le_iff_toNat_le.1 (Char.utf8Size_eq_one_iff.1 h.1)
    have hbyte : c.val.toUInt8.toNat = c.val.toNat := by
      rw [UInt32.toNat_toUInt8]
      exact Nat.mod_eq_of_lt (Nat.lt_of_le_of_lt hsmall (by decide))
    have hfeed : c.val.toUInt8 = lineFeed ↔ c = '\n' := by
      rw [← UInt8.toNat_inj, hbyte, Char.ext_iff, ← UInt32.toNat_inj]
      rfl
    rw [List.flatMap_cons, String.utf8EncodeChar_eq_singleton h.1, List.singleton_append,
      List.count_cons, ih h.2, List.count_cons]
    simp only [beq_iff_eq, hfeed]

/-- The number of lines before a place, counted in bytes. -/
theorem count_lineFeed_take (h : ∀ c ∈ source.toList.take place, c.utf8Size = 1)
    (hle : place ≤ source.toList.length) :
    ((bytes source).take place).count lineFeed = (source.toList.take place).count '\n' := by
  have hlength : ((source.toList.take place).flatMap String.utf8EncodeChar).length = place := by
    rw [(length_flatMap_utf8EncodeChar_eq_iff _).2 h, List.length_take, Nat.min_eq_left hle]
  have hbytes : bytes source = (source.toList.take place).flatMap String.utf8EncodeChar
      ++ (source.toList.drop place).flatMap String.utf8EncodeChar := by
    rw [← List.flatMap_append, List.take_append_drop, bytes_eq_flatMap]
  rw [hbytes, List.take_left' hlength, count_lineFeed_of_narrow h]

/-! ### Line ends and line feeds -/

/-- A character is among the first ones of a list as often as places before the last of them hold
it. -/
theorem count_take_eq (chars : List Char) (c : Char) : ∀ place,
    (chars.take place).count c = Nat.count (chars[·]? = some c) place := by
  induction chars with
  | nil => exact fun place => by simp
  | cons b chars ih =>
    intro place
    cases place with
    | zero => rfl
    | succ place =>
      rw [List.take_succ_cons, List.count_cons, ih place, Nat.count_succ']
      simp only [List.getElem?_cons_succ, List.getElem?_cons_zero, Option.some.injEq, beq_iff_eq]

/-- Of two properties, the narrower holds as often as the wider exactly when the wider holds only
where the narrower does. -/
theorem count_eq_count_iff {p q : Nat → Prop} [DecidablePred p] [DecidablePred q]
    (hqp : ∀ k, q k → p k) (n : Nat) : Nat.count p n = Nat.count q n ↔ ∀ k < n, p k → q k := by
  induction n with
  | zero => exact ⟨fun _ k hk => absurd hk (Nat.not_lt_zero k), fun _ => rfl⟩
  | succ n ih =>
    have hle : Nat.count q n ≤ Nat.count p n := Nat.count_mono_left fun k _ => hqp k
    rw [Nat.forall_lt_succ_right, Nat.count_succ, Nat.count_succ]
    by_cases hp : p n
    · by_cases hq : q n
      · rw [if_pos hp, if_pos hq, Nat.add_right_cancel_iff, ih]
        exact ⟨fun h => ⟨h, fun _ => hq⟩, fun h => h.1⟩
      · rw [if_pos hp, if_neg hq]
        exact ⟨fun h => by omega, fun h => absurd (h.2 hp) hq⟩
    · rw [if_neg hp, if_neg fun hq => hp (hqp n hq), Nat.add_right_cancel_iff, ih]
      exact ⟨fun h => ⟨h, fun h => absurd h hp⟩, fun h => h.1⟩

/-- Counting characters finds the place that counting bytes finds. -/
structure CountsAlike (chars : List Char) (start stop : Nat) : Prop where
  /-- Counted in characters the mark lies in the source. -/
  inside : stop ≤ chars.length
  /-- Every character before the mark takes one byte. -/
  narrow : ∀ c ∈ chars.take start, c.utf8Size = 1
  /-- Before a mark that starts before the end of the source, only line feeds end lines. -/
  feeds : start < chars.length →
    ∀ place < start, endsAt chars place = true → chars[place]? = some '\n'
  /-- For a mark at the end of the source there are as many line ends before the last character as
  there are line feeds. -/
  atEnd : start = chars.length →
    Nat.count (endsAt chars · = true) (chars.length - 1) = chars.count '\n'

/-- The line that an excerpt shows has the number that counting line feeds gives. -/
theorem number_shown_eq_iff (hne : chars ≠ []) (hle : start ≤ chars.length) :
    (shown chars start).number = (chars.take start).count '\n' + 1 ↔
      (start < chars.length →
        ∀ place < start, endsAt chars place = true → chars[place]? = some '\n') ∧
      (start = chars.length →
        Nat.count (endsAt chars · = true) (chars.length - 1) = chars.count '\n') := by
  have hpos := List.length_pos_iff.2 hne
  rw [(Excerpt.holds_shown hne start).number, Nat.add_right_cancel_iff]
  rcases Nat.lt_or_eq_of_le hle with hlt | rfl
  · rw [Nat.min_eq_left (by omega), count_take_eq,
      count_eq_count_iff fun _ => Excerpt.endsAt_of_lineFeed]
    exact ⟨fun h => ⟨fun _ => h, fun heq => absurd heq (Nat.ne_of_lt hlt)⟩, fun h => h.1 hlt⟩
  · rw [Nat.min_eq_right (by omega), List.take_length]
    exact ⟨fun h => ⟨fun hlt => absurd hlt (Nat.lt_irrefl _), fun _ => h⟩, fun h => h.2 rfl⟩

/-! ### Reports and records -/

/-- A record has one marked place, with its line and the byte at which it starts. -/
def Shows (r : Json) (line start : Nat) : Prop :=
  ∃ fields span, r = .object fields ∧ ("spans", .array [.object span]) ∈ fields ∧
    ("line", .integer line) ∈ span ∧ ("start", .integer start) ∈ span

/-- The report and the record of a diagnostic point at one place: the numbers of the line are the
same, and the label starts at the character that starts at the byte of the record. -/
def PointsAlike (d : Diagnostic) (source file : String) : Prop :=
  ∃ line start place, Shows (record d (some source) file) line start ∧
    Labels d (codeOf d) source (render .plain d (some source) file) line place ∧
    place ≤ source.toList.length ∧ byteOffset source place = start

/-- The fields of a marked place. -/
def spanFields (d : Diagnostic) (source : String) (mark : Nat × Nat) : List (String × Json) :=
  [("column", .integer (lineColumn source mark.1).2), ("end", .integer mark.2),
    ("label", .string (labelOf d)), ("line", .integer (lineColumn source mark.1).1),
    ("start", .integer mark.1)]

/-- The marked place of a record has these fields. -/
theorem spanRecord_eq (d : Diagnostic) (source : String) (mark : Nat × Nat) :
    spanRecord d (source, mark) = .object (spanFields d source mark) := rfl

/-- A record shows the line of its mark and the byte at which the mark starts. -/
theorem shows_record_iff {mark : Nat × Nat} (hmark : markOf d (some source) = some (source, mark)) :
    Shows (record d (some source) file) line start ↔
      line = (lineColumn source mark.1).1 ∧ start = mark.1 := by
  have hline : ("line", .integer line) ∈ spanFields d source mark ↔
      line = (lineColumn source mark.1).1 := by
    simp only [spanFields, List.mem_cons, Prod.mk.injEq, String.reduceEq, Json.integer.injEq,
      Int.natCast_inj, List.not_mem_nil, false_and, false_or, true_and, or_false]
  have hstart : ("start", .integer start) ∈ spanFields d source mark ↔ start = mark.1 := by
    simp only [spanFields, List.mem_cons, Prod.mk.injEq, String.reduceEq, Json.integer.injEq,
      Int.natCast_inj, List.not_mem_nil, false_and, false_or, true_and, or_false]
  rw [Shows, record, hmark, Option.toList_some, List.map_cons, List.map_nil, spanRecord_eq,
    ← hline, ← hstart]
  constructor
  · rintro ⟨fields, span, hfields, hspans, hfound⟩
    cases hfields
    obtain rfl : span = spanFields d source mark := by simpa using hspans
    exact hfound
  · exact fun hfound => ⟨_, _, rfl, by simp, hfound⟩

/-- What a report and a record that point at one place say about the mark. -/
theorem pointsAlike_iff_counted (hsize : source.utf8ByteSize + 1 < UInt32.size)
    (hsource : source.isEmpty = false) (hspan : d.element.bind (·.span) = some s) :
    PointsAlike d source file ↔
      (s.range source.utf8ByteSize).2
        ≤ (shown source.toList (s.range source.utf8ByteSize).1).stop ∧
      CountsAlike source.toList (s.range source.utf8ByteSize).1
        (s.range source.utf8ByteSize).2 := by
  have hmark := markOf_eq hsource hspan
  have hne := toList_ne_nil hsource
  have hle : (s.range source.utf8ByteSize).1 ≤ (s.range source.utf8ByteSize).2 :=
    Span.range_inside.1
  have hend : (s.range source.utf8ByteSize).2 ≤ source.utf8ByteSize := Span.range_inside.2
  generalize s.range source.utf8ByteSize = mark at hmark hle hend ⊢
  have hrender : render .plain d (some source) file
      = Excerpt.render d (codeOf d) source mark.1 mark.2 := by
    rw [render, hmark]
  have hstop := (Excerpt.holds_shown hne mark.1).stop_le
  have hnumbered : Position.Numbered source mark.1 :=
    Position.numbered_of_lt (by omega) (by omega)
  have hline := (Position.denotes_lineColumn (by omega) (by omega) hnumbered).line
  rw [PointsAlike, hrender]
  simp only [shows_record_iff hmark, Excerpt.labels_render_iff hne hle]
  -- The record counts line feeds among bytes, the excerpt counts line ends among characters.
  constructor
  · rintro ⟨_, _, _, ⟨rfl, rfl⟩, ⟨hshown, hnumber, rfl⟩, hplace, hoffset⟩
    have hnarrow := (byteOffset_eq_iff hplace).1 hoffset
    rw [hline, count_lineFeed_take hnarrow hplace] at hnumber
    obtain ⟨hfeeds, hend⟩ := (number_shown_eq_iff hne hplace).1 hnumber.symm
    exact ⟨hshown, Nat.le_trans hshown hstop, hnarrow, hfeeds, hend⟩
  · rintro ⟨hshown, hcounts⟩
    have hplace := Nat.le_trans hle hcounts.inside
    have hnumber := (number_shown_eq_iff hne hplace).2 ⟨hcounts.feeds, hcounts.atEnd⟩
    refine ⟨_, _, mark.1, ⟨rfl, rfl⟩, ⟨hshown, ?_, rfl⟩, hplace,
      (byteOffset_eq_iff hplace).2 hcounts.narrow⟩
    rw [hline, count_lineFeed_take hcounts.narrow hplace, hnumber]

/-- In a source that is short enough for its lines to be counted, report and record of a diagnostic
whose mark, counted in characters, stays on one line or leaves the source, point at one place
exactly when counting characters comes to the same as counting bytes. -/
theorem pointsAlike_iff (hsize : source.utf8ByteSize + 1 < UInt32.size)
    (hsource : source.isEmpty = false)
    (hspan : d.element.bind (·.span) = some s)
    (hline : OnOneLine source.toList (s.range source.utf8ByteSize).1
      (s.range source.utf8ByteSize).2) :
    PointsAlike d source file ↔
      CountsAlike source.toList (s.range source.utf8ByteSize).1
        (s.range source.utf8ByteSize).2 := by
  have hne := toList_ne_nil hsource
  rw [pointsAlike_iff_counted hsize hsource hspan]
  exact ⟨fun h => h.2, fun h => ⟨Excerpt.stop_le_of_onOneLine hne hline h.inside, h⟩⟩

/-- A property without a provider. -/
def missing (start stop : UInt32) : Diagnostic :=
  .errorAt "E0002" "Cannot find an @Inject constructor or provider for: Foo"
    ⟨⟨.member, "MyComponent.foo"⟩, "foo", some ⟨start, stop⟩⟩

/-- A mark without a line end in it is on one line. -/
theorem onOneLine_of_lt {chars : List Char} {start stop : Nat}
    (h : ∀ place < stop, start ≤ place → endsAt chars place = false) :
    OnOneLine chars start stop :=
  fun _ place hle hlt => h place (by omega) hle

/-- Under a comment in plain letters both point at the property. -/
theorem pointsAlike_iff_comment :
    "// e\nval foo: Foo\n".utf8ByteSize + 1 < UInt32.size ∧
    String.isEmpty "// e\nval foo: Foo\n" = false ∧
    (missing 9 12).element.bind (·.span) = some ⟨9, 12⟩ ∧
    OnOneLine "// e\nval foo: Foo\n".toList 9 12 ∧
    PointsAlike (missing 9 12) "// e\nval foo: Foo\n" "Foo.kt" := by
  have hrange : Span.range ⟨9, 12⟩ "// e\nval foo: Foo\n".utf8ByteSize = (9, 12) := by
    decide +kernel
  have hline : OnOneLine "// e\nval foo: Foo\n".toList 9 12 := onOneLine_of_lt (by decide +kernel)
  have hcounts : CountsAlike "// e\nval foo: Foo\n".toList 9 12 :=
    ⟨by decide +kernel, by simp [Char.utf8Size_eq_one_iff], fun _ => by decide +kernel,
      fun h => absurd h (by decide +kernel)⟩
  have hsize : "// e\nval foo: Foo\n".utf8ByteSize + 1 < UInt32.size := by decide +kernel
  refine ⟨hsize, by decide +kernel, rfl, hline,
    (pointsAlike_iff hsize (by decide +kernel) rfl ?_).2 ?_⟩
  · rw [hrange]
    exact hline
  · rw [hrange]
    exact hcounts

/-- Under a comment with an accent the mark of the property lies on one line, counted in bytes and
counted in characters, but the label starts one character too late. -/
theorem not_pointsAlike_accent :
    lineFeed ∉ ((bytes "// é\nval foo: Foo\n").take 13).drop 10 ∧
    OnOneLine "// é\nval foo: Foo\n".toList 10 13 ∧
    ¬ PointsAlike (missing 10 13) "// é\nval foo: Foo\n" "Foo.kt" := by
  have hrange : Span.range ⟨10, 13⟩ "// é\nval foo: Foo\n".utf8ByteSize = (10, 13) := by
    decide +kernel
  refine ⟨by decide +kernel, onOneLine_of_lt (by decide +kernel), fun h => ?_⟩
  have hsize : "// é\nval foo: Foo\n".utf8ByteSize + 1 < UInt32.size := by decide +kernel
  have hcounts := ((pointsAlike_iff_counted (s := ⟨10, 13⟩) hsize (by decide +kernel) rfl).1 h).2
  rw [hrange] at hcounts
  have haccent := hcounts.narrow 'é' (by decide +kernel)
  exact absurd haccent (by decide +kernel)

end Wiring.Report
