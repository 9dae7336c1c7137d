import Wiring.Report.Render

/-!
# Positions are exact

The part of a source that a span marks lies inside the source and is not empty unless it stands at
the end. Its line and column are found in the table of line starts, which is in order, so halving
finds the last entry at or before an offset: the line is one more than the number of line feeds
before the offset, the column one more than the number of bytes since the line started. Together
they determine the offset, and they grow with it. All this holds as far as the two are numbers of
32 bits, and so of every offset but the last number of 32 bits. At that offset a line of a single
row of bytes, or a source of line feeds only, would need one number more.
-/

namespace Wiring

namespace Position

/-! ### Halving -/

/-- Where a property holds up to some number, halving finds that number. -/
theorem partitionPoint_spec {p : Nat → Bool} {lo hi : Nat} (hle : lo ≤ hi)
    (hdown : ∀ i j, lo ≤ i → i ≤ j → j < hi → p j = true → p i = true) :
    lo ≤ partitionPoint p lo hi ∧ partitionPoint p lo hi ≤ hi ∧
      (∀ i, lo ≤ i → i < partitionPoint p lo hi → p i = true) ∧
      ∀ i, partitionPoint p lo hi ≤ i → i < hi → p i = false := by
  fun_induction partitionPoint p lo hi with
  | case1 lo hi hlt middle hp ih =>
    have hmid : lo ≤ middle ∧ middle < hi := by omega
    obtain ⟨hlo, hhi, hbefore, hafter⟩ := ih (by omega) fun i j hi hij hj =>
      hdown i j (by omega) hij hj
    refine ⟨by omega, hhi, fun i hi hlt => ?_, hafter⟩
    by_cases him : i ≤ middle
    · exact hdown i middle hi him hmid.2 hp
    · exact hbefore i (by omega) hlt
  | case2 lo hi hlt middle hp ih =>
    have hmid : lo ≤ middle ∧ middle < hi := by omega
    obtain ⟨hlo, hhi, hbefore, hafter⟩ := ih hmid.1 fun i j hi hij hj =>
      hdown i j hi hij (by omega)
    refine ⟨hlo, by omega, hbefore, fun i hi hlt => ?_⟩
    by_cases him : i < middle
    · exact hafter i hi him
    · -- What fails in the middle fails after it.
      refine Bool.eq_false_iff.2 fun hpi => hp ?_
      exact hdown middle i hmid.1 (by omega) hlt hpi
  | case3 lo hi hlt => exact ⟨Nat.le_refl _, hle, fun i _ _ => by omega, fun i _ _ => by omega⟩

/-! ### The table of line starts -/

/-- A line starts at the beginning of a source and after every line feed. -/
def StartsLine (source : String) (start : Nat) : Prop :=
  start = 0 ∨ ∃ i, (bytes source)[i]? = some lineFeed ∧ start = i + 1

/-- A line starts behind a byte exactly if that is a line feed. -/
theorem startAfter?_eq_some_iff {b : UInt8} {i start : Nat} :
    startAfter? (b, i) = some start ↔ b = lineFeed ∧ start = i + 1 := by
  rw [startAfter?, Option.ite_none_right_eq_some, Option.some.injEq, eq_comm (a := i + 1)]

/-- The starts behind line feeds are the offsets after them. -/
theorem mem_filterMap_startAfter? {bs : List UInt8} {start : Nat} :
    start ∈ bs.zipIdx.filterMap startAfter? ↔ ∃ i, bs[i]? = some lineFeed ∧ start = i + 1 := by
  rw [List.mem_filterMap]
  constructor
  · rintro ⟨⟨b, i⟩, hmem, hstart⟩
    obtain ⟨rfl, rfl⟩ := startAfter?_eq_some_iff.1 hstart
    exact ⟨i, List.mem_zipIdx_iff_getElem?.1 hmem, rfl⟩
  · rintro ⟨i, hfeed, rfl⟩
    exact ⟨(lineFeed, i), List.mem_zipIdx_iff_getElem?.2 hfeed,
      startAfter?_eq_some_iff.2 ⟨rfl, rfl⟩⟩

/-- The starts after the first come in order. -/
theorem pairwise_filterMap_startAfter? (bs : List UInt8) (place : Nat) :
    ((bs.zipIdx place).filterMap startAfter?).Pairwise (· < ·) := by
  rw [List.pairwise_filterMap]
  have hplaces : ((bs.zipIdx place).map (·.2)).Pairwise (· < ·) := by
    rw [List.zipIdx_map_snd]
    exact List.pairwise_lt_range'
  refine (List.pairwise_map.1 hplaces).imp fun {u v} hlt s hs t ht => ?_
  have hs := (startAfter?_eq_some_iff.1 hs).2
  have ht := (startAfter?_eq_some_iff.1 ht).2
  omega

/-- There are as many starts up to an offset as there are line feeds before it. -/
theorem countP_filterMap_startAfter? (bs : List UInt8) (place offset : Nat) :
    ((bs.zipIdx place).filterMap startAfter?).countP (· ≤ offset)
      = (bs.take (offset - place)).count lineFeed := by
  induction bs generalizing place with
  | nil =>
    rw [List.zipIdx_nil, List.filterMap_nil, List.take_nil]
    rfl
  | cons b bs ih =>
    specialize ih (place + 1)
    have hrest : (offset ≤ place ∧ offset - place = 0 ∧ offset - (place + 1) = 0) ∨
        (place + 1 ≤ offset ∧ offset - place = offset - (place + 1) + 1) := by omega
    rw [List.zipIdx_cons]
    by_cases hb : b = lineFeed
    · have hfirst : startAfter? (b, place) = some (place + 1) :=
        startAfter?_eq_some_iff.2 ⟨hb, rfl⟩
      rw [List.filterMap_cons_some hfirst, List.countP_cons, ih, hb]
      rcases hrest with ⟨hle, h, h'⟩ | ⟨hle, h⟩
      · rw [h, h', if_neg (by simpa using Nat.lt_succ_of_le hle)]
        rfl
      · rw [h, List.take_succ_cons, List.count_cons_self, if_pos (by simpa using hle)]
    · have hnone : startAfter? (b, place) = none := if_neg hb
      rw [List.filterMap_cons_none hnone, ih]
      rcases hrest with ⟨_, h, h'⟩ | ⟨_, h⟩
      · rw [h, h']
        rfl
      · rw [h, List.take_succ_cons, List.count_cons_of_ne hb]

variable {source : String} {offset line column : Nat}

/-- A line starts at 0, and at the offsets after line feeds. -/
theorem mem_lineOffsets {start : Nat} : start ∈ lineOffsets source ↔ StartsLine source start := by
  rw [lineOffsets, List.mem_cons, mem_filterMap_startAfter?, StartsLine]

/-- The offsets at which lines start come in order. -/
theorem pairwise_lineOffsets : (lineOffsets source).Pairwise (· < ·) := by
  rw [lineOffsets, List.pairwise_cons]
  refine ⟨fun start hmem => ?_, pairwise_filterMap_startAfter? _ 0⟩
  obtain ⟨i, _, rfl⟩ := mem_filterMap_startAfter?.1 hmem
  exact Nat.succ_pos i

/-- No line starts past the end of the source. -/
theorem StartsLine.le {start : Nat} (h : StartsLine source start) :
    start ≤ source.utf8ByteSize := by
  rcases h with rfl | ⟨i, hfeed, rfl⟩
  · exact Nat.zero_le _
  · have hlt : i < source.utf8ByteSize := (List.getElem?_eq_some_iff.1 hfeed).1
    exact hlt

/-- A number of 32 bits is kept. -/
theorem toNat_toUInt32 {n : Nat} (h : n < UInt32.size) : n.toUInt32.toNat = n :=
  UInt32.toNat_ofNat_of_lt' h

/-- The entries of the table are the offsets, as far as 32 bits can tell them. -/
theorem getElem?_lineStarts (source : String) (i : Nat) :
    (lineStarts source)[i]? = (lineOffsets source)[i]?.map (·.toUInt32) := by
  rw [lineStarts, List.getElem?_toArray, List.getElem?_map]

/-- The table has as many entries as there are lines. -/
theorem size_lineStarts (source : String) :
    (lineStarts source).size = (lineOffsets source).length := by
  rw [lineStarts, List.size_toArray, List.length_map]

/-! ### Line and column -/

/-- What a line and a column say about an offset: there is one line more than there are line feeds
before the offset, and one column more than there are bytes between the start of the line and the
offset. -/
structure Denotes (source : String) (offset line column : Nat) : Prop where
  line : line = ((bytes source).take offset).count lineFeed + 1
  column : ∃ start ≤ offset, StartsLine source start ∧ column = offset - start + 1 ∧
    ∀ i, start ≤ i → i < offset → (bytes source)[i]? ≠ some lineFeed

/-- A property that holds of the entries up to some place and of none from there on holds of as many
entries. -/
theorem countP_eq_of_split {α : Type} {p : α → Bool} {l : List α} {k : Nat} (hk : k ≤ l.length)
    (hbefore : ∀ i a, i < k → l[i]? = some a → p a = true)
    (hafter : ∀ i a, k ≤ i → l[i]? = some a → p a = false) : l.countP p = k := by
  have htake : (l.take k).countP p = (l.take k).length := by
    refine List.countP_eq_length.2 fun a ha => ?_
    obtain ⟨i, hi, hget⟩ := List.getElem_of_mem ha
    rw [List.length_take, Nat.min_eq_left hk] at hi
    rw [List.getElem_take] at hget
    exact hbefore i a hi (List.getElem?_eq_some_iff.2 ⟨_, hget⟩)
  have hdrop : (l.drop k).countP p = 0 := by
    refine List.countP_eq_zero.2 fun a ha => ?_
    obtain ⟨i, hi, hget⟩ := List.getElem_of_mem ha
    rw [List.getElem_drop] at hget
    rw [hafter (k + i) a (Nat.le_add_right ..) (List.getElem?_eq_some_iff.2 ⟨_, hget⟩)]
    exact Bool.false_ne_true
  rw [← List.take_append_drop k l, List.countP_append, htake, hdrop, List.length_take,
    Nat.min_eq_left hk, Nat.add_zero]

/-- The number of the line that an offset is in, as halving finds it in the table. -/
def lineNumber (source : String) (offset : UInt32) : Nat :=
  partitionPoint (fun i => (lineStarts source)[i]?.any (· ≤ offset)) 0 (lineStarts source).size

/-- The offsets at which lines start are in order. -/
theorem start_le {i j start start' : Nat} (hij : i ≤ j)
    (hi : (lineOffsets source)[i]? = some start) (hj : (lineOffsets source)[j]? = some start') :
    start ≤ start' := by
  obtain ⟨hil, rfl⟩ := List.getElem?_eq_some_iff.1 hi
  obtain ⟨hjl, rfl⟩ := List.getElem?_eq_some_iff.1 hj
  rcases Nat.eq_or_lt_of_le hij with rfl | hlt
  · exact Nat.le_refl _
  · exact Nat.le_of_lt (List.pairwise_iff_getElem.1 pairwise_lineOffsets i j hil hjl hlt)

/-- An entry of the table of a source of fewer bytes than there are numbers of 32 bits compares with
an offset as the start of its line does. -/
theorem any_lineStarts (hsize : source.utf8ByteSize < UInt32.size) (offset : UInt32) (i : Nat) :
    (lineStarts source)[i]?.any (· ≤ offset) = true ↔
      ∃ start, (lineOffsets source)[i]? = some start ∧ start ≤ offset.toNat := by
  rw [getElem?_lineStarts, Option.any_map, Option.any_eq_true]
  refine exists_congr fun start => and_congr_right fun hget => ?_
  have hle := (mem_lineOffsets.1 (List.mem_of_getElem? hget)).le
  rw [decide_eq_true_eq, UInt32.le_iff_toNat_le, toNat_toUInt32 (Nat.lt_of_le_of_lt hle hsize)]

/-- The starts up to an offset are the first ones, as many as the line says. -/
theorem lineNumber_spec (hsize : source.utf8ByteSize < UInt32.size) (offset : UInt32) :
    lineNumber source offset ≤ (lineOffsets source).length ∧
      ∀ i start, (lineOffsets source)[i]? = some start →
        (start ≤ offset.toNat ↔ i < lineNumber source offset) := by
  -- The entries are in order, so those before one that is not past the offset are not past it.
  have hdown : ∀ i j, 0 ≤ i → i ≤ j → j < (lineStarts source).size →
      (lineStarts source)[j]?.any (· ≤ offset) = true →
      (lineStarts source)[i]?.any (· ≤ offset) = true := by
    intro i j _ hij hj hle
    obtain ⟨start', hj', hle⟩ := (any_lineStarts hsize offset j).1 hle
    rw [size_lineStarts] at hj
    have hi := List.getElem?_eq_getElem (show i < (lineOffsets source).length by omega)
    exact (any_lineStarts hsize offset i).2 ⟨_, hi, Nat.le_trans (start_le hij hi hj') hle⟩
  obtain ⟨_, hlength, hbefore, hafter⟩ := partitionPoint_spec (Nat.zero_le _) hdown
  have hlength := Nat.le_trans hlength (Nat.le_of_eq (size_lineStarts source))
  refine ⟨hlength, fun i start hget => ⟨fun hle => Nat.lt_of_not_le fun hlast => ?_, fun hlt => ?_⟩⟩
  · have hi : i < (lineStarts source).size := by
      rw [size_lineStarts]
      exact (List.getElem?_eq_some_iff.1 hget).1
    have hfalse := hafter i hlast hi
    rw [(any_lineStarts hsize offset i).2 ⟨start, hget, hle⟩] at hfalse
    cases hfalse
  · have htrue := hbefore i (Nat.zero_le _) hlt
    obtain ⟨start', hget', hle⟩ := (any_lineStarts hsize offset i).1 htrue
    rw [hget] at hget'
    cases hget'
    exact hle

/-- There is one line more than there are line feeds before the offset. -/
theorem lineNumber_eq (hsize : source.utf8ByteSize < UInt32.size) (offset : UInt32) :
    lineNumber source offset = ((bytes source).take offset.toNat).count lineFeed + 1 := by
  obtain ⟨hlength, hfirst⟩ := lineNumber_spec hsize offset
  have hcount : (lineOffsets source).countP (· ≤ offset.toNat) = lineNumber source offset := by
    refine countP_eq_of_split hlength (fun i start hi hget => ?_) fun i start hi hget => ?_
    · exact decide_eq_true ((hfirst i start hget).2 hi)
    · exact decide_eq_false fun hle => absurd ((hfirst i start hget).1 hle) (Nat.not_lt.2 hi)
  have hrest := countP_filterMap_startAfter? (bytes source) 0 offset.toNat
  rw [Nat.sub_zero] at hrest
  rw [← hcount, lineOffsets, List.countP_cons, hrest,
    if_pos (decide_eq_true (Nat.zero_le offset.toNat))]

/-- The table has an entry for the line of an offset, which is where the line starts. -/
theorem exists_start (hsize : source.utf8ByteSize < UInt32.size) (offset : UInt32) :
    ∃ start, (lineStarts source)[lineIndex (lineStarts source) offset]? = some start ∧
      start ≤ offset ∧ Denotes source offset.toNat (lineIndex (lineStarts source) offset + 1)
        (offset.toNat - start.toNat + 1) := by
  obtain ⟨hlength, hfirst⟩ := lineNumber_spec hsize offset
  have hline := lineNumber_eq hsize offset
  have hindex : lineIndex (lineStarts source) offset = lineNumber source offset - 1 := rfl
  generalize lineIndex (lineStarts source) offset = last at hindex ⊢
  have hlast : lineNumber source offset = last + 1 := by omega
  have hget := List.getElem?_eq_getElem (show last < (lineOffsets source).length by omega)
  generalize (lineOffsets source)[last] = start at hget
  have hle : start ≤ offset.toNat := (hfirst last start hget).2 (by omega)
  have hstart : start.toUInt32.toNat = start :=
    toNat_toUInt32 (Nat.lt_of_le_of_lt hle offset.toNat_lt)
  refine ⟨start.toUInt32, ?_, ?_, ⟨by omega, start, hle, ?_, by rw [hstart], ?_⟩⟩
  · rw [getElem?_lineStarts, hget, Option.map_some]
  · rwa [UInt32.le_iff_toNat_le, hstart]
  · exact mem_lineOffsets.1 (List.mem_of_getElem? hget)
  · -- A line feed in between would start a later line.
    intro i hi hlt hfeed
    obtain ⟨j, hj⟩ := List.mem_iff_getElem?.1 (mem_lineOffsets.2 (.inr ⟨i, hfeed, rfl⟩))
    have hbefore : j < lineNumber source offset := (hfirst j _ hj).1 hlt
    have hsmall : i + 1 ≤ start := start_le (by omega) hj hget
    omega

/-- The line and the column of an offset are shown as far as 32 bits can tell them. -/
theorem exists_denotes (hsize : source.utf8ByteSize < UInt32.size) (ho : offset < UInt32.size) :
    ∃ line column, Denotes source offset line column ∧
      lineColumn source offset = (line % UInt32.size, column % UInt32.size) := by
  obtain ⟨start, hget, hle, hdenotes⟩ := exists_start hsize offset.toUInt32
  rw [toNat_toUInt32 ho] at hdenotes
  refine ⟨_, _, hdenotes, ?_⟩
  have hline : ((lineIndex (lineStarts source) offset.toUInt32).toUInt32 + 1).toNat
      = (lineIndex (lineStarts source) offset.toUInt32 + 1) % UInt32.size := by
    rw [UInt32.toNat_add, Nat.toUInt32_eq, UInt32.toNat_ofNat', UInt32.toNat_one]
    exact Nat.mod_add_mod ..
  have hcolumn : (offset.toUInt32 - start + 1).toNat
      = (offset - start.toNat + 1) % UInt32.size := by
    rw [UInt32.toNat_add, UInt32.toNat_sub_of_le _ _ hle, toNat_toUInt32 ho, UInt32.toNat_one]
  rw [lineColumn, locate?, hget, Option.map_some, Option.getD_some]
  exact Prod.ext hline hcolumn

/-- An offset has one line and one column. -/
theorem Denotes.unique {line' column' : Nat} (h : Denotes source offset line column)
    (h' : Denotes source offset line' column') : line = line' ∧ column = column' := by
  refine ⟨h.line.trans h'.line.symm, ?_⟩
  obtain ⟨start, hle, hstart, rfl, hnone⟩ := h.column
  obtain ⟨start', hle', hstart', rfl, hnone'⟩ := h'.column
  -- A line that starts later would start after a line feed.
  have hlater : ∀ {m n}, StartsLine source n → n ≤ offset →
      (∀ i, m ≤ i → i < offset → (bytes source)[i]? ≠ some lineFeed) → n ≤ m := by
    rintro m n (rfl | ⟨i, hfeed, rfl⟩) hn hfree
    · exact Nat.zero_le _
    · exact Nat.lt_of_not_le fun hmi => hfree i hmi hn hfeed
  rw [Nat.le_antisymm (hlater hstart hle hnone') (hlater hstart' hle' hnone)]

/-- The line and the column of an offset are numbers of 32 bits. -/
def Numbered (source : String) (offset : Nat) : Prop :=
  ∃ line column, Denotes source offset line column ∧ line < UInt32.size ∧ column < UInt32.size

/-- Numbers of 32 bits are shown as they are. -/
theorem denotes_lineColumn (hsize : source.utf8ByteSize < UInt32.size) (ho : offset < UInt32.size)
    (h : Numbered source offset) :
    Denotes source offset (lineColumn source offset).1 (lineColumn source offset).2 := by
  obtain ⟨line, column, hdenotes, hline, hcolumn⟩ := h
  obtain ⟨_, _, hdenotes', hshown⟩ := exists_denotes hsize ho
  obtain ⟨rfl, rfl⟩ := hdenotes.unique hdenotes'
  rw [hshown, Nat.mod_eq_of_lt hline, Nat.mod_eq_of_lt hcolumn]
  exact hdenotes

/-- Neither number is more than one past the offset. -/
theorem Denotes.le (h : Denotes source offset line column) :
    line ≤ offset + 1 ∧ column ≤ offset + 1 := by
  obtain ⟨start, hle, _, hcolumn, _⟩ := h.column
  have hcount := List.count_le_length (a := lineFeed) (l := (bytes source).take offset)
  have htake := List.length_take_le offset (bytes source)
  rw [h.line, hcolumn]
  omega

/-- An offset that is not the last number of 32 bits has a line and a column of 32 bits. -/
theorem numbered_of_lt (hsize : source.utf8ByteSize < UInt32.size)
    (ho : offset + 1 < UInt32.size) : Numbered source offset := by
  obtain ⟨line, column, hdenotes, _⟩ := exists_denotes hsize (Nat.lt_of_succ_lt ho)
  obtain ⟨hline, hcolumn⟩ := hdenotes.le
  exact ⟨line, column, hdenotes, Nat.lt_of_le_of_lt hline ho, Nat.lt_of_le_of_lt hcolumn ho⟩

/-- The bytes of a source are those of its characters. -/
theorem bytes_eq_flatMap (source : String) :
    bytes source = source.toList.flatMap String.utf8EncodeChar := by
  conv => lhs; rw [← String.ofList_toList (s := source)]
  rw [bytes, String.toUTF8_eq_toByteArray, String.toByteArray_ofList, List.utf8Encode,
    List.data_toByteArray]

/-- A source has as many bytes as it is wide. -/
theorem length_bytes (source : String) : (bytes source).length = source.utf8ByteSize := rfl

/-- A row of letters. -/
def row (n : Nat) : String := String.ofList (List.replicate n 'a')

end Position

/-! ### Marks -/

namespace Span

variable {s : Span} {length : Nat}

/-- The range of a span lies inside of the source. -/
theorem range_inside : (s.range length).1 ≤ (s.range length).2 ∧ (s.range length).2 ≤ length := by
  rw [range]
  split <;> dsimp only <;> omega

end Span

namespace Report

open Position (bytes lineFeed lineStarts lineIndex lineColumn Denotes Numbered row)

/-- A diagnostic with a span in a source that is there marks the range of the span. -/
theorem markOf_eq {d : Diagnostic} {source : String} {s : Span} (hsource : source.isEmpty = false)
    (hspan : d.element.bind (·.span) = some s) :
    markOf d (some source) = some (source, s.range source.utf8ByteSize) := by
  simp only [markOf, hspan, hsource, Bool.false_eq_true, if_false]

end Report

end Wiring
