import Wiring.Proofs.Json.Lexemes

/-!
# Values read again

A value written on one line is read again as it was: brackets, commas and colons tell the reader how
to put it together, and there are no more of them open at a time than the reader can bear.
-/

namespace Wiring.Json

mutual

/-- Whether a value has a text of its own: it was read to its end and without complaint, and the
numbers in it are whole ones of 32 bits. -/
def isPlain : Json → Bool
  | null | bool _ | string _ => true
  | integer i => decide (0 ≤ i ∧ i < 4294967296)
  | array items => allPlain items
  | object fields => allPlainFields fields
  | _ => false

/-- Whether all items of an array are plain. -/
def allPlain : List Json → Bool
  | [] => true
  | item :: items => item.isPlain && allPlain items

/-- Whether all fields of an object have plain values. -/
def allPlainFields : List (String × Json) → Bool
  | [] => true
  | (_, value) :: fields => value.isPlain && allPlainFields fields

end

mutual

/-- How many brackets are open at the innermost place of a value. -/
def nesting : Json → Nat
  | array items => nestingItems items + 1
  | object fields => nestingFields fields + 1
  | _ => 0

/-- How many brackets are open at the innermost place of items. -/
def nestingItems : List Json → Nat
  | [] => 0
  | item :: items => max item.nesting (nestingItems items)

/-- How many brackets are open at the innermost place of fields. -/
def nestingFields : List (String × Json) → Nat
  | [] => 0
  | (_, value) :: fields => max value.nesting (nestingFields fields)

end

/-- The characters of a value's text. -/
def chars (j : Json) : List Char := j.compact.toList

variable {j : Json} {items : List Json} {fields : List (String × Json)} {fuel depth : Nat}
  {cs rest : List Char}

/-- A text begins with something else than a blank or a closing bracket. -/
def Opens (cs : List Char) : Prop :=
  ∃ ch rest, cs = ch :: rest ∧ isLayout ch = false ∧ ch ≠ ']' ∧ ch ≠ '\x7d'

/-- What comes later does not change how a text opens. -/
theorem Opens.append (h : Opens cs) (more : List Char) : Opens (cs ++ more) := by
  obtain ⟨ch, rest, rfl, hch⟩ := h
  exact ⟨ch, rest ++ more, rfl, hch⟩

/-- There is no layout to drop in front of a text that opens. -/
theorem Opens.dropLayout (h : Opens cs) : dropLayout cs = cs := by
  obtain ⟨ch, rest, rfl, hlayout, _⟩ := h
  rw [Json.dropLayout, List.dropWhile_cons, hlayout]
  rfl

/-- A whole number is written as its digits. -/
theorem chars_integer (n : Nat) : chars (.integer n) = Nat.toDigits 10 n := by
  rw [chars, compact]
  exact Nat.toList_repr

/-- A plain whole number is a natural one of 32 bits. -/
theorem exists_nat_of_isPlain {i : Int} (h : (integer i).isPlain = true) :
    ∃ n : Nat, i = n ∧ n < 4294967296 := by
  rw [isPlain, decide_eq_true_eq] at h
  obtain ⟨n, rfl⟩ := Int.eq_ofNat_of_zero_le h.1
  exact ⟨n, rfl, by omega⟩

/-- A quoted string is its escaped characters between two quotes. -/
theorem toList_quote (s : String) :
    (quote s).toList = '"' :: (s.toList.flatMap escapeChar ++ ['"']) := by
  rw [quote, String.toList_ofList]

/-- The written null is read as null. -/
theorem value_null : value (fuel + 1) depth (chars .null ++ cs) = (.null, some cs) := rfl

/-- A written truth value is read as itself. -/
theorem value_bool (b : Bool) :
    value (fuel + 1) depth (chars (.bool b) ++ cs) = (.bool b, some cs) := by
  cases b <;> rfl

/-- A quoted string is read as the string. -/
theorem value_quote (s : String) :
    value (fuel + 1) depth ((quote s).toList ++ cs) = (.string s, some cs) := by
  rw [toList_quote, List.cons_append, List.append_assoc]
  exact stringValue_quote s cs

/-- Two brackets are read as the empty array. -/
theorem value_array_nil : value (fuel + 1) depth ('[' :: ']' :: cs)
    = (atDepth (depth + 1) (.array []), some cs) := rfl

/-- An opening bracket with something else behind it than its like is read with the items that
follow. -/
theorem value_array (h : Opens cs) : value (fuel + 1) depth ('[' :: cs)
    = (atDepth (depth + 1) (.array (arrayItems fuel (depth + 1) cs).1),
      (arrayItems fuel (depth + 1) cs).2) := by
  have hbracket : dropLayout ('[' :: cs) = '[' :: cs := rfl
  rw [value.eq_def]
  dsimp only
  rw [hbracket]
  dsimp only
  rw [if_neg (by decide), if_neg (by decide), if_neg (by decide), if_neg (by decide),
    if_neg (by decide), if_neg (by decide), if_pos rfl, h.dropLayout]
  obtain ⟨ch, rest, rfl, _, hclose, _⟩ := h
  split
  · next hcs => exact absurd (List.cons.inj hcs).1 hclose
  · rfl

/-- Two braces are read as the empty object. -/
theorem value_object_nil : value (fuel + 1) depth ('\x7b' :: '\x7d' :: cs)
    = (atDepth (depth + 1) (.object []), some cs) := rfl

/-- An opening brace with something else behind it than its like is read with the fields that
follow. -/
theorem value_object (h : Opens cs) : value (fuel + 1) depth ('\x7b' :: cs)
    = (atDepth (depth + 1) (.object (objectFields fuel (depth + 1) cs).1),
      (objectFields fuel (depth + 1) cs).2) := by
  have hbrace : dropLayout ('\x7b' :: cs) = '\x7b' :: cs := rfl
  rw [value.eq_def]
  dsimp only
  rw [hbrace]
  dsimp only
  rw [if_neg (by decide), if_neg (by decide), if_neg (by decide), if_neg (by decide),
    if_neg (by decide), if_neg (by decide), if_neg (by decide), if_pos rfl, h.dropLayout]
  obtain ⟨ch, rest, rfl, _, _, hclose⟩ := h
  split
  · next hcs => exact absurd (List.cons.inj hcs).1 hclose
  · rfl

/-- A digit is different from what is none. -/
theorem ne_of_isDigit {ch other : Char} (h : ch.isDigit = true) (hother : other.isDigit = false) :
    ch ≠ other := by
  rintro rfl
  rw [h] at hother
  cases hother

/-- A text that begins with a digit opens. -/
theorem opens_of_isDigit {ch : Char} (h : ch.isDigit = true) (cs : List Char) :
    Opens (ch :: cs) := by
  have hlayout : isLayout ch = false := by
    simp only [isLayout, Bool.or_eq_false_iff, beq_eq_false_iff_ne]
    exact ⟨⟨⟨ne_of_isDigit h (by decide), ne_of_isDigit h (by decide)⟩,
      ne_of_isDigit h (by decide)⟩, ne_of_isDigit h (by decide)⟩
  exact ⟨ch, cs, rfl, hlayout, ne_of_isDigit h (by decide), ne_of_isDigit h (by decide)⟩

/-- No value but a number begins with a digit. -/
theorem value_of_isDigit {ch : Char} (h : ch.isDigit = true) :
    value (fuel + 1) depth (ch :: cs) = number false (ch :: cs) := by
  rw [value.eq_def]
  dsimp only
  rw [(opens_of_isDigit h cs).dropLayout]
  dsimp only
  rw [if_neg (ne_of_isDigit h (by decide)), if_neg (ne_of_isDigit h (by decide)),
    if_neg (ne_of_isDigit h (by decide)), if_neg (ne_of_isDigit h (by decide)),
    if_neg (ne_of_isDigit h (by decide)), if_pos h]

/-- Every number has a first digit. -/
theorem exists_toDigits_eq_cons (n : Nat) :
    ∃ ch cs, Nat.toDigits 10 n = ch :: cs ∧ ch.isDigit = true := by
  obtain ⟨ch, cs, hdigits⟩ := List.exists_cons_of_ne_nil (Nat.toDigits_ne_nil (n := n) (b := 10))
  refine ⟨ch, cs, hdigits, isDigit_of_mem_toDigits (n := n) ch ?_⟩
  rw [hdigits]
  exact List.mem_cons_self ..

/-- The digits of a number of 32 bits are read as the number. -/
theorem value_digits {n : Nat} (h : n < 4294967296) (hcs : Ends cs) :
    value (fuel + 1) depth (Nat.toDigits 10 n ++ cs) = (.integer n, some cs) := by
  obtain ⟨ch, rest, hdigits, hdigit⟩ := exists_toDigits_eq_cons n
  have hnumber := number_toDigits h hcs
  rw [hdigits] at hnumber ⊢
  exact (value_of_isDigit hdigit).trans hnumber

/-- A container that does not lie too deep is not marked. -/
theorem atDepth_of_le (h : depth ≤ depthLimit) : atDepth depth j = j := if_pos h

/-- An item before the closing bracket is the last one. -/
theorem arrayItems_last (h : value fuel depth cs = (j, some (']' :: rest))) :
    arrayItems (fuel + 1) depth cs = ([j], some rest) := by
  rw [arrayItems, h]
  rfl

/-- An item before a comma is followed by further ones. -/
theorem arrayItems_comma (h : value fuel depth cs = (j, some (',' :: rest))) :
    arrayItems (fuel + 1) depth cs
      = (j :: (arrayItems fuel depth rest).1, (arrayItems fuel depth rest).2) := by
  rw [arrayItems, h]
  rfl

/-- A quoted key is read as the name of a field. -/
theorem fieldName_quote (key : String) :
    fieldName (dropLayout ((quote key).toList ++ ':' :: cs)) = (.string key, some (':' :: cs)) := by
  rw [toList_quote, List.cons_append, List.append_assoc]
  exact stringValue_quote key (':' :: cs)

/-- A field before the closing brace is the last one. -/
theorem objectFields_last (key : String) (h : value fuel depth cs = (j, some ('\x7d' :: rest))) :
    objectFields (fuel + 1) depth ((quote key).toList ++ ':' :: cs) = ([(key, j)], some rest) := by
  have hcolon : dropLayout (':' :: cs) = ':' :: cs := rfl
  simp only [objectFields, fieldName_quote, hcolon, h]
  rfl

/-- A field before a comma is followed by further ones. -/
theorem objectFields_comma (key : String) (h : value fuel depth cs = (j, some (',' :: rest))) :
    objectFields (fuel + 1) depth ((quote key).toList ++ ':' :: cs)
      = ((key, j) :: (objectFields fuel depth rest).1, (objectFields fuel depth rest).2) := by
  have hcolon : dropLayout (':' :: cs) = ':' :: cs := rfl
  simp only [objectFields, fieldName_quote, hcolon, h]
  rfl

/-- An array is written as its items between brackets. -/
theorem chars_array (items : List Json) :
    chars (.array items) = '[' :: ((compactItems items).toList ++ [']']) := by
  rw [chars, compact, String.toList_append, String.toList_append]
  rfl

/-- An object is written as its fields between braces. -/
theorem chars_object (fields : List (String × Json)) :
    chars (.object fields) = '\x7b' :: ((compactFields fields).toList ++ ['\x7d']) := by
  rw [chars, compact, String.toList_append, String.toList_append]
  rfl

/-- Between two items a comma is written. -/
theorem toList_compactItems_cons (item next : Json) (items : List Json) :
    (compactItems (item :: next :: items)).toList
      = item.chars ++ ',' :: (compactItems (next :: items)).toList := by
  rw [compactItems, String.toList_append, String.toList_append, List.append_assoc]
  · rfl
  · exact fun h => absurd h (List.cons_ne_nil _ _)

/-- A field is written as its quoted key, a colon and its value. -/
theorem toList_compactFields_singleton (key : String) (j : Json) :
    (compactFields [(key, j)]).toList = (quote key).toList ++ ':' :: j.chars := by
  rw [compactFields, String.toList_append, String.toList_append, List.append_assoc]
  rfl

/-- Between two fields a comma is written. -/
theorem toList_compactFields_cons (key : String) (j : Json) (next : String × Json)
    (fields : List (String × Json)) : (compactFields ((key, j) :: next :: fields)).toList
      = (quote key).toList ++ ':' ::
        (j.chars ++ ',' :: (compactFields (next :: fields)).toList) := by
  rw [compactFields]
  · simp only [String.toList_append, List.append_assoc]
    rfl
  · exact fun h => absurd h (List.cons_ne_nil _ _)

/-- The text of a plain value begins with a character of its own. -/
theorem opens_chars (h : j.isPlain = true) : Opens j.chars := by
  cases j with
  | null => exact ⟨'n', _, rfl, by decide⟩
  | bool b =>
    cases b with
    | true => exact ⟨'t', _, rfl, by decide⟩
    | false => exact ⟨'f', _, rfl, by decide⟩
  | string s =>
    rw [chars, compact, toList_quote]
    exact ⟨'"', _, rfl, by decide⟩
  | array items =>
    rw [chars_array]
    exact ⟨'[', _, rfl, by decide⟩
  | object fields =>
    rw [chars_object]
    exact ⟨'\x7b', _, rfl, by decide⟩
  | integer i =>
    obtain ⟨n, rfl, _⟩ := exists_nat_of_isPlain h
    obtain ⟨ch, cs, hdigits, hdigit⟩ := exists_toDigits_eq_cons n
    rw [chars_integer, hdigits]
    exact opens_of_isDigit hdigit cs
  | real => cases h
  | refused => cases h
  | nameless => cases h
  | broken => cases h

/-- The text of plain items opens. -/
theorem opens_compactItems (hne : items ≠ []) (h : allPlain items = true) :
    Opens (compactItems items).toList := by
  obtain ⟨item, items, rfl⟩ := List.exists_cons_of_ne_nil hne
  rw [allPlain, Bool.and_eq_true] at h
  cases items with
  | nil => exact opens_chars h.1
  | cons next items =>
    rw [toList_compactItems_cons]
    exact (opens_chars h.1).append _

/-- The text of fields opens. -/
theorem opens_compactFields (hne : fields ≠ []) : Opens (compactFields fields).toList := by
  obtain ⟨⟨key, j⟩, fields, rfl⟩ := List.exists_cons_of_ne_nil hne
  cases fields with
  | nil =>
    rw [toList_compactFields_singleton, toList_quote]
    exact ⟨'"', _, rfl, by decide⟩
  | cons next fields =>
    rw [toList_compactFields_cons, toList_quote]
    exact ⟨'"', _, rfl, by decide⟩

mutual

/-- A plain value is read as it was written, up to where its text ends. -/
theorem value_chars : ∀ (j : Json) (fuel depth : Nat) (cs : List Char), j.isPlain = true →
    depth + j.nesting ≤ depthLimit → j.chars.length ≤ fuel → Ends cs →
      value fuel depth (j.chars ++ cs) = (j, some cs)
  | j, 0, depth, cs => by
    intro hplain _ hfuel _
    -- A plain value has a first character, so there is fuel for it.
    obtain ⟨ch, rest, hchars, _⟩ := opens_chars hplain
    rw [hchars, List.length_cons] at hfuel
    omega
  | .null, fuel + 1, depth, cs => fun _ _ _ _ => value_null
  | .bool b, fuel + 1, depth, cs => fun _ _ _ _ => value_bool b
  | .string s, fuel + 1, depth, cs => fun _ _ _ _ => value_quote s
  | .integer i, fuel + 1, depth, cs => by
    intro hplain _ _ hcs
    obtain ⟨n, rfl, hn⟩ := exists_nat_of_isPlain hplain
    rw [chars_integer]
    exact value_digits hn hcs
  | .array [], fuel + 1, depth, cs => by
    intro _ hdepth _ _
    have hmark : atDepth (depth + 1) (.array []) = .array [] := atDepth_of_le hdepth
    exact value_array_nil.trans (congrArg (·, some cs) hmark)
  | .array (item :: items), fuel + 1, depth, cs => by
    intro hplain hdepth hfuel _
    rw [isPlain] at hplain
    rw [nesting] at hdepth
    rw [chars_array, List.length_cons, List.length_append, List.length_singleton] at hfuel
    have hopens := (opens_compactItems (List.cons_ne_nil _ _) hplain).append (']' :: cs)
    have hitems := arrayItems_chars item items fuel (depth + 1) cs hplain (by omega) (by omega)
    rw [chars_array, List.cons_append, List.append_assoc, List.singleton_append,
      value_array hopens, hitems, atDepth_of_le (by omega)]
  | .object [], fuel + 1, depth, cs => by
    intro _ hdepth _ _
    have hmark : atDepth (depth + 1) (.object []) = .object [] := atDepth_of_le hdepth
    exact value_object_nil.trans (congrArg (·, some cs) hmark)
  | .object ((key, j) :: fields), fuel + 1, depth, cs => by
    intro hplain hdepth hfuel _
    rw [isPlain] at hplain
    rw [nesting] at hdepth
    rw [chars_object, List.length_cons, List.length_append, List.length_singleton] at hfuel
    have hopens := (opens_compactFields (List.cons_ne_nil (key, j) fields)).append ('\x7d' :: cs)
    have hfields := objectFields_chars key j fields fuel (depth + 1) cs hplain (by omega) (by omega)
    rw [chars_object, List.cons_append, List.append_assoc, List.singleton_append,
      value_object hopens, hfields, atDepth_of_le (by omega)]
  | .real _, _ + 1, _, _ => fun h => nomatch h
  | .refused _, _ + 1, _, _ => fun h => nomatch h
  | .nameless .., _ + 1, _, _ => fun h => nomatch h
  | .broken .., _ + 1, _, _ => fun h => nomatch h

/-- The items of an array are read one after the other up to the closing bracket. -/
theorem arrayItems_chars : ∀ (item : Json) (items : List Json) (fuel depth : Nat) (cs : List Char),
    allPlain (item :: items) = true → depth + nestingItems (item :: items) ≤ depthLimit →
      (compactItems (item :: items)).toList.length + 1 ≤ fuel →
      arrayItems fuel depth ((compactItems (item :: items)).toList ++ ']' :: cs)
        = (item :: items, some cs)
  | _, _, 0, _, _ => fun _ _ hfuel => absurd hfuel (Nat.not_succ_le_zero _)
  | item, [], fuel + 1, depth, cs => by
    intro hplain hdepth hfuel
    rw [allPlain, Bool.and_eq_true] at hplain
    rw [nestingItems] at hdepth
    exact arrayItems_last (value_chars item fuel depth (']' :: cs) hplain.1 (by omega)
      (Nat.le_of_succ_le_succ hfuel) (ends_cons (.inr (.inl rfl)) cs))
  | item, next :: items, fuel + 1, depth, cs => by
    intro hplain hdepth hfuel
    rw [allPlain, Bool.and_eq_true] at hplain
    rw [nestingItems] at hdepth
    rw [toList_compactItems_cons, List.length_append, List.length_cons] at hfuel
    rw [toList_compactItems_cons, List.append_assoc, List.cons_append,
      arrayItems_comma (value_chars item fuel depth _ hplain.1 (by omega) (by omega)
        (ends_cons (.inl rfl) _)),
      arrayItems_chars next items fuel depth cs hplain.2 (by omega) (by omega)]

/-- The fields of an object are read one after the other up to the closing brace. -/
theorem objectFields_chars : ∀ (key : String) (j : Json) (fields : List (String × Json))
    (fuel depth : Nat) (cs : List Char), allPlainFields ((key, j) :: fields) = true →
      depth + nestingFields ((key, j) :: fields) ≤ depthLimit →
      (compactFields ((key, j) :: fields)).toList.length + 1 ≤ fuel →
      objectFields fuel depth ((compactFields ((key, j) :: fields)).toList ++ '\x7d' :: cs)
        = ((key, j) :: fields, some cs)
  | _, _, _, 0, _, _ => fun _ _ hfuel => absurd hfuel (Nat.not_succ_le_zero _)
  | key, j, [], fuel + 1, depth, cs => by
    intro hplain hdepth hfuel
    rw [allPlainFields, Bool.and_eq_true] at hplain
    rw [nestingFields] at hdepth
    rw [toList_compactFields_singleton, List.length_append, List.length_cons] at hfuel
    rw [toList_compactFields_singleton, List.append_assoc, List.cons_append]
    exact objectFields_last key (value_chars j fuel depth ('\x7d' :: cs) hplain.1 (by omega)
      (by omega) (ends_cons (.inr (.inr rfl)) cs))
  | key, j, (key', j') :: fields, fuel + 1, depth, cs => by
    intro hplain hdepth hfuel
    rw [allPlainFields, Bool.and_eq_true] at hplain
    rw [nestingFields] at hdepth
    rw [toList_compactFields_cons, List.length_append, List.length_cons, List.length_append,
      List.length_cons] at hfuel
    rw [toList_compactFields_cons, List.append_assoc, List.cons_append, List.append_assoc,
      List.cons_append, objectFields_comma key (value_chars j fuel depth _ hplain.1 (by omega)
        (by omega) (ends_cons (.inl rfl) _)),
      objectFields_chars key' j' fields fuel depth cs hplain.2 (by omega) (by omega)]

end

/-- The text of a plain value is a document of that value, unless too many brackets are open in
it. -/
theorem read_compact (hplain : j.isPlain = true) (hnesting : j.nesting ≤ depthLimit) :
    read j.compact = ⟨j, false⟩ := by
  have hends : Ends [] := by
    rintro _ ⟨⟩
  have hvalue := value_chars j (2 * j.chars.length + 2) 0 [] hplain (by omega) (by omega) hends
  rw [List.append_nil, chars] at hvalue
  rw [read, hvalue]
  rfl

mutual

/-- A plain value is read through without complaint. -/
theorem readThrough_of_isPlain : ∀ {j : Json}, j.isPlain = true → j.readThrough = .ok ()
  | .null, _ | .bool _, _ | .string _, _ | .integer _, _ => rfl
  | .array _, h => readItems_of_allPlain h
  | .object _, h => readFields_of_allPlainFields h

/-- Plain items are read without complaint. -/
theorem readItems_of_allPlain : ∀ {items : List Json}, allPlain items = true →
    readItems items = .ok ()
  | [], _ => rfl
  | item :: items, h => by
    rw [allPlain, Bool.and_eq_true] at h
    rw [readItems, readThrough_of_isPlain h.1]
    exact readItems_of_allPlain h.2

/-- Fields with plain values are read without complaint. -/
theorem readFields_of_allPlainFields : ∀ {fields : List (String × Json)},
    allPlainFields fields = true → readFields fields = .ok ()
  | [], _ => rfl
  | (_, value) :: fields, h => by
    rw [allPlainFields, Bool.and_eq_true] at h
    rw [readFields, readThrough_of_isPlain h.1]
    exact readFields_of_allPlainFields h.2

end

end Wiring.Json
