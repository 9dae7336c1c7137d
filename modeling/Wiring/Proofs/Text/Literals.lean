import Mathlib.Algebra.Ring.Parity
import Mathlib.Data.List.DropRight
import Wiring.Text.Literal

/-!
# String literals read again

The body of a literal puts a backslash in front of each character that could not stand there by
itself. So a quote or a dollar sign in it has an odd number of backslashes before it, whatever
backslashes the text itself ends a part with. Wherever the literal stands in a source text, what is
read from its opening quote is the text, up to the quote that closes it.
-/

namespace Wiring.Text.Literal

/-- A character that stands for itself in a literal. -/
structure Bare (c : Char) : Prop where
  ne_backslash : c ≠ '\\'
  ne_quote : c ≠ '"'
  ne_dollar : c ≠ '$'
  ne_lineFeed : c ≠ '\n'

/-- What is read behind an opening quote: the text that the characters up to the closing quote stand
for, and what comes after that. No rule goes past a line feed or a dollar sign that is not escaped,
since the one breaks the literal off and the other may start a template. -/
inductive Reads : List Char → List Char → List Char → Prop where
  | closed {rest} : Reads ('"' :: rest) [] rest
  | bare {c source text rest} (hc : Bare c) (h : Reads source text rest) :
      Reads (c :: source) (c :: text) rest
  | escape {e c source text rest} (he : escaped? e = some c) (h : Reads source text rest) :
      Reads ('\\' :: e :: source) (c :: text) rest
  | code {a b d e n c source text rest} (hn : hexNumber? [a, b, d, e] = some n)
      (hc : charOfCode? n = some c) (h : Reads source text rest) :
      Reads ('\\' :: 'u' :: a :: b :: d :: e :: source) (c :: text) rest

/-- A source text begins with a literal that is read as a text, with the rest behind it. Three
quotes would open a literal of another kind. -/
def Begins (source text rest : List Char) : Prop :=
  ∃ behind, source = '"' :: behind ∧ ¬ ['"', '"'] <+: behind ∧ Reads behind text rest

/-- How many backslashes stand at the end of a text. What comes next is escaped when their number is
odd. -/
def closingBackslashes (cs : List Char) : Nat := (cs.rtakeWhile (· == '\\')).length

variable {c e : Char} {s t text text' source rest rest' before after : List Char}

/-! ### What a character is written as -/

/-- A text is encoded one character at a time. -/
theorem encode_cons (c : Char) (s : List Char) : encode (c :: s) = encode [c] ++ encode s := by
  simp only [encode]
  split_ifs <;> rfl

/-- Texts one after the other are encoded one after the other. -/
theorem encode_append (s t : List Char) : encode (s ++ t) = encode s ++ encode t := by
  induction s with
  | nil => rfl
  | cons c s ih => rw [List.cons_append, encode_cons, ih, ← List.append_assoc, ← encode_cons]

/-- A character is written by an escape that stands for it, or as itself when it can stand for
itself. -/
theorem encode_singleton (c : Char) :
    (∃ e, escaped? e = some c ∧ encode [c] = ['\\', e]) ∨ Bare c ∧ encode [c] = [c] := by
  simp only [encode]
  split_ifs with hbackslash hquote hdollar hline
  · subst hbackslash
    exact .inl ⟨'\\', rfl, rfl⟩
  · subst hquote
    exact .inl ⟨'"', rfl, rfl⟩
  · subst hdollar
    exact .inl ⟨'$', rfl, rfl⟩
  · subst hline
    exact .inl ⟨'n', rfl, rfl⟩
  · exact .inr ⟨⟨hbackslash, hquote, hdollar, hline⟩, rfl⟩

/-- No letter of an escape is a line feed. -/
theorem ne_lineFeed_of_escaped (h : escaped? e = some c) : e ≠ '\n' := by
  rintro rfl
  cases h

/-- The escapes of a quote and of a dollar sign are the characters themselves. -/
theorem eq_of_escaped (h : escaped? e = some c) (he : e = '"' ∨ e = '$') : e = c := by
  rcases he with rfl | rfl <;> exact Option.some.inj h

/-! ### The body -/

/-- No line feed stands in a body. -/
theorem lineFeed_not_mem_encode (s : List Char) : '\n' ∉ encode s := by
  induction s with
  | nil => exact List.not_mem_nil
  | cons c s ih =>
    rw [encode_cons, List.mem_append, not_or]
    refine ⟨fun h => ?_, ih⟩
    rcases encode_singleton c with ⟨e, he, hcode⟩ | ⟨hbare, hcode⟩
    · rw [hcode, List.mem_cons, List.mem_singleton] at h
      rcases h with h | h
      · cases h
      · exact ne_lineFeed_of_escaped he h.symm
    · rw [hcode, List.mem_singleton] at h
      exact hbare.ne_lineFeed h.symm

/-- No backslash stands at the end of a text that ends in something else. -/
theorem closingBackslashes_append (s : List Char) {c : Char} (hc : c ≠ '\\') :
    closingBackslashes (s ++ [c]) = 0 := by
  rw [closingBackslashes, List.rtakeWhile_concat_neg (· == '\\') _ _ fun h => hc (beq_iff_eq.1 h),
    List.length_nil]

/-- A backslash at the end is one more of them. -/
theorem closingBackslashes_backslash (s : List Char) :
    closingBackslashes (s ++ ['\\']) = closingBackslashes s + 1 := by
  rw [closingBackslashes, List.rtakeWhile_concat_pos (· == '\\') _ _ BEq.rfl, List.length_append,
    List.length_singleton, closingBackslashes]

/-- A body ends with an even number of backslashes. -/
theorem even_closingBackslashes_encode (s : List Char) : Even (closingBackslashes (encode s)) := by
  induction s using List.reverseRecOn with
  | nil => exact ⟨0, rfl⟩
  | append_singleton s c ih =>
    rw [encode_append]
    rcases encode_singleton c with ⟨e, _, hcode⟩ | ⟨hbare, hcode⟩
    · rw [hcode, List.append_cons]
      by_cases he : e = '\\'
      · rw [he, closingBackslashes_backslash, closingBackslashes_backslash]
        exact ih.add ⟨1, rfl⟩
      · rw [closingBackslashes_append _ he]
        exact ⟨0, rfl⟩
    · rw [hcode, closingBackslashes_append _ hbare.ne_backslash]
      exact ⟨0, rfl⟩

/-- A quote or a dollar sign that is written for one character is that character, behind a
backslash. -/
theorem split_of_encode_singleton_eq {d : Char} (hc : c = '"' ∨ c = '$')
    (h : encode [d] = before ++ c :: after) : c = d ∧ before = ['\\'] := by
  rcases encode_singleton d with ⟨e, he, hcode⟩ | ⟨hbare, hcode⟩
  · rw [hcode] at h
    rcases List.cons_eq_append_iff.1 h with ⟨rfl, hhead⟩ | ⟨behind, rfl, htail⟩
    · have hbackslash := (List.cons.inj hhead).1
      rcases hc with rfl | rfl <;> cases hbackslash
    · rcases List.append_eq_singleton_iff.1 htail.symm with ⟨rfl, hend⟩ | ⟨_, hend⟩
      · obtain ⟨rfl, _⟩ := List.cons.inj hend
        exact ⟨eq_of_escaped he hc, rfl⟩
      · cases hend
  · rw [hcode] at h
    rcases List.append_eq_singleton_iff.1 h.symm with ⟨_, hend⟩ | ⟨_, hend⟩
    · obtain ⟨rfl, _⟩ := List.cons.inj hend
      exact absurd hc (not_or.2 ⟨hbare.ne_quote, hbare.ne_dollar⟩)
    · cases hend

/-- A quote or a dollar sign in a body is one of the text, behind the body of what comes before it
and one backslash. -/
theorem exists_split_of_encode_eq (hc : c = '"' ∨ c = '$') (h : encode s = before ++ c :: after) :
    ∃ first last, s = first ++ c :: last ∧ before = encode first ++ ['\\'] := by
  induction s generalizing before with
  | nil => exact absurd h.symm (List.append_ne_nil_of_right_ne_nil _ (List.cons_ne_nil _ _))
  | cons d s ih =>
    rw [encode_cons] at h
    rcases List.append_eq_append_iff.1 h with ⟨behind, rfl, hs⟩ | ⟨behind, hd, hs⟩
    · obtain ⟨first, last, rfl, rfl⟩ := ih hs
      exact ⟨d :: first, last, rfl, by rw [encode_cons d first, List.append_assoc]⟩
    · cases behind with
      | nil =>
        -- The body of the rest cannot begin with the character, which has a backslash before it.
        have hs : encode s = [] ++ c :: after := hs.symm
        obtain ⟨first, _, _, hnil⟩ := ih hs
        exact absurd hnil.symm (List.append_ne_nil_of_right_ne_nil _ (List.cons_ne_nil _ _))
      | cons b behind =>
        obtain ⟨rfl, _⟩ := List.cons.inj hs
        obtain ⟨rfl, rfl⟩ := split_of_encode_singleton_eq hc hd
        exact ⟨[], s, rfl, rfl⟩

/-- Every quote and every dollar sign in a body is escaped. -/
theorem odd_closingBackslashes (hc : c = '"' ∨ c = '$') (h : encode s = before ++ c :: after) :
    Odd (closingBackslashes before) := by
  obtain ⟨first, _, _, rfl⟩ := exists_split_of_encode_eq hc h
  rw [closingBackslashes_backslash]
  exact (even_closingBackslashes_encode first).add_one

/-- Behind a backslash of the text, a quote has three before it. -/
example : encode ['\\', '"'] = ['\\', '\\', '\\', '"'] := rfl

/-! ### Reading -/

/-- An escape is read as the character it stands for. -/
theorem decode_escape (he : escaped? e = some c) (s : List Char) :
    decode ('\\' :: e :: s) = (decode s).map (c :: ·) := by
  rw [decode.eq_def]
  split
  · next h => cases h
  · next h => cases h
  · next h =>
    obtain ⟨_, h⟩ := List.cons.inj h
    obtain ⟨rfl, _⟩ := List.cons.inj h
    cases he
  · next h =>
    obtain ⟨_, h⟩ := List.cons.inj h
    obtain ⟨rfl, rfl⟩ := List.cons.inj h
    rw [he]
    cases decode s <;> rfl
  · next hnot h =>
    obtain ⟨hhead, htail⟩ := List.cons.inj h
    exact (hnot e s hhead.symm htail.symm).elim

/-- A character that needs no escape is read as itself. -/
theorem decode_bare (hc : Bare c) (s : List Char) : decode (c :: s) = (decode s).map (c :: ·) := by
  rw [decode.eq_def]
  split
  · next h => cases h
  · next h => exact absurd (List.cons.inj h).1 hc.ne_backslash
  · next h => exact absurd (List.cons.inj h).1 hc.ne_backslash
  · next h => exact absurd (List.cons.inj h).1 hc.ne_backslash
  · next h =>
    obtain ⟨rfl, rfl⟩ := List.cons.inj h
    exact if_neg (not_or.2 ⟨hc.ne_quote, not_or.2 ⟨hc.ne_dollar, hc.ne_lineFeed⟩⟩)

/-- A body is read as its text. -/
theorem decode_encode (s : List Char) : decode (encode s) = some s := by
  induction s with
  | nil => rfl
  | cons c s ih =>
    rw [encode_cons]
    rcases encode_singleton c with ⟨e, he, hcode⟩ | ⟨hbare, hcode⟩
    · rw [hcode, List.cons_append, List.singleton_append, decode_escape he, ih, Option.map_some]
    · rw [hcode, List.singleton_append, decode_bare hbare, ih, Option.map_some]

/-- No two texts have one body. -/
theorem encode_injective : Function.Injective encode := fun s t h => by
  rw [← Option.some_inj, ← decode_encode s, ← decode_encode t, h]

/-- The rules leave no choice. -/
theorem Reads.unique (h : Reads source text rest) (h' : Reads source text' rest') :
    text = text' ∧ rest = rest' := by
  induction h generalizing text' with
  | closed =>
    cases h' with
    | closed => exact ⟨rfl, rfl⟩
    | bare hc => exact absurd rfl hc.ne_quote
  | bare hc _ ih =>
    cases h' with
    | closed => exact absurd rfl hc.ne_quote
    | bare _ h' =>
      obtain ⟨rfl, rfl⟩ := ih h'
      exact ⟨rfl, rfl⟩
    | escape | code => exact absurd rfl hc.ne_backslash
  | escape he _ ih =>
    cases h' with
    | bare hc => exact absurd rfl hc.ne_backslash
    | escape he' h' =>
      obtain ⟨rfl, rfl⟩ := ih h'
      rw [he] at he'
      cases he'
      exact ⟨rfl, rfl⟩
    | code => cases he
  | code hn hc _ ih =>
    cases h' with
    | bare hc => exact absurd rfl hc.ne_backslash
    | escape he => cases he
    | code hn' hc' h' =>
      obtain ⟨rfl, rfl⟩ := ih h'
      rw [hn] at hn'
      cases hn'
      rw [hc] at hc'
      cases hc'
      exact ⟨rfl, rfl⟩

/-- A body with a quote behind it is read as its text, up to that quote. -/
theorem reads_encode (s rest : List Char) : Reads (encode s ++ '"' :: rest) s rest := by
  induction s with
  | nil => exact .closed
  | cons c s ih =>
    rw [encode_cons, List.append_assoc]
    rcases encode_singleton c with ⟨e, he, hcode⟩ | ⟨hbare, hcode⟩
    · rw [hcode]
      exact .escape he ih
    · rw [hcode]
      exact .bare hbare ih

/-- A body begins with no quote, so the opening quote is followed by one at most. -/
theorem not_isPrefix_encode (s : List Char) (hrest : rest.head? ≠ some '"') :
    ¬ ['"', '"'] <+: encode s ++ '"' :: rest := by
  rintro ⟨more, h⟩
  cases s with
  | nil =>
    obtain ⟨_, h⟩ := List.cons.inj h
    rw [← h] at hrest
    exact hrest rfl
  | cons c s =>
    rw [encode_cons] at h
    rcases encode_singleton c with ⟨e, he, hcode⟩ | ⟨hbare, hcode⟩
    · rw [hcode] at h
      cases (List.cons.inj h).1
    · rw [hcode] at h
      exact hbare.ne_quote (List.cons.inj h).1.symm

/-- A literal ends where it is closed and stands for its text, and there is no other way to read
it. -/
theorem begins_iff (hrest : rest.head? ≠ some '"') :
    Begins ('"' :: (encode s ++ '"' :: rest)) text rest' ↔ text = s ∧ rest' = rest := by
  constructor
  · rintro ⟨behind, h, _, hreads⟩
    obtain ⟨_, rfl⟩ := List.cons.inj h
    exact hreads.unique (reads_encode s rest)
  · rintro ⟨rfl, rfl⟩
    exact ⟨_, rfl, not_isPrefix_encode _ hrest, reads_encode _ _⟩

end Wiring.Text.Literal
