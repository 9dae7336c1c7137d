import Mathlib.Tactic.SplitIfs
import Wiring.Json.Reader
import Wiring.Json.Writer

/-!
# Strings and numbers read again

A string between quotes and a number in digits are read back as they were before they were written,
whatever follows the quote, and whatever follows the digits as long as no number goes on with it.
-/

namespace Wiring.Json

/-! ## Strings -/

/-- The two digits that a character below U+0020 is escaped with are read as its code. -/
theorem hexUnit_hexDigit {n : Nat} (h : n < 32) (cs : List Char) :
    hexUnit ('0' :: '0' :: hexDigit (n / 16) :: hexDigit (n % 16) :: cs) = .ok (n, cs) := by
  have hnumber : ∀ n < 32,
      Text.hexNumber? ['0', '0', hexDigit (n / 16), hexDigit (n % 16)] = some n := by
    decide
  rw [hexUnit, hnumber n h]

/-- An escaped character is read in one round. -/
theorem quoted_escapeChar (fuel : Nat) (read : List Char) (c : Char) (cs : List Char) :
    quoted (fuel + 1) read true (escapeChar c ++ cs) = quoted fuel (c :: read) true cs := by
  have hchar : ∀ n, c.toNat = n → Char.ofNat n = c := by
    rintro _ rfl
    exact Char.ofNat_toNat c
  rw [escapeChar]
  split_ifs with hquote hslash hline hreturn htab hback hfeed hcontrol
  · subst hquote
    rfl
  · subst hslash
    rfl
  · subst hline
    rfl
  · subst hreturn
    rfl
  · subst htab
    rfl
  · rw [← hchar 8 hback]
    rfl
  · rw [← hchar 12 hfeed]
    rfl
  · have hbackslash : ('\\' : Char) ≠ '"' := by decide
    have hlow : isLowUnit c.toNat = false := by
      rw [isLowUnit, Bool.and_eq_false_iff]
      exact .inl (decide_eq_false (by omega))
    have hhigh : isHighUnit c.toNat = false := by
      rw [isHighUnit, Bool.and_eq_false_iff]
      exact .inl (decide_eq_false (by omega))
    simp only [List.cons_append, List.nil_append, quoted, if_neg hbackslash, if_true,
      hexUnit_hexDigit hcontrol, hlow, hhigh, Bool.false_eq_true, if_false, Char.ofNat_toNat]
  · rw [List.singleton_append, quoted.eq_def]
    dsimp only
    rw [if_neg hquote, if_neg hslash, if_neg hcontrol]

/-- Escaped characters are read as themselves, up to the closing quote. -/
theorem quoted_flatMap_escapeChar (s cs : List Char) : ∀ (fuel : Nat) (read : List Char),
    s.length < fuel → quoted fuel read true (s.flatMap escapeChar ++ '"' :: cs)
      = .closed (read.reverse ++ s) true cs := by
  induction s with
  | nil =>
    intro fuel read hfuel
    obtain ⟨fuel, rfl⟩ := Nat.exists_eq_succ_of_ne_zero (Nat.ne_of_gt hfuel)
    rw [List.flatMap_nil, List.nil_append, List.append_nil]
    rfl
  | cons c s ih =>
    intro fuel read hfuel
    rw [List.length_cons] at hfuel
    obtain ⟨fuel, rfl⟩ := Nat.exists_eq_succ_of_ne_zero (n := fuel) (by omega)
    rw [List.flatMap_cons, List.append_assoc, quoted_escapeChar, ih fuel _ (by omega),
      List.reverse_cons, List.append_assoc]
    rfl

/-- Every character is escaped to something. -/
theorem escapeChar_ne_nil (c : Char) : escapeChar c ≠ [] := by
  rw [escapeChar]
  split_ifs <;> exact List.cons_ne_nil _ _

/-- Escaping makes no text shorter. -/
theorem length_le_length_flatMap_escapeChar (s : List Char) :
    s.length ≤ (s.flatMap escapeChar).length := by
  induction s with
  | nil => exact Nat.le_refl 0
  | cons c s ih =>
    have hpos := List.length_pos_iff.2 (escapeChar_ne_nil c)
    rw [List.flatMap_cons, List.length_append, List.length_cons]
    omega

/-- A quoted string is read as the string. -/
theorem stringValue_quote (s : String) (cs : List Char) :
    stringValue (s.toList.flatMap escapeChar ++ '"' :: cs) = (.string s, some cs) := by
  have hlength := length_le_length_flatMap_escapeChar s.toList
  have hquoted := quoted_flatMap_escapeChar s.toList cs
    ((s.toList.flatMap escapeChar ++ '"' :: cs).length + 1) []
    (by rw [List.length_append]; omega)
  rw [stringValue, hquoted]
  simp only [List.reverse_nil, List.nil_append, String.ofList_toList]

/-! ## Numbers -/

/-- What may follow a value inside a document: its end, or one of the characters that separate or
close. -/
def Ends (cs : List Char) : Prop := ∀ ch ∈ cs.head?, ch = ',' ∨ ch = ']' ∨ ch = '\x7d'

/-- A separator or a closing bracket may follow a value. -/
theorem ends_cons {ch : Char} (h : ch = ',' ∨ ch = ']' ∨ ch = '\x7d') (cs : List Char) :
    Ends (ch :: cs) := by
  rintro _ ⟨⟩
  exact h

/-- The digits of a number have its value. -/
theorem digitsValue_toDigits (n : Nat) : digitsValue (Nat.toDigits 10 n) = n :=
  Nat.ofDigitChars_ten_toDigits

/-- The digits of a number are digits. -/
theorem isDigit_of_mem_toDigits {n : Nat} : ∀ ch ∈ Nat.toDigits 10 n, ch.isDigit = true :=
  fun _ => Nat.isDigit_of_mem_toDigits (by decide) (by decide)

/-- No digit zero stands in front of the other digits of a number. -/
theorem head_toDigits_ne {n : Nat} (h : 0 < n) : ∀ ch ∈ (Nat.toDigits 10 n).head?, ch ≠ '0' := by
  induction n using Nat.strongRecOn with
  | ind n ih =>
    by_cases hsmall : n < 10
    · rw [Nat.toDigits_of_lt_base hsmall]
      rintro _ ⟨⟩
      rw [ne_eq, Nat.digitChar_eq_zero]
      exact Nat.ne_of_gt h
    · have hfirst : (Nat.toDigits 10 n).head? = (Nat.toDigits 10 (n / 10)).head? := by
        obtain ⟨ch, cs, hdigits⟩ := List.exists_cons_of_ne_nil
          (Nat.toDigits_ne_nil (n := n / 10) (b := 10))
        rw [Nat.toDigits_of_base_le (by decide) (Nat.not_lt.1 hsmall), hdigits]
        rfl
      rw [hfirst]
      exact ih (n / 10) (by omega) (by omega)

/-- Reading on makes a number no smaller. -/
theorem le_foldl_digits (cs : List Char) : ∀ n : Nat,
    n ≤ cs.foldl (fun n c => 10 * n + (c.toNat - 48)) n := by
  induction cs with
  | nil => exact fun n => Nat.le_refl n
  | cons c cs ih =>
    intro n
    have hle := ih (10 * n + (c.toNat - 48))
    rw [List.foldl_cons]
    omega

/-- Digits that fit into 64 bits are all kept. -/
theorem leadingDigits_eq (cs : List Char) : ∀ n : Nat,
    cs.foldl (fun n c => 10 * n + (c.toNat - 48)) n < 18446744073709551616 →
      leadingDigits cs n = (cs.foldl (fun n c => 10 * n + (c.toNat - 48)) n, 0) := by
  induction cs with
  | nil => exact fun _ _ => rfl
  | cons c cs ih =>
    intro n h
    rw [List.foldl_cons] at h ⊢
    have hle := le_foldl_digits cs (10 * n + (c.toNat - 48))
    rw [leadingDigits, if_pos (Nat.lt_of_le_of_lt hle h), ih _ h]

/-- A number of 32 bits needs no rounding. -/
theorem nearest53_of_lt {n : Nat} (h : n < 4294967296) : nearest53 n = n := by
  have hbits : n.log2 + 1 ≤ 53 := by
    by_cases hn : n = 0
    · rw [hn]
      decide
    · have hlog : n.log2 < 32 := (Nat.log2_lt hn).2 h
      omega
  rw [nearest53]
  dsimp only
  rw [if_pos hbits]

/-- A whole number of 32 bits is far from the end of the range of a double. -/
theorem overflows_toDigits {n : Nat} (h : n < 4294967296) :
    overflows (Nat.toDigits 10 n) [] 0 = false := by
  have hvalue := digitsValue_toDigits n
  rw [digitsValue] at hvalue
  have hkept : leadingDigits (Nat.toDigits 10 n) 0 = (n, 0) := by
    rw [leadingDigits_eq _ 0 (by rw [hvalue]; omega), hvalue]
  have hlimit : (4294967296 : Nat) ≤ Nat.pow 2 1024 - Nat.pow 2 970 := by decide +kernel
  have hone : nearest53 (Nat.pow 10 (Int.toNat 0)) = 1 := by decide
  have hnone : leadingDigits [] n = (n, 0) := rfl
  have hpower : (0 : Int) + (0 : Nat) - (([] : List Char).length - 0 : Nat) = 0 := rfl
  simp only [overflows, hkept, hnone, hpower]
  split
  · rfl
  · rw [if_neg (by decide), hone, Nat.mul_one, nearest53_of_lt h]
    exact decide_eq_false (Nat.not_le.2 (Nat.lt_of_lt_of_le h hlimit))

/-- What may follow a value begins with no digit. -/
theorem not_isDigit_of_ends {cs : List Char} (h : Ends cs) : cs.takeWhile Char.isDigit = [] ∧
    cs.dropWhile Char.isDigit = cs := by
  cases cs with
  | nil => exact ⟨rfl, rfl⟩
  | cons ch cs =>
    have hdigit : ch.isDigit = false := by
      rcases h ch rfl with rfl | rfl | rfl <;> decide
    rw [List.takeWhile_cons, List.dropWhile_cons, hdigit]
    exact ⟨rfl, rfl⟩

/-- A whole number of 32 bits in digits is read as the number. -/
theorem number_toDigits {n : Nat} (h : n < 4294967296) {cs : List Char} (hcs : Ends cs) :
    number false (Nat.toDigits 10 n ++ cs) = (.integer n, some cs) := by
  obtain ⟨htake, hdrop⟩ := not_isDigit_of_ends hcs
  have hwhole : (Nat.toDigits 10 n ++ cs).takeWhile Char.isDigit = Nat.toDigits 10 n := by
    rw [List.takeWhile_append_of_pos isDigit_of_mem_toDigits, htake, List.append_nil]
  have hrest : (Nat.toDigits 10 n ++ cs).dropWhile Char.isDigit = cs := by
    rw [List.dropWhile_append_of_pos isDigit_of_mem_toDigits, hdrop]
  have hvalue : numberValue false (Nat.toDigits 10 n) none none (Nat.toDigits 10 n)
      = .integer n := by
    simp only [numberValue, Option.getD_none, overflows_toDigits h, digitsValue_toDigits,
      Bool.false_eq_true, if_false]
  have hexponent : numberExponent false (Nat.toDigits 10 n) none (Nat.toDigits 10 n) cs
      = (.integer n, some cs) := by
    cases cs with
    | nil => rw [numberExponent.eq_def, hvalue]
    | cons ch cs =>
      have hch : ¬ (ch = 'e' ∨ ch = 'E') := by
        rcases hcs ch rfl with rfl | rfl | rfl <;> decide
      rw [numberExponent.eq_def]
      dsimp only
      rw [if_neg hch, hvalue]
  simp only [number, hwhole, hrest, Bool.false_eq_true, if_false, List.nil_append]
  split
  · next hnil => exact absurd hnil Nat.toDigits_ne_nil
  · next hzero =>
    rcases Nat.eq_zero_or_pos n with rfl | hpos
    · cases hzero
    · exact absurd rfl (head_toDigits_ne hpos '0' (by rw [hzero]; rfl))
  · split
    · next hdot =>
      rcases hcs _ rfl with hch | hch | hch <;> exact absurd hch (by decide)
    · exact hexponent

end Wiring.Json
