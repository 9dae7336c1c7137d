/-!
# Splitting texts

The text before and after a separator, and what remains of a text once a known beginning or end is
taken off. All are total: a missing separator or affix is `none`, never an empty guess.
-/

namespace Wiring.Text

/-- The characters after the first occurrence of `head` at the start of `cs`, when it is there. -/
def dropHead? : List Char → List Char → Option (List Char)
  | [], cs => some cs
  | _ :: _, [] => none
  | h :: hs, c :: cs => if h = c then dropHead? hs cs else none

/-- What follows `head` in `s`, when `s` starts with it. -/
def afterHead? (head s : String) : Option String :=
  (dropHead? head.toList s.toList).map String.ofList

/-- What precedes `tail` in `s`, when `s` ends with it. -/
def beforeTail? (tail s : String) : Option String :=
  (dropHead? tail.toList.reverse s.toList.reverse).map fun cs => String.ofList cs.reverse

/-- The characters before and after the first `sep`, when there is one. -/
def splitFirst? (sep : Char) : List Char → Option (List Char × List Char)
  | [] => none
  | c :: cs =>
    if c = sep then some ([], cs)
    else (splitFirst? sep cs).map fun (before, after) => (c :: before, after)

/-- The characters before and after the last `sep`, when there is one. -/
def splitLast? (sep : Char) (cs : List Char) : Option (List Char × List Char) :=
  (splitFirst? sep cs.reverse).map fun (after, before) => (before.reverse, after.reverse)

/-- The pieces of a text between occurrences of `sep`; there is always at least one. -/
def pieces (sep : Char) : List Char → List (List Char)
  | [] => [[]]
  | c :: cs =>
    if c = sep then [] :: pieces sep cs
    else match pieces sep cs with
      | [] => [[c]]
      | p :: ps => (c :: p) :: ps

/-- A head is dropped from what it is in front of. -/
theorem dropHead?_append (h cs : List Char) : dropHead? h (h ++ cs) = some cs := by
  induction h with
  | nil => cases cs <;> rfl
  | cons c h ih => simpa [dropHead?] using ih

/-- What a head is dropped from is the head and what is left. -/
theorem eq_append_of_dropHead? {h cs r : List Char} (e : dropHead? h cs = some r) :
    cs = h ++ r := by
  induction h generalizing cs with
  | nil => cases cs <;> simp_all [dropHead?]
  | cons c h ih =>
    cases cs with
    | nil => simp [dropHead?] at e
    | cons d cs =>
      simp only [dropHead?] at e
      split at e
      · next hc => simp [hc, ih e]
      · simp at e

/-- What follows a head is the rest of a text that starts with it. -/
theorem afterHead?_eq_some_iff {head s rest : String} :
    afterHead? head s = some rest ↔ s = head ++ rest := by
  constructor
  · intro h
    obtain ⟨cs, hcs, rfl⟩ := Option.map_eq_some_iff.1 h
    refine String.toList_inj.1 ?_
    rw [String.toList_append, String.toList_ofList, eq_append_of_dropHead? hcs]
  · rintro rfl
    rw [afterHead?, String.toList_append, dropHead?_append, Option.map_some, String.ofList_toList]

/-- Every text has a piece. -/
theorem pieces_ne_nil (sep : Char) (cs : List Char) : pieces sep cs ≠ [] := by
  cases cs with
  | nil => exact List.cons_ne_nil _ _
  | cons c cs =>
    rw [pieces]
    split
    · exact List.cons_ne_nil _ _
    · split <;> exact List.cons_ne_nil _ _

/-- A text without the separator is one piece. -/
theorem pieces_of_not_mem {sep : Char} {cs : List Char} (h : sep ∉ cs) : pieces sep cs = [cs] := by
  induction cs with
  | nil => rfl
  | cons c cs ih =>
    rw [List.mem_cons, not_or] at h
    rw [pieces, if_neg fun hc => h.1 hc.symm, ih h.2]

/-- The pieces of two texts with a separator between them are those of the one and of the other. -/
theorem pieces_append (sep : Char) (as bs : List Char) :
    pieces sep (as ++ sep :: bs) = pieces sep as ++ pieces sep bs := by
  induction as with
  | nil => simp only [List.nil_append, pieces, if_true, List.cons_append]
  | cons a as ih =>
    rw [List.cons_append, pieces, pieces, ih]
    split
    · rfl
    · obtain ⟨p, ps, hp⟩ := List.exists_cons_of_ne_nil (pieces_ne_nil sep as)
      rw [hp]
      rfl

/-- The part before the first separator holds none, and nothing is lost. -/
theorem splitFirst?_eq_some {sep : Char} {cs before after : List Char}
    (h : splitFirst? sep cs = some (before, after)) :
    cs = before ++ sep :: after ∧ sep ∉ before := by
  induction cs generalizing before with
  | nil => simp [splitFirst?] at h
  | cons c cs ih =>
    simp only [splitFirst?] at h
    split at h
    · next hc =>
      simp only [Option.some.injEq, Prod.mk.injEq] at h
      obtain ⟨rfl, rfl⟩ := h
      simp [hc]
    · next hc =>
      simp only [Option.map_eq_some_iff, Prod.mk.injEq] at h
      obtain ⟨⟨b, a⟩, hb, rfl, rfl⟩ := h
      obtain ⟨h1, h2⟩ := ih hb
      refine ⟨by simp [h1], ?_⟩
      simp only [List.mem_cons, not_or]
      exact ⟨fun e => hc e.symm, h2⟩

/-- A text without the separator is not split. -/
theorem splitFirst?_of_not_mem {sep : Char} {cs : List Char} (h : sep ∉ cs) :
    splitFirst? sep cs = none := by
  induction cs with
  | nil => rfl
  | cons c cs ih =>
    rw [List.mem_cons, not_or] at h
    rw [splitFirst?, if_neg fun hc => h.1 hc.symm, ih h.2, Option.map_none]

/-- Where the part before a separator holds none, that separator is the first. -/
theorem splitFirst?_append {sep : Char} {before : List Char} (h : sep ∉ before)
    (after : List Char) : splitFirst? sep (before ++ sep :: after) = some (before, after) := by
  induction before with
  | nil => rw [List.nil_append, splitFirst?, if_pos rfl]
  | cons c before ih =>
    rw [List.mem_cons, not_or] at h
    rw [List.cons_append, splitFirst?, if_neg fun hc => h.1 hc.symm, ih h.2, Option.map_some]

/-- A text without a separator is not split at one. -/
theorem splitLast?_of_not_mem {sep : Char} {cs : List Char} (h : sep ∉ cs) :
    splitLast? sep cs = none := by
  rw [splitLast?, splitFirst?_of_not_mem (fun hmem => h (List.mem_reverse.1 hmem)), Option.map_none]

/-- Where the part after a separator holds none, that separator is the last. -/
theorem splitLast?_append {sep : Char} {after : List Char} (before : List Char)
    (h : sep ∉ after) : splitLast? sep (before ++ sep :: after) = some (before, after) := by
  have hreverse : (before ++ sep :: after).reverse = after.reverse ++ sep :: before.reverse := by
    rw [List.reverse_append, List.reverse_cons, List.append_assoc, List.singleton_append]
  have hfirst := splitFirst?_append (fun hmem => h (List.mem_reverse.1 hmem)) before.reverse
  simp only [splitLast?, hreverse, hfirst, Option.map_some, List.reverse_reverse]

/-- Each character of a text is a separator or stands in one of the pieces. -/
theorem exists_mem_pieces {sep ch : Char} {cs : List Char} (h : ch ∈ cs) (hne : ch ≠ sep) :
    ∃ piece ∈ pieces sep cs, ch ∈ piece := by
  induction cs with
  | nil => exact absurd h List.not_mem_nil
  | cons c cs ih =>
    rw [pieces]
    rcases List.mem_cons.1 h with rfl | hmem
    · rw [if_neg hne]
      obtain ⟨p, ps, hp⟩ := List.exists_cons_of_ne_nil (pieces_ne_nil sep cs)
      rw [hp]
      exact ⟨ch :: p, List.mem_cons_self .., List.mem_cons_self ..⟩
    · obtain ⟨piece, hpiece, hch⟩ := ih hmem
      split
      · exact ⟨piece, List.mem_cons_of_mem _ hpiece, hch⟩
      · obtain ⟨p, ps, hp⟩ := List.exists_cons_of_ne_nil (pieces_ne_nil sep cs)
        rw [hp] at hpiece ⊢
        rcases List.mem_cons.1 hpiece with rfl | hpiece
        · exact ⟨_, List.mem_cons_self .., List.mem_cons_of_mem _ hch⟩
        · exact ⟨piece, List.mem_cons_of_mem _ hpiece, hch⟩

end Wiring.Text
