import Wiring.Proofs.Resolve.Universe
import Wiring.Type.Text

/-!
# Types that are written alike

The source text of a type says which type it is, as long as the names in it are made of other
characters than the types themselves, a qualified name is that of one package and of one alias or
class, and function classes are named after their number of parameters. The text can then be read
off from the front: where it ends in a longer text, and which type it is, is never in doubt.
-/

namespace Wiring.TypeExpr

/-- Whether a character is one that types are written with around their names. -/
def isSyntax (ch : Char) : Bool := "<>(),?".toList.contains ch

/-- Whether the type is written with an arrow. -/
def isArrowed : TypeExpr → Bool
  | declared p n as _ => isArrow p n as
  | aliased .. => false

/-- What the qualified names of a program stand for. -/
structure Spelling where
  /-- The package and the name that a qualified name is made of. -/
  split : String → String × String
  /-- The target of an alias that is applied to arguments; none for a class. -/
  target? : String → List TypeExpr → Option TypeExpr

/-- A type is spelled in the way of a program. -/
inductive Spelled (s : Spelling) : TypeExpr → Prop where
  | mk {t : TypeExpr} (hsplit : s.split t.qualifiedName = (t.package, t.name))
      (htarget : s.target? t.qualifiedName t.arguments = t.target?)
      (hne : t.qualifiedName ≠ "")
      (hplain : ∀ ch ∈ t.qualifiedName.toList, isSyntax ch = false)
      (harrow : t.isArrowed = true → t.name = "Function" ++ toString (t.arguments.length - 1))
      (hargs : ∀ a ∈ t.arguments, Spelled s a) : Spelled s t

/-- The characters of the source text. -/
def chars (t : TypeExpr) : List Char := t.sourceText.toList

/-- The characters of several source texts with commas between them. -/
def charsList (ts : List TypeExpr) : List Char := ", ".toList.intercalate (ts.map chars)

/-- The characters of an arrow type that is not nullable. -/
def arrowChars (params : List TypeExpr) (result : TypeExpr) : List Char :=
  '(' :: (charsList params ++ (") -> ".toList ++ result.chars))

/-- The characters that follow the name of a type. -/
def afterName (arguments : List TypeExpr) (nullable : Bool) : List Char :=
  (if arguments.isEmpty then [] else '<' :: (charsList arguments ++ ['>']))
    ++ (mark nullable).toList

variable {s : Spelling} {t t' : TypeExpr} {as as' : List TypeExpr} {r r' : List Char}

/-- Types that agree in all their fields are the same. -/
theorem eq_of_parts (hp : t.package = t'.package) (hn : t.name = t'.name)
    (has : t.arguments = t'.arguments) (hq : t.nullable = t'.nullable)
    (ht : t.target? = t'.target?) : t = t' := by
  cases t <;> cases t' <;> cases hp <;> cases hn <;> cases has <;> cases hq <;> cases ht <;> rfl

/-- The characters of source texts with commas between them. -/
theorem toList_intercalate_sourceText (ts : List TypeExpr) :
    (", ".intercalate (ts.map sourceText)).toList = charsList ts := by
  rw [String.toList_intercalate, List.map_map]
  rfl

/-- A type that is written with its name. -/
theorem sourceText_of_named (h : t.isArrowed = false) : t.sourceText = t.qualifiedName
    ++ bracketed (t.arguments.map sourceText) ++ mark t.nullable := by
  cases t with
  | declared p n as q =>
    have hf : isArrow p n as = false := h
    rw [sourceText, write, hf, writeList_eq_map]
    rfl
  | aliased p n as q target =>
    rw [sourceText, write, writeList_eq_map]
    rfl

/-- A bare name is written as it is, with its mark. -/
theorem sourceText_of_bare (h : t.arguments = []) :
    t.sourceText = t.qualifiedName ++ mark t.nullable := by
  have hf : t.isArrowed = false := by
    cases t with
    | declared p n as q =>
      obtain rfl : as = [] := h
      rw [isArrowed, isArrow, List.isEmpty_nil, Bool.not_true, Bool.and_false, Bool.false_and]
    | aliased => rfl
  have hbracketed : bracketed [] = "" := rfl
  rw [sourceText_of_named hf, h, List.map_nil, hbracketed, String.append_empty]

/-- A type that is not written with an arrow is its name and what follows that. -/
theorem chars_of_named (h : t.isArrowed = false) :
    t.chars = t.qualifiedName.toList ++ afterName t.arguments t.nullable := by
  rw [chars, sourceText_of_named h, String.toList_append, String.toList_append, List.append_assoc,
    bracketed, List.isEmpty_map, afterName]
  cases has : t.arguments.isEmpty with
  | true => rfl
  | false =>
    simp only [Bool.false_eq_true, if_false, String.toList_append, toList_intercalate_sourceText]
    rfl

/-- A type that is written with an arrow, with and without its mark. -/
theorem chars_of_arrowed (h : t.isArrowed = true) : ∃ params result,
    t.arguments = params ++ [result] ∧ t.package = "kotlin" ∧ t.target? = none ∧
      (t.withNullable false).chars = arrowChars params result ∧
      (t.withNullable true).chars = '(' :: (arrowChars params result ++ [')', '?']) := by
  cases t with
  | aliased p n as q target => cases h
  | declared p n as q =>
    have hf : isArrow p n as = true := h
    have hparts := hf
    simp only [isArrow, Bool.and_eq_true, Bool.not_eq_true', beq_iff_eq] at hparts
    obtain ⟨⟨hp, hne⟩, _⟩ := hparts
    obtain ⟨params, result, rfl⟩ : ∃ params result, as = params ++ [result] := by
      rcases List.eq_nil_or_concat as with rfl | ⟨params, result, rfl⟩
      · cases hne
      · exact ⟨params, result, List.concat_eq_append ..⟩
    have hlast : ((params ++ [result]).map (write .source)).getLastD "" = result.sourceText := by
      rw [List.map_append, List.map_singleton, List.getLastD_concat]
      rfl
    have hinit : ((params ++ [result]).map (write .source)).dropLast = params.map sourceText := by
      rw [List.map_append, List.map_singleton, List.dropLast_concat]
      rfl
    have hcore : ("(" ++ ", ".intercalate (params.map sourceText) ++ ") -> "
        ++ result.sourceText).toList = arrowChars params result := by
      simp only [String.toList_append, toList_intercalate_sourceText, List.append_assoc]
      rfl
    have hwrite : ∀ q, (declared p n (params ++ [result]) q).chars
        = (arrow ((params ++ [result]).map (write .source)) q).toList := by
      intro q
      rw [chars, sourceText, write, hf, writeList_eq_map, if_pos rfl]
    refine ⟨params, result, rfl, hp, rfl, ?_, ?_⟩
    · rw [withNullable, hwrite, arrow, hlast, hinit]
      exact hcore
    · rw [withNullable, hwrite, arrow, hlast, hinit, if_pos rfl, String.toList_append,
        String.toList_append, hcore]
      rfl

/-- Setting the mark that is there changes nothing. -/
theorem withNullable_nullable (t : TypeExpr) : t.withNullable t.nullable = t := by
  cases t <;> rfl

/-- What can follow a type: the end of the text, or one of the characters that close it off. -/
def Ends (r : List Char) : Prop := ∀ ch ∈ r.head?, ch = ',' ∨ ch = '>' ∨ ch = ')'

/-- The two types are told apart by their texts, and so are the places where the texts end. -/
def Apart (t t' : TypeExpr) : Prop :=
  ∀ r r', Ends r → Ends r' → t.chars ++ r = t'.chars ++ r' → t = t' ∧ r = r'

/-- A spelled type is told from its name and arguments, and its name holds nothing that types are
written with. -/
theorem Spelled.parts (h : Spelled s t) :
    s.split t.qualifiedName = (t.package, t.name) ∧
      s.target? t.qualifiedName t.arguments = t.target? ∧ t.qualifiedName ≠ "" ∧
      (∀ ch ∈ t.qualifiedName.toList, isSyntax ch = false) ∧
      (t.isArrowed = true → t.name = "Function" ++ toString (t.arguments.length - 1)) ∧
      ∀ a ∈ t.arguments, Spelled s a := by
  cases h with
  | mk hsplit htarget hne hplain harrow hargs =>
    exact ⟨hsplit, htarget, hne, hplain, harrow, hargs⟩

/-- The arguments of a spelled type are spelled. -/
theorem Spelled.arguments (h : Spelled s t) {a : TypeExpr} (ha : a ∈ t.arguments) :
    Spelled s a := by
  cases h with
  | mk _ _ _ _ _ hargs => exact hargs a ha

/-- The text of a type begins with a character of its name, or with a bracket. -/
theorem Spelled.chars_eq_cons (h : Spelled s t) : ∃ ch rest, t.chars = ch :: rest ∧
    if t.isArrowed then ch = '(' else isSyntax ch = false := by
  obtain ⟨_, _, hne, hplain, _, _⟩ := h.parts
  cases ha : t.isArrowed with
  | true =>
    obtain ⟨params, result, _, _, _, hfalse, htrue⟩ := chars_of_arrowed ha
    rw [← t.withNullable_nullable]
    cases t.nullable with
    | true => exact ⟨'(', _, htrue, rfl⟩
    | false => exact ⟨'(', _, hfalse, rfl⟩
  | false =>
    rw [chars_of_named ha]
    cases hn : t.qualifiedName.toList with
    | nil => exact absurd (String.toList_inj.1 hn) hne
    | cons ch rest =>
      refine ⟨ch, rest ++ _, rfl, ?_⟩
      exact hplain ch (hn ▸ List.mem_cons_self ..)

/-- A type can be followed by a comma or a closing bracket. -/
theorem ends_of_cons {ch : Char} (h : ch = ',' ∨ ch = '>' ∨ ch = ')') (r : List Char) :
    Ends (ch :: r) := by
  intro ch' hch
  cases hch
  exact h

/-- Between two types a comma and a blank are written. -/
theorem charsList_cons_cons (a b : TypeExpr) (as : List TypeExpr) :
    charsList (a :: b :: as) = a.chars ++ (',' :: ' ' :: charsList (b :: as)) := by
  rw [charsList, List.map_cons, List.map_cons, List.intercalate_cons_cons, List.append_assoc]
  rfl

/-- A type by itself is written without a comma. -/
theorem charsList_singleton (a : TypeExpr) : charsList [a] = a.chars := by
  rw [charsList, List.map_singleton, List.intercalate_singleton]

/-- No type begins with a character that closes a list off. -/
theorem Spelled.chars_append_ne (h : Spelled s t) {close : Char}
    (hclose : close = '>' ∨ close = ')') (r r' : List Char) : t.chars ++ r ≠ close :: r' := by
  obtain ⟨ch, rest, htext, hch⟩ := h.chars_eq_cons
  rw [htext, List.cons_append]
  intro he
  obtain ⟨rfl, _⟩ := List.cons.inj he
  split at hch
  · subst hch
    rcases hclose with hclose | hclose <;> exact absurd hclose (by decide)
  · rcases hclose with rfl | rfl <;> exact absurd hch (by decide)

/-- A list of types that is closed off begins with the first of them, and goes on with a comma or
closes. -/
theorem exists_charsList_cons (a : TypeExpr) (as : List TypeExpr) (close : Char) (r : List Char) :
    ∃ ch rest, charsList (a :: as) ++ close :: r = a.chars ++ ch :: rest ∧
      (ch = ',' ∨ ch = close ∧ rest = r) := by
  cases as with
  | nil => exact ⟨close, r, by rw [charsList_singleton], .inr ⟨rfl, rfl⟩⟩
  | cons b as => exact ⟨',', _, by rw [charsList_cons_cons, List.append_assoc]; rfl, .inl rfl⟩

/-- Lists of types that are closed off by one character are told apart when their members are. -/
theorem charsList_append_inj {close : Char} (hclose : close = '>' ∨ close = ')')
    (hs : ∀ a ∈ as, Spelled s a) (hs' : ∀ a ∈ as', Spelled s a)
    (h : ∀ a ∈ as, ∀ a' ∈ as', Apart a a')
    (he : charsList as ++ close :: r = charsList as' ++ close :: r') : as = as' ∧ r = r' := by
  have hends : ∀ r, Ends (close :: r) := fun r =>
    ends_of_cons (hclose.elim (fun h => .inr (.inl h)) fun h => .inr (.inr h)) r
  have hcomma : ∀ r, Ends (',' :: r) := ends_of_cons (.inl rfl)
  have hne : close ≠ ',' := by
    rcases hclose with rfl | rfl <;> decide
  induction as generalizing as' with
  | nil =>
    cases as' with
    | nil => exact ⟨rfl, (List.cons.inj he).2⟩
    | cons a' as' =>
      obtain ⟨ch, rest, hrest, _⟩ := exists_charsList_cons a' as' close r'
      rw [hrest] at he
      exact absurd he.symm ((hs' a' (List.mem_cons_self ..)).chars_append_ne hclose _ _)
  | cons a as ih =>
    cases as' with
    | nil =>
      obtain ⟨ch, rest, hrest, _⟩ := exists_charsList_cons a as close r
      rw [hrest] at he
      exact absurd he ((hs a (List.mem_cons_self ..)).chars_append_ne hclose _ _)
    | cons a' as' =>
      -- The first types are the same, and the character behind them says whether the lists go on.
      have hapart := h a (List.mem_cons_self ..) a' (List.mem_cons_self ..)
      cases as with
      | nil =>
        rw [charsList_singleton] at he
        cases as' with
        | nil =>
          rw [charsList_singleton] at he
          obtain ⟨rfl, hr⟩ := hapart _ _ (hends r) (hends r') he
          exact ⟨rfl, (List.cons.inj hr).2⟩
        | cons b' as' =>
          rw [charsList_cons_cons, List.append_assoc] at he
          obtain ⟨_, hr⟩ := hapart _ _ (hends r) (hcomma _) he
          exact absurd (List.cons.inj hr).1 hne
      | cons b as =>
        rw [charsList_cons_cons, List.append_assoc] at he
        cases as' with
        | nil =>
          rw [charsList_singleton] at he
          obtain ⟨_, hr⟩ := hapart _ _ (hcomma _) (hends r') he
          exact absurd (List.cons.inj hr).1.symm hne
        | cons b' as' =>
          rw [charsList_cons_cons, List.append_assoc] at he
          obtain ⟨rfl, hr⟩ := hapart _ _ (hcomma _) (hcomma _) he
          have hrest := ih (fun x hx => hs x (List.mem_cons_of_mem _ hx))
            (fun x hx => hs' x (List.mem_cons_of_mem _ hx))
            (fun x hx y hy => h x (List.mem_cons_of_mem _ hx) y (List.mem_cons_of_mem _ hy))
            (List.cons.inj (List.cons.inj hr).2).2
          exact ⟨by rw [hrest.1], hrest.2⟩

/-- The name of a type ends where the first character comes that types are written with. -/
theorem name_append_inj {n n' : List Char} (hn : ∀ ch ∈ n, isSyntax ch = false)
    (hn' : ∀ ch ∈ n', isSyntax ch = false) (hr : ∀ ch ∈ r.head?, isSyntax ch = true)
    (hr' : ∀ ch ∈ r'.head?, isSyntax ch = true) (he : n ++ r = n' ++ r') : n = n' ∧ r = r' := by
  induction n generalizing n' with
  | nil =>
    cases n' with
    | nil => exact ⟨rfl, he⟩
    | cons ch n' =>
      have hch := hr ch (by rw [List.nil_append] at he; rw [he]; rfl)
      rw [hn' ch (List.mem_cons_self ..)] at hch
      cases hch
  | cons ch n ih =>
    cases n' with
    | nil =>
      have hch := hr' ch (by rw [List.nil_append] at he; rw [← he]; rfl)
      rw [hn ch (List.mem_cons_self ..)] at hch
      cases hch
    | cons ch' n' =>
      obtain ⟨rfl, htail⟩ := List.cons.inj he
      obtain ⟨rfl, hr⟩ := ih (fun x hx => hn x (List.mem_cons_of_mem _ hx))
        (fun x hx => hn' x (List.mem_cons_of_mem _ hx)) htail
      exact ⟨rfl, hr⟩

/-- A mark is told apart from what can follow a type. -/
theorem mark_append_inj {q q' : Bool} (hr : Ends r) (hr' : Ends r')
    (he : (mark q).toList ++ r = (mark q').toList ++ r') : q = q' ∧ r = r' := by
  have hmark : ∀ {r r' : List Char}, Ends r → r ≠ '?' :: r' := by
    intro r r' hr he
    subst he
    rcases hr '?' rfl with h | h | h <;> exact absurd h (by decide)
  cases q with
  | false =>
    cases q' with
    | false => exact ⟨rfl, he⟩
    | true => exact absurd he (hmark hr)
  | true =>
    cases q' with
    | false => exact absurd he.symm (hmark hr')
    | true => exact ⟨rfl, (List.cons.inj he).2⟩

/-- A name is followed by something that cannot be in a name. -/
theorem head_afterName {q : Bool} (hr : Ends r) :
    ∀ ch ∈ (afterName as q ++ r).head?, isSyntax ch = true := by
  intro ch hch
  rw [afterName] at hch
  cases as with
  | cons a as =>
    cases hch
    rfl
  | nil =>
    cases q with
    | true =>
      cases hch
      rfl
    | false =>
      rcases hr ch hch with rfl | rfl | rfl <;> rfl

/-- What follows the name of a type tells its arguments and its mark. -/
theorem afterName_append_inj {q q' : Bool} (hs : ∀ a ∈ as, Spelled s a)
    (hs' : ∀ a ∈ as', Spelled s a) (h : ∀ a ∈ as, ∀ a' ∈ as', Apart a a') (hr : Ends r)
    (hr' : Ends r') (he : afterName as q ++ r = afterName as' q' ++ r') :
    as = as' ∧ q = q' ∧ r = r' := by
  have hopen : ∀ {q : Bool} {r r' : List Char}, Ends r → (mark q).toList ++ r ≠ '<' :: r' := by
    intro q r r' hr he
    cases q with
    | true => exact absurd (List.cons.inj he).1 (by decide)
    | false =>
      have hhead : r = '<' :: r' := he
      subst hhead
      rcases hr '<' rfl with h | h | h <;> exact absurd h (by decide)
  cases as with
  | nil =>
    cases as' with
    | nil => exact ⟨rfl, mark_append_inj hr hr' he⟩
    | cons a' as' => exact absurd he (hopen hr)
  | cons a as =>
    cases as' with
    | nil => exact absurd he.symm (hopen hr')
    | cons a' as' =>
      simp only [afterName, List.isEmpty_cons, Bool.false_eq_true, if_false, List.cons_append,
        List.append_assoc, List.nil_append] at he
      obtain ⟨has, hrest⟩ := charsList_append_inj (.inl rfl) hs hs' h (List.cons.inj he).2
      exact ⟨has, mark_append_inj hr hr' hrest⟩

/-- The text of an arrow type tells its parameters and its result. -/
theorem arrowChars_append_inj {params params' : List TypeExpr} {result result' : TypeExpr}
    (hs : ∀ a ∈ params, Spelled s a) (hs' : ∀ a ∈ params', Spelled s a)
    (h : ∀ a ∈ params, ∀ a' ∈ params', Apart a a') (hresult : Apart result result') (hr : Ends r)
    (hr' : Ends r') (he : arrowChars params result ++ r = arrowChars params' result' ++ r') :
    params = params' ∧ result = result' ∧ r = r' := by
  simp only [arrowChars, List.cons_append, List.append_assoc] at he
  obtain ⟨hparams, hrest⟩ := charsList_append_inj (.inr rfl) hs hs' h (List.cons.inj he).2
  have htail : result.chars ++ r = result'.chars ++ r' :=
    (List.append_right_inj " -> ".toList).1 hrest
  obtain ⟨hres, hend⟩ := hresult _ _ hr hr' htail
  exact ⟨hparams, hres, hend⟩

/-- The nullable mark has no size. -/
theorem size_withNullable (q : Bool) (t : TypeExpr) : (t.withNullable q).size = t.size := by
  cases t <;> rfl

/-- A spelled type is spelled with any nullable mark. -/
theorem Spelled.withNullable (h : Spelled s t) (q : Bool) : Spelled s (t.withNullable q) := by
  obtain ⟨hsplit, htarget, hne, hplain, harrow, hargs⟩ := h.parts
  cases t <;> exact .mk hsplit htarget hne hplain harrow hargs

/-- A nullable arrow type begins with two brackets. It is not taken for an arrow type whose first
parameter is written with an arrow. -/
theorem nullable_arrow_ne {params params' : List TypeExpr} {result result' : TypeExpr}
    (ht : t.chars = arrowChars params result) (h : ∀ a ∈ params', Apart t a) :
    '(' :: (arrowChars params result ++ [')', '?']) ++ r ≠ arrowChars params' result' ++ r' := by
  intro he
  simp only [arrowChars, List.cons_append, List.append_assoc] at he
  have htail := (List.cons.inj he).2
  cases params' with
  | nil => exact absurd (List.cons.inj htail).1 (by decide)
  | cons a params' =>
    obtain ⟨ch, rest, hlist, hch⟩ := exists_charsList_cons a params' ')'
      (" -> ".toList ++ (result'.chars ++ r'))
    have htext : t.chars ++ (')' :: '?' :: r) = a.chars ++ ch :: rest := by
      rw [ht, ← hlist, arrowChars]
      simp only [List.cons_append, List.append_assoc]
      exact htail
    have hends : Ends (ch :: rest) := ends_of_cons (hch.imp_right fun h => .inr h.1) rest
    obtain ⟨_, hrest⟩ := h a (List.mem_cons_self ..) _ _ (ends_of_cons (.inr (.inr rfl)) _) hends
      htext
    obtain ⟨hclose, hmark⟩ := List.cons.inj hrest
    rcases hch with rfl | ⟨_, rfl⟩
    · exact absurd hclose (by decide)
    · exact absurd (List.cons.inj hmark).1 (by decide)

/-- An argument is smaller than the type. -/
theorem size_lt_of_mem {a : TypeExpr} (h : a ∈ t.arguments) : a.size < t.size := by
  have hlist : ∀ {as : List TypeExpr}, a ∈ as → a.size ≤ sizeList as := by
    intro as
    induction as with
    | nil => exact fun h => absurd h List.not_mem_nil
    | cons b as ih =>
      intro h
      rw [sizeList]
      rcases List.mem_cons.1 h with rfl | h
      · omega
      · have hle := ih h
        omega
  have hle := hlist h
  cases t with
  | declared p n as q =>
    rw [arguments] at hle
    rw [size]
    omega
  | aliased p n as q target =>
    rw [arguments] at hle
    rw [size]
    omega

/-- The first character tells whether a type is written with an arrow. -/
theorem Spelled.isArrowed_eq (ht : Spelled s t) (ht' : Spelled s t')
    (he : t.chars ++ r = t'.chars ++ r') : t.isArrowed = t'.isArrowed := by
  obtain ⟨ch, rest, htext, hch⟩ := ht.chars_eq_cons
  obtain ⟨ch', rest', htext', hch'⟩ := ht'.chars_eq_cons
  rw [htext, htext'] at he
  obtain ⟨rfl, _⟩ := List.cons.inj he
  have hparen : isSyntax '(' = true := by decide
  cases hf : t.isArrowed with
  | true =>
    cases hf' : t'.isArrowed with
    | true => rfl
    | false =>
      rw [hf] at hch
      rw [hf', hch, hparen] at hch'
      cases hch'
  | false =>
    cases hf' : t'.isArrowed with
    | false => rfl
    | true =>
      rw [hf'] at hch'
      rw [hf, hch', hparen] at hch
      cases hch

/-- Types written with their names are told apart when their arguments are. -/
theorem Spelled.apart_of_named (ht : Spelled s t) (ht' : Spelled s t') (hf : t.isArrowed = false)
    (hf' : t'.isArrowed = false) (h : ∀ a ∈ t.arguments, ∀ a' ∈ t'.arguments, Apart a a') :
    Apart t t' := by
  intro r r' hr hr' he
  obtain ⟨hsplit, htarget, _, hplain, _, hargs⟩ := ht.parts
  obtain ⟨hsplit', htarget', _, hplain', _, hargs'⟩ := ht'.parts
  rw [chars_of_named hf, chars_of_named hf', List.append_assoc, List.append_assoc] at he
  obtain ⟨hname, hafter⟩ := name_append_inj hplain hplain' (head_afterName hr)
    (head_afterName hr') he
  obtain ⟨has, hq, hend⟩ := afterName_append_inj hargs hargs' h hr hr' hafter
  have hqualified := String.toList_inj.1 hname
  rw [← hqualified, hsplit] at hsplit'
  rw [← hqualified, ← has, htarget] at htarget'
  obtain ⟨hp, hn⟩ := Prod.mk.inj hsplit'
  exact ⟨eq_of_parts hp hn has hq htarget', hend⟩

/-- Types written with an arrow are told apart when their arguments are, and when each of them,
without its mark, is told apart from the arguments of the other. -/
theorem Spelled.apart_of_arrowed (ht : Spelled s t) (ht' : Spelled s t') (hf : t.isArrowed = true)
    (hf' : t'.isArrowed = true) (h : ∀ a ∈ t.arguments, ∀ a' ∈ t'.arguments, Apart a a')
    (hleft : ∀ a ∈ t'.arguments, Apart (t.withNullable false) a)
    (hright : ∀ a ∈ t.arguments, Apart (t'.withNullable false) a) : Apart t t' := by
  intro r r' hr hr' he
  obtain ⟨_, _, _, _, harrow, hargs⟩ := ht.parts
  obtain ⟨_, _, _, _, harrow', hargs'⟩ := ht'.parts
  have hname := harrow hf
  have hname' := harrow' hf'
  obtain ⟨params, result, has, hp, htg, hfalse, htrue⟩ := chars_of_arrowed hf
  obtain ⟨params', result', has', hp', htg', hfalse', htrue'⟩ := chars_of_arrowed hf'
  rw [has] at hname hargs h hright
  rw [has'] at hname' hargs' h hleft
  simp only [List.forall_mem_append, List.forall_mem_singleton] at hargs hargs' h hleft hright
  have hinj : ∀ {r r'}, Ends r → Ends r' →
      arrowChars params result ++ r = arrowChars params' result' ++ r' →
      params = params' ∧ result = result' ∧ r = r' := fun hr hr' he =>
    arrowChars_append_inj hargs.1 hargs'.1 (fun a ha => (h.1 a ha).1) h.2.2 hr hr' he
  have hsame : params = params' → result = result' → t.nullable = t'.nullable → t = t' := by
    rintro rfl rfl hq
    exact eq_of_parts (hp.trans hp'.symm) (hname.trans hname'.symm) (has.trans has'.symm) hq
      (htg.trans htg'.symm)
  have hends : ∀ r, Ends (')' :: r) := ends_of_cons (.inr (.inr rfl))
  rw [← t.withNullable_nullable, ← t'.withNullable_nullable] at he
  cases hq : t.nullable with
  | false =>
    cases hq' : t'.nullable with
    | false =>
      rw [hq, hq', hfalse, hfalse'] at he
      obtain ⟨hparams, hres, hend⟩ := hinj hr hr' he
      exact ⟨hsame hparams hres (hq.trans hq'.symm), hend⟩
    | true =>
      rw [hq, hq', hfalse, htrue'] at he
      exact absurd he.symm (nullable_arrow_ne hfalse' hright.1)
  | true =>
    cases hq' : t'.nullable with
    | false =>
      rw [hq, hq', htrue, hfalse'] at he
      exact absurd he (nullable_arrow_ne hfalse hleft.1)
    | true =>
      rw [hq, hq', htrue, htrue'] at he
      simp only [List.cons_append, List.append_assoc, List.nil_append] at he
      obtain ⟨hparams, hres, hend⟩ := hinj (hends _) (hends _) (List.cons.inj he).2
      exact ⟨hsame hparams hres (hq.trans hq'.symm), (List.cons.inj (List.cons.inj hend).2).2⟩

/-- A type that is spelled in the way of a program can be read off from the front of a text. -/
theorem Spelled.apart (ht : Spelled s t) (ht' : Spelled s t') : Apart t t' := by
  -- Both types get smaller together, or one of them does while the other loses its mark.
  induction hn : t.size + t'.size using Nat.strongRecOn generalizing t t' with
  | ind n ih =>
    subst hn
    have hbelow : ∀ a ∈ t.arguments, ∀ a' ∈ t'.arguments, Apart a a' := by
      intro a ha a' ha'
      have hlt := size_lt_of_mem ha
      have hlt' := size_lt_of_mem ha'
      exact ih _ (by omega) (ht.arguments ha) (ht'.arguments ha') rfl
    have hleft : ∀ a ∈ t'.arguments, Apart (t.withNullable false) a := by
      intro a ha
      have hlt := size_lt_of_mem ha
      have hsize := size_withNullable false t
      exact ih _ (by omega) (ht.withNullable false) (ht'.arguments ha) rfl
    have hright : ∀ a ∈ t.arguments, Apart (t'.withNullable false) a := by
      intro a ha
      have hlt := size_lt_of_mem ha
      have hsize := size_withNullable false t'
      exact ih _ (by omega) (ht'.withNullable false) (ht.arguments ha) rfl
    intro r r' hr hr' he
    have hkind := ht.isArrowed_eq ht' he
    cases hf : t.isArrowed with
    | false =>
      rw [hf] at hkind
      exact ht.apart_of_named ht' hf hkind.symm hbelow r r' hr hr' he
    | true =>
      rw [hf] at hkind
      exact ht.apart_of_arrowed ht' hf hkind.symm hbelow hleft hright r r' hr hr' he

/-- Types that are spelled in the way of one program and written alike are the same. -/
theorem Spelled.eq_of_sourceText (ht : Spelled s t) (ht' : Spelled s t')
    (h : t.sourceText = t'.sourceText) : t = t' := by
  have hnil : Ends [] := by
    intro ch hch
    cases hch
  have hchars : t.chars = t'.chars := by rw [chars, chars, h]
  exact (ht.apart ht' [] [] hnil hnil (by rw [hchars])).1

/-- A class inside another one and a class in a package of that name are written alike. No program
has both spellings. -/
example : (ofName "app.Outer" "Inner").sourceText = (ofName "app" "Outer.Inner").sourceText := by
  decide +kernel

end Wiring.TypeExpr
