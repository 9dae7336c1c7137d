import Mathlib.Data.List.Forall2
import Mathlib.Data.List.Nodup
import Wiring.Proofs.Type.Parts

/-!
# Type parameters replaced at once

A type with all references to some type parameters replaced, by rules that do not look anything up.
Binding the parameters to their arguments and substituting follows the rules. A bare name in the
outcome was in the type, where it is no parameter, or is in an argument.
-/

namespace Wiring.TypeExpr

/-- A type with every reference to a parameter replaced by the argument at the place of the
parameter. A nullable reference makes the argument nullable. Other names, marks, type arguments and
what aliases stand for stay as they are. -/
inductive Filled (params : List String) (args : List TypeExpr) : TypeExpr → TypeExpr → Prop where
  | param {n u q} (h : (n, u) ∈ params.zip args) :
      Filled params args (declared "" n [] q) (if q then u.withNullable true else u)
  | declared {p n as as' q} (h : ¬ (p = "" ∧ as = [] ∧ n ∈ params))
      (has : List.Forall₂ (Filled params args) as as') :
      Filled params args (declared p n as q) (declared p n as' q)
  | aliased {p n as as' q t t'} (has : List.Forall₂ (Filled params args) as as')
      (ht : Filled params args t t') :
      Filled params args (aliased p n as q t) (aliased p n as' q t')

variable {params ps : List String} {args : List TypeExpr} {b : Bindings} {t t' u : TypeExpr}
  {k f : String} {P : String → Prop}

/-! ### Substitution follows the rules -/

/-- Where no name is bound twice, exactly what is bound is looked up. -/
theorem lookup_eq_some_iff_mem {n : String} (h : (b.map Prod.fst).Nodup) :
    b.lookup n = some u ↔ (n, u) ∈ b := by
  induction b with
  | nil => simp only [List.lookup_nil, reduceCtorEq, List.not_mem_nil]
  | cons e b ih =>
    obtain ⟨k, v⟩ := e
    rw [List.map_cons, List.nodup_cons] at h
    rw [List.lookup_cons, List.mem_cons, Prod.mk.injEq]
    by_cases hn : n = k
    · subst hn
      have habsent : (n, u) ∉ b := fun hmem => h.1 (List.mem_map.2 ⟨_, hmem, rfl⟩)
      simp only [BEq.rfl, Option.some.injEq, true_and, habsent, or_false, eq_comm]
    · rw [beq_false_of_ne hn]
      simp only [hn, false_and, false_or, ih h.2]

/-- What is looked up for a parameter is an argument at a place of the parameter. -/
theorem mem_zip_of_lookup {n : String} (h : (params.zip args).reverse.lookup n = some u) :
    (n, u) ∈ params.zip args :=
  List.mem_reverse.1 (mem_of_lookup h)

/-- A parameter is bound to one of the arguments. -/
theorem exists_lookup {n : String} (hl : args.length = params.length) (hn : n ∈ params) :
    ∃ u ∈ args, (params.zip args).reverse.lookup n = some u := by
  cases hu : (params.zip args).reverse.lookup n with
  | some u => exact ⟨u, (List.of_mem_zip (mem_zip_of_lookup hu)).2, rfl⟩
  | none =>
    rw [← List.map_fst_zip (Nat.le_of_eq hl.symm)] at hn
    obtain ⟨⟨_, u⟩, hpair, rfl⟩ := List.mem_map.1 hn
    have habsent := List.lookup_eq_none_iff.1 hu _ (List.mem_reverse.2 hpair)
    simp only [bne_self_eq_false, Bool.false_eq_true] at habsent

/-- What distinct parameters are bound to by their arguments. -/
theorem lookup_bound (hn : params.Nodup) (hl : args.length = params.length) (n : String) :
    (∀ u, (params.zip args).reverse.lookup n = some u ↔ (n, u) ∈ params.zip args) ∧
      ((params.zip args).reverse.lookup n = none ↔ n ∉ params) := by
  have hnodup : ((params.zip args).reverse.map Prod.fst).Nodup := by
    rw [List.map_reverse, List.map_fst_zip (Nat.le_of_eq hl.symm)]
    exact List.nodup_reverse.2 hn
  have hsome : ∀ u, (params.zip args).reverse.lookup n = some u ↔ (n, u) ∈ params.zip args := by
    intro u
    rw [lookup_eq_some_iff_mem hnodup, List.mem_reverse]
  refine ⟨hsome, fun hnone hmem => ?_, fun habsent => ?_⟩
  · obtain ⟨u, _, hu⟩ := exists_lookup hl hmem
    cases hnone.symm.trans hu
  · refine Option.eq_none_iff_forall_ne_some.2 fun u hu => ?_
    exact habsent (List.of_mem_zip (mem_zip_of_lookup hu)).1

mutual

/-- Substituting arguments for different parameters fills the type. -/
theorem filled_substitute (hn : params.Nodup) (hl : args.length = params.length) :
    ∀ t : TypeExpr, Filled params args t (t.substitute (params.zip args).reverse)
  | .declared p n as q => by
    obtain ⟨hsome, hnone⟩ := lookup_bound hn hl n
    rcases substitute_declared (params.zip args).reverse p n as q with
      ⟨rfl, rfl, u, hu, hbound⟩ | ⟨hfree, hkept⟩
    · rw [hbound]
      exact .param ((hsome u).1 hu)
    · rw [hkept]
      exact .declared (fun h => hnone.1 (hfree h.1 h.2.1) h.2.2) (filled_substituteList hn hl as)
  | .aliased p n as q t => by
    rw [substitute]
    exact .aliased (filled_substituteList hn hl as) (filled_substitute hn hl t)

/-- Substituting arguments for different parameters fills types one by one. -/
theorem filled_substituteList (hn : params.Nodup) (hl : args.length = params.length) :
    ∀ ts : List TypeExpr,
      List.Forall₂ (Filled params args) ts (substituteList (params.zip args).reverse ts)
  | [] => .nil
  | t :: ts => .cons (filled_substitute hn hl t) (filled_substituteList hn hl ts)

end

mutual

/-- The rules leave no choice. -/
theorem Filled.unique (hn : params.Nodup) (hl : args.length = params.length) :
    ∀ {t t' u : TypeExpr}, Filled params args t t' → Filled params args t u → t' = u
  | .declared _ _ _ _, _, _, .param h, .param h' => by
    obtain ⟨hsome, _⟩ := lookup_bound hn hl _
    have hu := (hsome _).2 h
    rw [(hsome _).2 h'] at hu
    rw [Option.some.inj hu]
  | .declared _ _ _ _, _, _, .param h, .declared h' _ =>
    absurd ⟨rfl, rfl, (List.of_mem_zip h).1⟩ h'
  | .declared _ _ _ _, _, _, .declared h _, .param h' =>
    absurd ⟨rfl, rfl, (List.of_mem_zip h').1⟩ h
  | .declared _ _ _ _, _, _, .declared _ has, .declared _ has' => by
    rw [Filled.uniqueList hn hl has has']
  | .aliased _ _ _ _ _, _, _, .aliased has ht, .aliased has' ht' => by
    rw [Filled.uniqueList hn hl has has', Filled.unique hn hl ht ht']

/-- Types one after the other are filled in one way only. -/
theorem Filled.uniqueList (hn : params.Nodup) (hl : args.length = params.length) :
    ∀ {ts ts' us : List TypeExpr}, List.Forall₂ (Filled params args) ts ts' →
      List.Forall₂ (Filled params args) ts us → ts' = us
  | [], _, _, .nil, .nil => rfl
  | _ :: _, _, _, .cons h hs, .cons h' hs' => by
    rw [Filled.unique hn hl h h', Filled.uniqueList hn hl hs hs']

end

/-- Substitution of the arguments that distinct parameters are bound to replaces them all at
once. -/
theorem filled_iff (hn : params.Nodup) (hl : args.length = params.length) :
    Filled params args t t' ↔ t' = t.substitute (params.zip args).reverse :=
  ⟨fun h => h.unique hn hl (filled_substitute hn hl t), fun h => h ▸ filled_substitute hn hl t⟩

/-! ### Bare names -/

/-- A bare name is written in a type. -/
def Mentions (t : TypeExpr) (n : String) : Prop := ∃ q, declared "" n [] q ∈ t.parts

/-- The bare names in a type are parameters or have a property. -/
def ScopedIn (params : List String) (P : String → Prop) (t : TypeExpr) : Prop :=
  ∀ n, t.Mentions n → n ∈ params ∨ P n

/-- A declared type mentions a name if it is the bare name, or if an argument mentions it. -/
theorem mentions_declared_iff {p k n : String} {as : List TypeExpr} {q : Bool} :
    (declared p k as q).Mentions n ↔ (p = "" ∧ k = n ∧ as = []) ∨ ∃ a ∈ as, a.Mentions n := by
  simp only [Mentions, parts, List.mem_cons, mem_partsList, declared.injEq]
  constructor
  · rintro ⟨q', ⟨rfl, rfl, rfl, -⟩ | ⟨a, ha, hn⟩⟩
    · exact .inl ⟨rfl, rfl, rfl⟩
    · exact .inr ⟨a, ha, q', hn⟩
  · rintro (⟨rfl, rfl, rfl⟩ | ⟨a, ha, q', hn⟩)
    · exact ⟨q, .inl ⟨rfl, rfl, rfl, rfl⟩⟩
    · exact ⟨q', .inr ⟨a, ha, hn⟩⟩

/-- An alias mentions a name if an argument does, or what it stands for. -/
theorem mentions_aliased_iff {p k n : String} {as : List TypeExpr} {q : Bool} :
    (aliased p k as q t).Mentions n ↔ (∃ a ∈ as, a.Mentions n) ∨ t.Mentions n := by
  simp only [Mentions, parts, List.mem_cons, List.mem_append, mem_partsList, reduceCtorEq, false_or]
  constructor
  · rintro ⟨q', ⟨a, ha, hn⟩ | hn⟩
    · exact .inl ⟨a, ha, q', hn⟩
    · exact .inr ⟨q', hn⟩
  · rintro (⟨a, ha, q', hn⟩ | ⟨q', hn⟩)
    · exact ⟨q', .inl ⟨a, ha, hn⟩⟩
    · exact ⟨q', .inr hn⟩

/-- A nullable mark changes nothing about what is mentioned. -/
theorem mentions_withNullable_iff {n : String} {q : Bool} :
    (t.withNullable q).Mentions n ↔ t.Mentions n := by
  cases t with
  | declared p k as q' => rw [withNullable, mentions_declared_iff, mentions_declared_iff]
  | aliased p k as q' t => rw [withNullable, mentions_aliased_iff, mentions_aliased_iff]

mutual

/-- A bare name that a mentioned name is bound to is mentioned afterwards. -/
theorem Mentions.substitute {q : Bool} (hk : b.lookup k = some (declared "" f [] q)) :
    ∀ {t : TypeExpr}, t.Mentions k → (t.substitute b).Mentions f
  | .declared p n as r, h => by
    rcases substitute_declared b p n as r with ⟨rfl, rfl, u, hu, hbound⟩ | ⟨hfree, hkept⟩
    · rcases mentions_declared_iff.1 h with ⟨_, rfl, _⟩ | ⟨a, ha, _⟩
      · rw [hk] at hu
        cases hu
        rw [hbound]
        cases r <;> exact ⟨_, List.mem_cons_self ..⟩
      · exact absurd ha List.not_mem_nil
    · rw [hkept]
      rcases mentions_declared_iff.1 h with ⟨hp, rfl, has⟩ | ⟨a, ha, hak⟩
      · rw [hfree hp has] at hk
        cases hk
      · exact mentions_declared_iff.2 (.inr (Mentions.substituteList hk ha hak))
  | .aliased p n as r t, h => by
    rw [TypeExpr.substitute]
    rcases mentions_aliased_iff.1 h with ⟨a, ha, hak⟩ | ht
    · exact mentions_aliased_iff.2 (.inl (Mentions.substituteList hk ha hak))
    · exact mentions_aliased_iff.2 (.inr (Mentions.substitute hk ht))

/-- A name put for another one is mentioned where that was, in one of the types. -/
theorem Mentions.substituteList {q : Bool} (hk : b.lookup k = some (declared "" f [] q)) :
    ∀ {ts : List TypeExpr} {t : TypeExpr}, t ∈ ts → t.Mentions k →
      ∃ u ∈ TypeExpr.substituteList b ts, u.Mentions f
  | t :: ts, _, .head _, h => ⟨_, List.mem_cons_self .., Mentions.substitute hk h⟩
  | t :: ts, _, .tail _ ht, h => by
    obtain ⟨u, hu, hf⟩ := Mentions.substituteList hk ht h
    exact ⟨u, List.mem_cons_of_mem _ hu, hf⟩

end

/-! ### Parameters that stand for themselves -/

mutual

/-- Nothing changes where the names in a type are bound to themselves at most. -/
theorem substitute_self : ∀ t : TypeExpr,
    (∀ n, t.Mentions n → ∀ u, b.lookup n = some u → u = declared "" n [] false) →
      t.substitute b = t
  | .declared p n as q, hb => by
    rcases substitute_declared b p n as q with ⟨rfl, rfl, u, hu, hbound⟩ | ⟨_, hkept⟩
    · rw [hbound, hb n (mentions_declared_iff.2 (.inl ⟨rfl, rfl, rfl⟩)) u hu]
      cases q <;> rfl
    · rw [hkept, substituteList_self as fun a ha k hk =>
        hb k (mentions_declared_iff.2 (.inr ⟨a, ha, hk⟩))]
  | .aliased p n as q t, hb => by
    rw [substitute, substituteList_self as fun a ha k hk =>
        hb k (mentions_aliased_iff.2 (.inl ⟨a, ha, hk⟩)),
      substitute_self t fun k hk => hb k (mentions_aliased_iff.2 (.inr hk))]

/-- Putting names for themselves leaves types as they are. -/
theorem substituteList_self : ∀ ts : List TypeExpr,
    (∀ t ∈ ts, ∀ n, t.Mentions n → ∀ u, b.lookup n = some u → u = declared "" n [] false) →
      substituteList b ts = ts
  | [], _ => rfl
  | t :: ts, hb => by
    obtain ⟨ht, hts⟩ := List.forall_mem_cons.1 hb
    rw [substituteList, substitute_self t ht, substituteList_self ts hts]

end

/-- Where nothing is bound nothing is replaced. -/
theorem substitute_nil (t : TypeExpr) : t.substitute [] = t :=
  substitute_self t fun _ _ _ hu => (nomatch hu)

/-- Type parameters as arguments for themselves. -/
def ownArguments (params : List String) : List TypeExpr :=
  params.map fun n => declared "" n [] false

/-- There is one argument for each type parameter. -/
theorem length_ownArguments : (ownArguments params).length = params.length := List.length_map _

/-- A type parameter has its own name for an argument. -/
theorem getElem_ownArguments {i : Nat} (h : i < (ownArguments params).length)
    (hi : i < params.length) : (ownArguments params)[i] = declared "" params[i] [] false :=
  List.getElem_map ..

/-- The arguments are different exactly if the type parameters are. -/
theorem nodup_ownArguments_iff : (ownArguments params).Nodup ↔ params.Nodup := by
  refine ⟨fun h => h.of_map _, fun h => h.map fun _ _ heq => ?_⟩
  cases heq
  rfl

/-- Replacing distinct parameters by themselves changes nothing. -/
theorem filled_ownArguments_iff (hn : params.Nodup) :
    Filled params (ownArguments params) t t' ↔ t' = t := by
  rw [filled_iff hn length_ownArguments, substitute_self t]
  intro n _ u hu
  have hmem := ((lookup_bound hn length_ownArguments n).1 u).1 hu
  rw [ownArguments, ← List.map_prod_left_eq_zip] at hmem
  obtain ⟨k, _, hpair⟩ := List.mem_map.1 hmem
  obtain ⟨rfl, rfl⟩ := Prod.mk.inj hpair
  rfl

/-- The arguments come out of the parameters. -/
theorem map_substitute_ownArguments (hn : params.Nodup) (hl : args.length = params.length) :
    (ownArguments params).map (substitute (params.zip args).reverse) = args := by
  have hlength : ((ownArguments params).map (substitute (params.zip args).reverse)).length
      = args.length := by
    rw [List.length_map, length_ownArguments, hl]
  refine List.ext_getElem hlength fun i _ hi => ?_
  have hp : i < params.length := hl ▸ hi
  have hzip : i < (params.zip args).length := by
    rw [List.length_zip]
    exact Nat.lt_min.2 ⟨hp, hi⟩
  have hmem : (params[i], args[i]) ∈ params.zip args := by
    rw [← List.getElem_zip (h := hzip)]
    exact List.getElem_mem hzip
  rw [List.getElem_map, getElem_ownArguments _ hp]
  exact ((filled_iff hn hl).1 (.param hmem)).symm

/-- Type parameters as arguments mention nothing but type parameters. -/
theorem scopedIn_ownArguments (hu : u ∈ ownArguments params) : u.ScopedIn params P := by
  obtain ⟨k, hk, rfl⟩ := List.mem_map.1 hu
  intro n hn
  rcases mentions_declared_iff.1 hn with ⟨_, rfl, _⟩ | ⟨a, ha, _⟩
  · exact .inl hk
  · exact absurd ha List.not_mem_nil

mutual

/-- Names that are parameters where a type is written are gone from it once the parameters are
replaced, and what comes in comes from the arguments. -/
theorem Filled.scopedIn (hargs : ∀ a ∈ args, a.ScopedIn ps P) :
    ∀ {t t' : TypeExpr}, Filled params args t t' → t.ScopedIn params P → t'.ScopedIn ps P
  | .declared _ k _ _, _, .param (u := u) (q := q) h, _ => by
    intro n hn
    have hmention : u.Mentions n := by
      cases q with
      | true => exact mentions_withNullable_iff.1 hn
      | false => exact hn
    exact hargs u (List.of_mem_zip h).2 n hmention
  | .declared p k as q, .declared _ _ as' _, .declared h has, ht => by
    intro n hn
    rcases mentions_declared_iff.1 hn with ⟨rfl, rfl, rfl⟩ | ⟨a, ha, hna⟩
    · obtain rfl := List.forall₂_nil_right_iff.1 has
      rcases ht k (mentions_declared_iff.2 (.inl ⟨rfl, rfl, rfl⟩)) with hk | hk
      · exact absurd ⟨rfl, rfl, hk⟩ h
      · exact .inr hk
    · refine Filled.scopedInList hargs has (fun a ha k hk => ?_) a ha n hna
      exact ht k (mentions_declared_iff.2 (.inr ⟨a, ha, hk⟩))
  | .aliased p k as q t, _, .aliased has ht', ht => by
    intro n hn
    rcases mentions_aliased_iff.1 hn with ⟨a, ha, hna⟩ | hnt
    · refine Filled.scopedInList hargs has (fun a ha k hk => ?_) a ha n hna
      exact ht k (mentions_aliased_iff.2 (.inl ⟨a, ha, hk⟩))
    · refine Filled.scopedIn hargs ht' (fun k hk => ?_) n hnt
      exact ht k (mentions_aliased_iff.2 (.inr hk))

/-- Types filled with arguments are in the scope of the arguments, one by one. -/
theorem Filled.scopedInList (hargs : ∀ a ∈ args, a.ScopedIn ps P) :
    ∀ {ts ts' : List TypeExpr}, List.Forall₂ (Filled params args) ts ts' →
      (∀ t ∈ ts, t.ScopedIn params P) → ∀ t ∈ ts', t.ScopedIn ps P
  | [], _, .nil, _ => fun t ht => absurd ht List.not_mem_nil
  | _ :: _, _, .cons h hs, hts => by
    obtain ⟨ht, hrest⟩ := List.forall_mem_cons.1 hts
    exact List.forall_mem_cons.2
      ⟨Filled.scopedIn hargs h ht, Filled.scopedInList hargs hs hrest⟩

end

end Wiring.TypeExpr
