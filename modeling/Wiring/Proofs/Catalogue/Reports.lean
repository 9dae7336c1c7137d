import Wiring.Proofs.Catalogue.Levels

/-!
# What is reported while bindings are collected

The diagnostics of a catalogue, described by the findings as a whole: every problem that is found,
and two errors for each binding of a key that is already bound to a member reached in the same way.
The members that bind a key by themselves are listed in the order of collection. The first of them
is the explicit binding of the key, and reports are about the others.
-/

namespace Wiring

section InTurn

variable {α β γ : Type}

/-- What is told of each element of a list in the light of those before it. -/
def inTurn (tell : List α → α → List β) : List α → List α → List β
  | _, [] => []
  | before, a :: rest => tell before a ++ inTurn tell (before ++ [a]) rest

/-- What is told in turn is told of some element, in the light of those before it. -/
theorem mem_inTurn {tell : List α → α → List β} {b : β} {before l : List α} :
    b ∈ inTurn tell before l ↔
      ∃ init a rest, l = init ++ a :: rest ∧ b ∈ tell (before ++ init) a := by
  induction l generalizing before with
  | nil =>
    refine iff_of_false List.not_mem_nil ?_
    rintro ⟨init, a, rest, hl, _⟩
    cases init <;> cases hl
  | cons a l ih =>
    rw [inTurn, List.mem_append, ih]
    constructor
    · rintro (hb | ⟨init, a', rest, rfl, hb⟩)
      · exact ⟨[], a, l, rfl, by rwa [List.append_nil]⟩
      · exact ⟨a :: init, a', rest, rfl, by rwa [List.append_assoc] at hb⟩
    · rintro ⟨init, a', rest, hl, hb⟩
      cases init with
      | nil =>
        cases hl
        rw [List.append_nil] at hb
        exact .inl hb
      | cons a'' init =>
        cases hl
        exact .inr ⟨init, a', rest, rfl, by rwa [List.append_assoc]⟩

/-- What tells the same of every element tells the same in turn. -/
theorem inTurn_congr {tell tell' : List α → α → List β} {l : List α}
    (h : ∀ a ∈ l, ∀ before, tell before a = tell' before a) (before : List α) :
    inTurn tell before l = inTurn tell' before l := by
  induction l generalizing before with
  | nil => rfl
  | cons a l ih =>
    rw [inTurn, inTurn, h a (List.mem_cons_self ..),
      ih (fun a' ha' => h a' (List.mem_cons_of_mem _ ha'))]

/-- What is told in turn may be filtered element by element. -/
theorem filter_inTurn (p : β → Bool) (tell : List α → α → List β) (before l : List α) :
    (inTurn tell before l).filter p
      = inTurn (fun before a => (tell before a).filter p) before l := by
  induction l generalizing before with
  | nil => rfl
  | cons a l ih => rw [inTurn, inTurn, List.filter_append, ih]

/-- Where nothing is told of elements without an image and the images before an element are all
that matters, telling the list is telling the images. -/
theorem inTurn_filterMap (g : α → Option γ) (tell : List γ → γ → List β) (before l : List α) :
    inTurn tell (before.filterMap g) (l.filterMap g)
      = inTurn (fun before a => (g a).elim [] (tell (before.filterMap g))) before l := by
  induction l generalizing before with
  | nil => rfl
  | cons a l ih =>
    rw [inTurn, ← ih, List.filterMap_append]
    cases ha : g a with
    | none => simp [ha]
    | some x => simp [ha, inTurn]

/-- What is told in turn of images is told of the elements that they are images of. -/
theorem inTurn_map (g : α → γ) (tell : List γ → γ → List β) (before l : List α) :
    inTurn tell (before.map g) (l.map g)
      = inTurn (fun before a => tell (before.map g) (g a)) before l := by
  simpa only [List.filterMap_eq_map', Option.elim_some]
    using inTurn_filterMap (fun a => some (g a)) tell before l

end InTurn

namespace Catalogue

/-- What is reported when a finding is entered after those before it. -/
def reported (before : List Finding) : Finding → List Diagnostic
  | .binding key p =>
    (before.filterMap (Finding.provider? key)).head?.elim [] fun first => clash key first p
  | .problem d => [d]
  | _ => []

/-- Entering a finding adds what is reported about it to the diagnostics. -/
theorem Describes.diagnostics_enter {c : Catalogue} {before : List Finding}
    (h : Describes c before) (f : Finding) :
    (c.enter f).diagnostics = c.diagnostics ++ reported before f := by
  cases f with
  | binding key p =>
    have hlookup := h.bindings key
    rw [reported, ← hlookup, Catalogue.enter]
    cases hfirst : c.bindings.lookup key with
    | none => exact (List.append_nil _).symm
    | some first => rfl
  | requirement key p =>
    simp only [Catalogue.enter]
    cases c.requirements.lookup key <;> exact (List.append_nil _).symm
  | owner o => exact (List.append_nil _).symm
  | part b key p => exact (List.append_nil _).symm
  | problem d => rfl

/-- The diagnostics of a catalogue are what is reported about its findings, each in the light of
those before it. -/
theorem diagnostics_ofFindings (component : Classifier) (found : List Finding) :
    (ofFindings component found).diagnostics = inTurn reported [] found := by
  have hgen : ∀ (rest done : List Finding) (c : Catalogue), Describes c done →
      (rest.foldl Catalogue.enter c).diagnostics = c.diagnostics ++ inTurn reported done rest := by
    intro rest
    induction rest with
    | nil =>
      intro done c _
      exact (List.append_nil _).symm
    | cons f rest ih =>
      intro done c h
      rw [List.foldl_cons, ih (done ++ [f]) (c.enter f) (h.enter f), h.diagnostics_enter f,
        List.append_assoc, inTurn]
  exact hgen found [] { component } ⟨rfl, fun _ => rfl, fun _ => rfl, fun _ => rfl, rfl⟩

/-- The reports of a catalogue are those of its findings, each behind the findings before it. -/
theorem mem_diagnostics_ofFindings {component : Classifier} {found : List Finding}
    {d : Diagnostic} :
    d ∈ (ofFindings component found).diagnostics ↔
      ∃ before f after, found = before ++ f :: after ∧ d ∈ reported before f := by
  rw [diagnostics_ofFindings, mem_inTurn]
  rfl

/-- A clash names the later member and then the first. -/
theorem mem_clash_iff {key : Key} {first later : Provider} {d : Diagnostic} :
    d ∈ clash key first later ↔ first.accessor = later.accessor ∧
      (d = .errorAt Code.duplicateBinding ("Cannot provide: " ++ key.displayText)
          later.callable.element
        ∨ d = .errorAt Code.duplicateBinding "as it is already provided"
          first.callable.element) := by
  rw [clash]
  by_cases ha : first.accessor = later.accessor
  · rw [if_pos ha]
    simp only [List.mem_cons, List.not_mem_nil, or_false, ha, true_and]
  · rw [if_neg ha]
    simp only [List.not_mem_nil, ha, false_and]

end Catalogue

namespace Collect

open Catalogue

variable {m : Model} {o : Options} {c : Classifier} {key : Key} {l l' : Level} {f : Callable}

/-- The key that a member of a level binds by itself: that of its result, when it provides a value
that is no contribution, or when the level is a parent, which implements it. -/
def bindsKey (m : Model) (o : Options) (l : Level) (f : Callable) : Option Key :=
  let returns := f.returnsFor m l.component
  let key : Key := ⟨returns, Role.qualifier? o f.annotations⟩
  if Role.isProvides f then
    if f.isPrivate || returns.isUnit || Role.isIntoSet f || Role.isIntoMap f then none
    else some key
  else if Role.isProvider f && l.accessor.isSome then some key
  else none

/-- The members that bind a key by themselves, with their levels, in the order of collection. -/
def binders (m : Model) (o : Options) (c : Classifier) (key : Key) : List (Level × Callable) :=
  (levels m o c).flatMap fun l =>
    ((l.component.allMembers m).filter fun f => bindsKey m o l f = some key).map (l, ·)

/-- The provider that a member of a level is entered as. -/
def providerOf (o : Options) (n : Level × Callable) : Provider :=
  ⟨n.2, n.1.accessor, offerScope o n.1 n.2⟩

/-- The members that bind a key are those of the levels that are offered for it. -/
theorem mem_binders_iff {n : Level × Callable} : n ∈ binders m o c key ↔
    n.1 ∈ levels m o c ∧ n.2 ∈ n.1.component.allMembers m ∧ bindsKey m o n.1 n.2 = some key := by
  simp only [binders, List.mem_flatMap, List.mem_map, List.mem_filter, decide_eq_true_eq]
  constructor
  · rintro ⟨l, hl, f, ⟨hf, hk⟩, rfl⟩
    exact ⟨hl, hf, hk⟩
  · rintro ⟨hl, hf, hk⟩
    exact ⟨n.1, hl, n.2, ⟨hf, hk⟩, rfl⟩

/-- A member that contributes to a collection binds no key by itself. -/
theorem bindsKey_eq_none_of_contributes {b : Builder} (h : contributes m o l f = some (b, key)) :
    bindsKey m o l' f = none := by
  simp only [contributes] at h
  have hp : Role.isProvides f = true := by
    by_contra hp
    simp only [Bool.eq_false_iff.2 hp, Bool.false_and, Bool.false_eq_true, if_false,
      reduceCtorEq] at h
  have hinto : (Role.isIntoSet f || Role.isIntoMap f) = true := by
    by_contra hinto
    obtain ⟨hs, hm⟩ := Bool.or_eq_false_iff.1 (Bool.eq_false_iff.2 hinto)
    simp only [hs, hm, Bool.false_eq_true, if_false, ite_self, reduceCtorEq] at h
  simp only [bindsKey, hp, if_true, Bool.or_assoc, hinto, Bool.or_true]

/-- The value that a member binds by itself is all that is found of it for keys. -/
theorem entries_memberFindings : (memberFindings m o l f).filterMap Finding.entry?
    = (bindsKey m o l f).toList.map (·, providerOf o (l, f)) := by
  have hproblems : (scopeProblems o l f).filterMap Finding.entry? = [] :=
    filterMap_problems (fun _ => rfl) fun x hx => problem_of_mem_scopeProblems hx
  by_cases hp : Role.isProvides f = true
  · have hscope : offerScope o l f = memberScope o l f := by rw [offerScope, if_pos hp]
    rw [memberFindings, if_pos hp, providesFindings]
    simp only [bindsKey, hp, if_true, providerOf, hscope]
    by_cases hprivate : f.isPrivate = true
    · simp [hprivate, Finding.entry?]
    · by_cases hunit : (f.returnsFor m l.component).isUnit = true
      · simp [hprivate, hunit, Finding.entry?]
      · simp only [hprivate, hunit, Bool.false_eq_true, if_false, Bool.false_or,
          List.filterMap_append, hproblems, List.nil_append, contribution]
        by_cases hs : Role.isIntoSet f = true
        · simp [hs, Finding.entry?]
        · by_cases hm : Role.isIntoMap f = true
          · cases ha : pairArguments? (f.returnsFor m l.component) <;>
              simp [hs, hm, Finding.entry?]
          · simp [hs, hm, Finding.entry?]
  · have hscope : offerScope o l f = none := by rw [offerScope, if_neg hp]
    rw [memberFindings, if_neg hp]
    simp only [bindsKey, hp, Bool.false_eq_true, if_false, providerOf, hscope]
    by_cases hr : Role.isProvider f = true
    · cases ha : l.accessor with
      | none => simp [hr, Finding.entry?]
      | some name => simp [hr, Finding.entry?]
    · simp [hr]

/-- A member provides a key exactly if it binds the key. -/
theorem providers_memberFindings : (memberFindings m o l f).filterMap (Finding.provider? key)
    = if bindsKey m o l f = some key then [providerOf o (l, f)] else [] := by
  rw [Finding.filterMap_provider?, entries_memberFindings]
  cases bindsKey m o l f with
  | none => rfl
  | some key' =>
    by_cases hk : key' = key
    · simp [hk]
    · simp [hk]

/-- Going through a list and passing some entries over is going through those that are left. -/
theorem flatMap_ite_singleton {α β : Type} (p : α → Prop) [DecidablePred p] (g : α → β)
    (l : List α) : (l.flatMap fun a => if p a then [g a] else []) = (l.filter p).map g := by
  induction l with
  | nil => rfl
  | cons a l ih =>
    rw [List.flatMap_cons, ih]
    by_cases h : p a <;> simp [h]

/-- The values found for a key are those of its binders, in order. -/
theorem filterMap_provider_findings (m : Model) (o : Options) (c : Classifier) (key : Key) :
    (findings m o c).filterMap (Finding.provider? key)
      = (binders m o c key).map (providerOf o) := by
  rw [filterMap_findings (fun _ => rfl) (fun _ => rfl), binders, List.map_flatMap]
  refine List.flatMap_congr fun l _ => ?_
  simp only [providers_memberFindings, flatMap_ite_singleton, List.map_map]
  rfl

section Problems

variable {d : Diagnostic}

/-- What a member of a level can be found as. -/
inductive FoundAs (o : Options) (l : Level) (f : Callable) : Finding → Prop where
  | problem (message : String) :
      FoundAs o l f (.problem (.errorAt Code.invalidProvides message f.element))
  | part (b : Builder) (key : Key) :
      FoundAs o l f (.part b key ⟨f, l.accessor, memberScope o l f⟩)
  | binding (key : Key) (scope : Option ScopeOwner) :
      FoundAs o l f (.binding key ⟨f, l.accessor, scope⟩)
  | requirement (key : Key) : FoundAs o l f (.requirement key ⟨f, l.accessor, none⟩)

/-- What is wrong with the scope of a member is found as something about the member. -/
theorem foundAs_of_mem_scopeProblems {x : Finding} (h : x ∈ scopeProblems o l f) :
    FoundAs o l f x := by
  rw [scopeProblems] at h
  split at h
  · exact absurd h List.not_mem_nil
  · split at h
    · exact absurd h List.not_mem_nil
    · rw [List.mem_singleton.1 h]
      exact .problem ..

/-- What a member contributes is found as something about the member. -/
theorem foundAs_contribution (t : TypeExpr) : FoundAs o l f (contribution o l f t) := by
  rw [contribution]
  split
  · exact .part ..
  · split
    · split
      · exact .part ..
      · exact .problem ..
    · exact .binding ..

/-- What is found at a member is a problem, or the member with the path of its level. -/
theorem foundAs_of_mem_memberFindings {x : Finding} (h : x ∈ memberFindings m o l f) :
    FoundAs o l f x := by
  rw [memberFindings] at h
  split at h
  · rw [providesFindings] at h
    split at h
    · rw [List.mem_singleton.1 h]
      exact .problem ..
    · split at h
      · rw [List.mem_singleton.1 h]
        exact .problem ..
      · rcases List.mem_append.1 h with h | h
        · exact foundAs_of_mem_scopeProblems h
        · rw [List.mem_singleton.1 h]
          exact foundAs_contribution _
  · split at h
    · dsimp only at h
      split at h
      · rw [List.mem_singleton.1 h]
        exact .requirement _
      · rw [List.mem_singleton.1 h]
        exact .binding ..
    · exact absurd h List.not_mem_nil

/-- A problem of a member is an error at this member. -/
theorem errorAt_of_mem_memberFindings (h : .problem d ∈ memberFindings m o l f) :
    ∃ code message, d = .errorAt code message f.element := by
  cases foundAs_of_mem_memberFindings h with
  | problem message => exact ⟨_, message, rfl⟩

/-- What is wrong with a parameter is an error at the parameter. -/
theorem errorAt_of_mem_paramProblems {p : Param} (h : .problem d ∈ paramProblems p) :
    ∃ message, d = .errorAt Code.invalidComponentParam message p.element := by
  rw [paramProblems] at h
  split at h
  · cases List.mem_singleton.1 h
    exact ⟨_, rfl⟩
  · split at h
    · cases List.mem_singleton.1 h
      exact ⟨_, rfl⟩
    · exact absurd h List.not_mem_nil

/-- What is wrong with the scopes of a component is an error at one of its classes. -/
theorem errorAt_of_mem_scopeFindings {accessor : Option String} {s : Role.ScopeSearch}
    (h : .problem d ∈ scopeFindings accessor s) :
    ∃ message, ∃ a : Classifier, d = .errorAt Code.conflictingScopes message a.element := by
  rw [scopeFindings] at h
  split at h
  · exact absurd h List.not_mem_nil
  · rcases List.mem_append.1 h with h | h
    · obtain ⟨⟨other, otherScope⟩, _, h⟩ := List.mem_flatMap.1 h
      rcases List.mem_cons.1 h with h | h
      · cases h
        exact ⟨_, _, rfl⟩
      · cases List.mem_singleton.1 h
        exact ⟨_, _, rfl⟩
    · cases List.mem_singleton.1 h

/-- Every problem is an error, at a parameter, at a class, or at the member where it is found. -/
theorem errorAt_of_mem_findings (h : .problem d ∈ findings m o c) :
    ∃ code message e, d = .errorAt code message e ∧
      (e.id.kind = .parameter ∨ e.id.kind = .classifier ∨
        ∃ l ∈ levels m o c, ∃ f ∈ l.component.allMembers m,
          e = f.element ∧ .problem d ∈ memberFindings m o l f) := by
  rcases mem_findings_iff.1 h with ⟨n, hn, p, hvia, _, h⟩ | ⟨n, _, a, _, h⟩ | ⟨l, hl, f, hf, h⟩
  · obtain ⟨message, hd⟩ := errorAt_of_mem_paramProblems h
    exact ⟨_, message, _, hd, .inl (Arrival.kind_of_mem_walk hn hvia)⟩
  · obtain ⟨message, a, hd⟩ := errorAt_of_mem_scopeFindings h
    exact ⟨_, message, _, hd, .inr (.inl rfl)⟩
  · obtain ⟨code, message, hd⟩ := errorAt_of_mem_memberFindings h
    exact ⟨code, message, _, hd, .inr (.inr ⟨l, hl, f, hf, rfl, h⟩)⟩

/-- Every problem has the code of a parent parameter, of scopes, or of a providing member. -/
theorem code_of_mem_findings (h : .problem d ∈ findings m o c) :
    d.code ∈ [some Code.invalidComponentParam, some Code.conflictingScopes,
      some Code.invalidProvides] := by
  rcases mem_findings_iff.1 h with ⟨n, _, p, _, _, h⟩ | ⟨n, _, a, _, h⟩ | ⟨l, _, f, _, h⟩
  · obtain ⟨message, rfl⟩ := errorAt_of_mem_paramProblems h
    exact List.mem_cons_self
  · obtain ⟨message, a, rfl⟩ := errorAt_of_mem_scopeFindings h
    exact List.mem_cons_of_mem _ List.mem_cons_self
  · cases foundAs_of_mem_memberFindings h with
    | problem message => exact List.mem_cons_of_mem _ (List.mem_cons_of_mem _ List.mem_cons_self)

/-- What is wrong with the scope of a member does not depend on how its level is reached. -/
theorem scopeProblems_levelAt (a a' : Option String) (p : Classifier) (f : Callable) :
    scopeProblems o (levelAt m o a p) f = scopeProblems o (levelAt m o a' p) f := by
  rw [scopeProblems, scopeProblems]
  cases hs : Role.scope? o f.annotations with
  | none => rfl
  | some scope =>
    simp only [memberScope, hs, levelAt, ownerOf]
    cases (Role.findScope m o p).found with
    | none => rfl
    | some found =>
      by_cases hf : found.2 = scope
      · simp only [Option.map_some, hf, if_true]
      · simp only [Option.map_some, hf, if_false]

/-- A member that is found to be wrong on one level is so on every level. -/
theorem contribution_eq_problem {t : TypeExpr} (h : contribution o l f t = .problem d)
    (l' : Level) : contribution o l' f t = .problem d := by
  rw [contribution] at h ⊢
  by_cases hs : Role.isIntoSet f = true
  · rw [if_pos hs] at h
    cases h
  rw [if_neg hs] at h ⊢
  by_cases hm : Role.isIntoMap f = true
  · rw [if_pos hm] at h ⊢
    cases ha : pairArguments? t with
    | none =>
      rw [ha] at h
      exact h
    | some arguments =>
      rw [ha] at h
      cases h
  · rw [if_neg hm] at h
    cases h

/-- The problems of a member do not depend on how its level is reached. -/
theorem problem_mem_memberFindings_levelAt {a : Option String} {p : Classifier}
    (h : .problem d ∈ memberFindings m o (levelAt m o a p) f) (a' : Option String) :
    .problem d ∈ memberFindings m o (levelAt m o a' p) f := by
  rw [memberFindings] at h ⊢
  by_cases hp : Role.isProvides f = true
  · rw [if_pos hp] at h ⊢
    simp only [providesFindings, levelAt_component, scopeProblems_levelAt a a'] at h ⊢
    by_cases hprivate : f.isPrivate = true
    · simp only [hprivate, if_true] at h ⊢
      exact h
    by_cases hunit : (f.returnsFor m p).isUnit = true
    · simp only [hprivate, hunit, if_true] at h ⊢
      exact h
    · simp only [hprivate, hunit, Bool.false_eq_true, if_false] at h ⊢
      refine List.mem_append.2 ((List.mem_append.1 h).imp_right fun h => ?_)
      have hc := contribution_eq_problem (List.mem_singleton.1 h).symm (levelAt m o a' p)
      exact List.mem_singleton.2 hc.symm
  · rw [if_neg hp] at h
    split at h
    · cases a with
      | none => cases List.mem_singleton.1 h
      | some _ => cases List.mem_singleton.1 h
    · exact absurd h List.not_mem_nil

end Problems

end Collect

namespace Catalogue

open Collect

variable {m : Model} {o : Options} {c : Classifier} {key : Key}

/-- The explicit binding of a key is the first of its binders. -/
theorem lookup_bindings_collect (m : Model) (o : Options) (c : Classifier) (key : Key) :
    (collect m o c).bindings.lookup key = (binders m o c key).head?.map (providerOf o) := by
  rw [(describes_collect m o c).bindings, filterMap_provider_findings, List.head?_map]

/-- A member comes after another one that binds the same key and is reached in the same way, and
what the other one binds is in force. -/
def Rivals (m : Model) (o : Options) (c : Classifier) (key : Key)
    (first later : Level × Callable) : Prop :=
  ∃ before after, binders m o c key = before ++ later :: after ∧ before.head? = some first ∧
    first.1.accessor = later.1.accessor

/-- What is found in a list is found at an entry, behind what is found at those before it. -/
theorem exists_of_filterMap_eq_append {α β : Type} {g : α → Option β} {l : List α}
    {before after : List β} {b : β} (h : l.filterMap g = before ++ b :: after) :
    ∃ init a rest, l = init ++ a :: rest ∧ init.filterMap g = before ∧ g a = some b := by
  obtain ⟨init, rest, rfl, hinit, hrest⟩ := List.filterMap_eq_append_iff.1 h
  obtain ⟨skipped, a, tail, rfl, hskipped, ha, _⟩ := List.filterMap_eq_cons_iff.1 hrest
  refine ⟨init ++ skipped, a, tail, (List.append_assoc ..).symm, ?_, ha⟩
  rw [List.filterMap_append, hinit, List.filterMap_eq_nil_iff.2 hskipped, List.append_nil]

/-- The diagnostics of a catalogue are the problems that are found, and two errors for each binder
that comes second. -/
theorem mem_diagnostics_collect {d : Diagnostic} : d ∈ (collect m o c).diagnostics ↔
    .problem d ∈ findings m o c ∨
      ∃ key first later, Rivals m o c key first later ∧
        d ∈ clash key (providerOf o first) (providerOf o later) := by
  rw [collect, mem_diagnostics_ofFindings]
  constructor
  · rintro ⟨before, x, after, hfound, hd⟩
    have hmem : x ∈ findings m o c := by
      rw [hfound]
      exact List.mem_append_cons_self
    cases x with
    | problem d' =>
      obtain rfl := List.mem_singleton.1 hd
      exact .inl hmem
    | binding key p =>
      -- The providers that are found for a key are those of its binders, in the same order.
      have hall := filterMap_provider_findings m o c key
      have hp : Finding.provider? key (.binding key p) = some p := if_pos rfl
      rw [hfound, List.filterMap_append, List.filterMap_cons_some hp] at hall
      obtain ⟨done, rest, hbinders, hdone, hrest⟩ := List.map_eq_append_iff.1 hall.symm
      obtain ⟨later, rest, rfl, rfl, _⟩ := List.map_eq_cons_iff.1 hrest
      rw [reported, ← hdone, List.head?_map] at hd
      cases hfirst : done.head? with
      | none =>
        rw [hfirst] at hd
        exact absurd hd List.not_mem_nil
      | some first =>
        rw [hfirst] at hd
        have haccessor := (mem_clash_iff.1 hd).1
        exact .inr ⟨key, first, later, ⟨done, rest, hbinders, hfirst, haccessor⟩, hd⟩
    | owner => exact absurd hd List.not_mem_nil
    | part => exact absurd hd List.not_mem_nil
    | requirement => exact absurd hd List.not_mem_nil
  · rintro (hd | ⟨key, first, later, ⟨done, rest, hbinders, hfirst, _⟩, hd⟩)
    · obtain ⟨before, after, hfound⟩ := List.append_of_mem hd
      exact ⟨before, _, after, hfound, List.mem_singleton.2 rfl⟩
    · have hall := filterMap_provider_findings m o c key
      rw [hbinders, List.map_append, List.map_cons] at hall
      obtain ⟨before, x, after, hfound, hbefore, hx⟩ := exists_of_filterMap_eq_append hall
      refine ⟨before, x, after, hfound, ?_⟩
      cases x with
      | binding k p =>
        obtain ⟨rfl, hp⟩ := Option.ite_none_right_eq_some.1 hx
        rw [reported, hbefore, List.head?_map, hfirst, Option.some.inj hp]
        exact hd
      | owner => cases hx
      | part => cases hx
      | requirement => cases hx
      | problem => cases hx

/-- Whatever is reported is an error. -/
theorem isError_of_mem_diagnostics_collect {d : Diagnostic}
    (h : d ∈ (collect m o c).diagnostics) : d.isError = true := by
  rcases mem_diagnostics_collect.1 h with h | ⟨key, first, later, _, h⟩
  · obtain ⟨code, message, e, rfl, _⟩ := errorAt_of_mem_findings h
    rfl
  · obtain ⟨_, rfl | rfl⟩ := mem_clash_iff.1 h
    · rfl
    · rfl

/-- A member is named by a report of two bindings of one key. -/
def Reported (m : Model) (o : Options) (c : Classifier) (f : Callable) : Prop :=
  ∃ d ∈ (collect m o c).diagnostics,
    d.code = some Code.duplicateBinding ∧ d.element = some f.element

/-- The later of two rivals is reported. -/
theorem reported_of_rivals {first later : Level × Callable}
    (h : Rivals m o c key first later) : Reported m o c later.2 := by
  have haccessor : first.1.accessor = later.1.accessor := by
    obtain ⟨_, _, _, _, ha⟩ := h
    exact ha
  have hclash : _ ∈ clash key (providerOf o first) (providerOf o later) :=
    mem_clash_iff.2 ⟨haccessor, .inl rfl⟩
  exact ⟨_, mem_diagnostics_collect.2 (.inr ⟨key, first, later, h, hclash⟩), rfl, rfl⟩

end Catalogue

end Wiring
