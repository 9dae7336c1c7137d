import Mathlib.Data.List.Basic
import Wiring.Catalogue.Collect
import Wiring.Proofs.Catalogue.Entries
import Wiring.Proofs.Model.Walks

/-!
# Where bindings are collected

The component levels that a catalogue is collected from, and what their members offer: the value
of a key, or a contribution to a collection. Every provider of a catalogue is a member of a level
that offers its key, a collection has exactly the contributing members of all levels in the order
of collection, and every scope recorded for either is owned by a level in reach.
-/

namespace Wiring

namespace Collect

/-- The levels gone through, each at the first arrival at its component. -/
def levels (m : Model) (o : Options) (c : Classifier) : List Level :=
  (Arrival.walk m c).flatMap fun (a, isNew) =>
    match a.component with
    | none => []
    | some d =>
      if isNew then [⟨d, a.accessor, ownerOf a.accessor (Role.findScope m o d)⟩] else []

/-- The owners of scopes in reach, one for each arrival at a component that has a scope. -/
def scopeOwners (m : Model) (o : Options) (c : Classifier) : List ScopeOwner :=
  (Arrival.walk m c).filterMap fun n =>
    n.1.component.bind fun d => ownerOf n.1.accessor (Role.findScope m o d)

/-- The member `f` of a level offers the value of a key by itself: it provides it, or the level
implements it. -/
structure Offers (m : Model) (o : Options) (l : Level) (f : Callable) (key : Key) : Prop where
  member : f ∈ l.component.allMembers m
  returns : f.returnsFor m l.component = key.type
  qualifier : Role.qualifier? o f.annotations = key.qualifier
  role : Role.isProvides f = true ∧ Role.isIntoSet f = false ∧ Role.isIntoMap f = false
    ∨ Role.isProvider f = true

/-- The owner of the cache that the value offered by a member is kept in: that of the scope on a
member that provides it, if its level owns that scope. -/
def offerScope (o : Options) (l : Level) (f : Callable) : Option ScopeOwner :=
  if Role.isProvides f then memberScope o l f else none

/-- The collection that a member of a level contributes to: a set of its result type, or a map of
the two arguments of the pair type it returns. -/
def contributes (m : Model) (o : Options) (l : Level) (f : Callable) : Option (Builder × Key) :=
  let returns := f.returnsFor m l.component
  let qualifier := Role.qualifier? o f.annotations
  if Role.isProvides f && !f.isPrivate && !returns.isUnit then
    if Role.isIntoSet f then some (.setOf, ⟨.known .set [returns], qualifier⟩)
    else if Role.isIntoMap f then
      (pairArguments? returns).map fun arguments => (.mapOf, ⟨.known .map arguments, qualifier⟩)
    else none
  else none

/-- The members that contribute to the collection of a key, with their levels, in the order of
collection. -/
def contributors (m : Model) (o : Options) (c : Classifier) (b : Builder) (key : Key) :
    List (Level × Callable) :=
  (levels m o c).flatMap fun l =>
    ((l.component.allMembers m).filter fun f => contributes m o l f = some (b, key)).map (l, ·)

/-- A member is cached by its own level only. -/
theorem scope_of_memberScope {o : Options} {l : Level} {f : Callable} {owner : ScopeOwner}
    (h : memberScope o l f = some owner) : l.scope = some owner := by
  rw [memberScope] at h
  split at h
  · next hl =>
    split at h
    · rw [hl, h]
    · cases h
  · cases h

/-- Whatever is found about the scope of a member is a problem. -/
theorem problem_of_mem_scopeProblems {o : Options} {l : Level} {f : Callable} {x : Finding}
    (h : x ∈ scopeProblems o l f) : ∃ d, x = .problem d := by
  rw [scopeProblems] at h
  split at h
  · exact absurd h List.not_mem_nil
  · split at h
    · exact absurd h List.not_mem_nil
    · exact ⟨_, List.mem_singleton.1 h⟩

/-- Whatever is found about a component parameter is a problem. -/
theorem problem_of_mem_paramProblems {p : Param} {x : Finding} (h : x ∈ paramProblems p) :
    ∃ d, x = .problem d := by
  rw [paramProblems] at h
  split at h
  · exact ⟨_, List.mem_singleton.1 h⟩
  · split at h
    · exact ⟨_, List.mem_singleton.1 h⟩
    · exact absurd h List.not_mem_nil

section Findings

variable {m : Model} {o : Options} {c : Classifier} {β : Type} {g : Finding → Option β}

/-- What passes problems over selects nothing among problems. -/
theorem filterMap_problems (hp : ∀ d, g (.problem d) = none) {found : List Finding}
    (h : ∀ x ∈ found, ∃ d, x = .problem d) : found.filterMap g = [] := by
  refine List.filterMap_eq_nil_iff.2 fun x hx => ?_
  obtain ⟨d, rfl⟩ := h x hx
  exact hp d

/-- The search for a scope finds problems and then the owner, if there is one. -/
theorem filterMap_scopeFindings (hp : ∀ d, g (.problem d) = none) (accessor : Option String)
    (s : Role.ScopeSearch) :
    (scopeFindings accessor s).filterMap g = ((ownerOf accessor s).bind (g ∘ .owner)).toList := by
  rw [scopeFindings, ownerOf]
  cases s.found with
  | none => rfl
  | some found =>
    obtain ⟨d, scope⟩ := found
    dsimp only
    rw [List.filterMap_append, filterMap_problems hp, List.nil_append, Option.map_some,
      Option.bind_some]
    · cases hg : g (.owner ⟨d, accessor, scope⟩) <;> simp [hg]
    · intro x hx
      obtain ⟨conflict, _, hx⟩ := List.mem_flatMap.1 hx
      rcases List.mem_cons.1 hx with rfl | hx
      · exact ⟨_, rfl⟩
      · exact ⟨_, List.mem_singleton.1 hx⟩

/-- An arrival finds what is wrong with its parameter, what is wrong with the scopes of its
component, and the members of the component where it is entered. -/
theorem arrivalFindings_eq (n : Arrival × Bool) : arrivalFindings m o n
    = (n.1.via.elim [] fun p => if n.1.fromStart then paramProblems p else [])
      ++ n.1.component.elim [] fun d =>
          scopeFindings n.1.accessor (Role.findScope m o d)
            ++ if n.2 then
                levelFindings m o ⟨d, n.1.accessor, ownerOf n.1.accessor (Role.findScope m o d)⟩
              else [] := by
  obtain ⟨⟨via, fromStart, component, accessor⟩, isNew⟩ := n
  cases via <;> cases component <;> rfl

/-- At an arrival at a component its scope is found, and its members when it is new. -/
theorem filterMap_arrivalFindings (hp : ∀ d, g (.problem d) = none) (n : Arrival × Bool) :
    (arrivalFindings m o n).filterMap g = n.1.component.elim [] fun d =>
      let scope := ownerOf n.1.accessor (Role.findScope m o d)
      (scope.bind (g ∘ .owner)).toList
        ++ if n.2 then (levelFindings m o ⟨d, n.1.accessor, scope⟩).filterMap g else [] := by
  have hvia : (n.1.via.elim [] fun p =>
      if n.1.fromStart then paramProblems p else []).filterMap g = [] := by
    cases n.1.via with
    | none => rfl
    | some p =>
      cases n.1.fromStart with
      | false => rfl
      | true => exact filterMap_problems hp fun _ => problem_of_mem_paramProblems
  rw [arrivalFindings_eq, List.filterMap_append, hvia, List.nil_append]
  cases n.1.component with
  | none => rfl
  | some d =>
    dsimp only [Option.elim]
    rw [List.filterMap_append, filterMap_scopeFindings hp]
    cases n.2 <;> rfl

/-- Findings other than owners and problems are found level by level and member by member. -/
theorem filterMap_findings (ho : ∀ x, g (.owner x) = none) (hp : ∀ d, g (.problem d) = none) :
    (findings m o c).filterMap g = (levels m o c).flatMap fun l =>
      (l.component.allMembers m).flatMap fun f => (memberFindings m o l f).filterMap g := by
  rw [findings, List.filterMap_flatMap, levels, List.flatMap_assoc]
  refine List.flatMap_congr fun n _ => ?_
  rw [filterMap_arrivalFindings hp]
  obtain ⟨⟨via, fromStart, component, accessor⟩, isNew⟩ := n
  cases component with
  | none => rfl
  | some d =>
    have hnone : (ownerOf accessor (Role.findScope m o d)).bind (g ∘ .owner) = none := by
      cases ownerOf accessor (Role.findScope m o d) with
      | none => rfl
      | some owner => exact ho owner
    dsimp only [Option.elim]
    rw [hnone, Option.toList_none, List.nil_append]
    cases isNew with
    | false => rfl
    | true =>
      simp only [if_true, levelFindings, List.filterMap_flatMap, List.flatMap_cons,
        List.flatMap_nil, List.append_nil]

/-- What a member of a level adds to a catalogue beside problems. -/
inductive Adds (m : Model) (o : Options) (l : Level) (f : Callable) : Option Finding → Prop where
  | nothing (h : contributes m o l f = none) : Adds m o l f none
  | part {b : Builder} {key : Key} (h : contributes m o l f = some (b, key)) :
      Adds m o l f (some (.part b key ⟨f, l.accessor, memberScope o l f⟩))
  | binding {key : Key} (h : contributes m o l f = none) (hk : Offers m o l f key) :
      Adds m o l f (some (.binding key ⟨f, l.accessor, offerScope o l f⟩))
  | requirement {key : Key} (h : contributes m o l f = none) (hk : Offers m o l f key)
      (ha : l.accessor = none) :
      Adds m o l f (some (.requirement key ⟨f, l.accessor, offerScope o l f⟩))

/-- A providing member that is neither private nor without a value adds its value or its
contribution. -/
theorem adds_contribution {l : Level} {f : Callable} (hf : f ∈ l.component.allMembers m)
    (hp : Role.isProvides f = true) (hprivate : f.isPrivate = false)
    (hunit : (f.returnsFor m l.component).isUnit = false) :
    (∃ d, contribution o l f (f.returnsFor m l.component) = .problem d ∧
        contributes m o l f = none)
      ∨ Adds m o l f (some (contribution o l f (f.returnsFor m l.component))) := by
  have hc : contributes m o l f =
      if Role.isIntoSet f then
        some (.setOf, ⟨.known .set [f.returnsFor m l.component], Role.qualifier? o f.annotations⟩)
      else if Role.isIntoMap f then
        (pairArguments? (f.returnsFor m l.component)).map fun arguments =>
          (.mapOf, ⟨.known .map arguments, Role.qualifier? o f.annotations⟩)
      else none := by
    simp only [contributes, hp, hprivate, hunit, Bool.not_false, Bool.and_self, if_true]
  rw [contribution]
  by_cases hs : Role.isIntoSet f = true
  · rw [if_pos hs] at hc ⊢
    exact .inr (.part hc)
  · rw [if_neg hs] at hc ⊢
    by_cases hm : Role.isIntoMap f = true
    · rw [if_pos hm] at hc ⊢
      cases ha : pairArguments? (f.returnsFor m l.component) with
      | none =>
        rw [ha] at hc
        exact .inl ⟨_, rfl, hc⟩
      | some arguments =>
        rw [ha] at hc
        exact .inr (.part hc)
    · rw [if_neg hm] at hc ⊢
      have hk : Offers m o l f ⟨f.returnsFor m l.component, Role.qualifier? o f.annotations⟩ :=
        ⟨hf, rfl, rfl, .inl ⟨hp, by simpa using hs, by simpa using hm⟩⟩
      have hscope : memberScope o l f = offerScope o l f := by rw [offerScope, if_pos hp]
      rw [hscope]
      exact .inr (.binding hc hk)

/-- At a member of a level some problems are found, and then at most one thing that it adds. -/
theorem memberFindings_eq {l : Level} {f : Callable} (hf : f ∈ l.component.allMembers m) :
    ∃ problems x, memberFindings m o l f = problems ++ x.toList ∧
      (∀ y ∈ problems, ∃ d, y = .problem d) ∧ Adds m o l f x := by
  by_cases hp : Role.isProvides f = true
  · rw [memberFindings, if_pos hp, providesFindings]
    by_cases hprivate : f.isPrivate = true
    · rw [if_pos hprivate]
      refine ⟨_, none, (List.append_nil _).symm, fun y hy => ⟨_, List.mem_singleton.1 hy⟩,
        .nothing ?_⟩
      simp only [contributes, hprivate, Bool.not_true, Bool.and_false, Bool.false_and,
        Bool.false_eq_true, if_false]
    · rw [if_neg hprivate]
      by_cases hunit : (f.returnsFor m l.component).isUnit = true
      · rw [if_pos hunit]
        refine ⟨_, none, (List.append_nil _).symm, fun y hy => ⟨_, List.mem_singleton.1 hy⟩,
          .nothing ?_⟩
        simp only [contributes, hunit, Bool.not_true, Bool.and_false, Bool.false_eq_true, if_false]
      · rw [if_neg hunit]
        rcases adds_contribution (o := o) hf hp (by simpa using hprivate) (by simpa using hunit)
          with ⟨d, hd, hc⟩ | hadds
        · refine ⟨_, none, (List.append_nil _).symm, fun y hy => ?_, .nothing hc⟩
          rcases List.mem_append.1 hy with hy | hy
          · exact problem_of_mem_scopeProblems hy
          · exact ⟨d, (List.mem_singleton.1 hy).trans hd⟩
        · exact ⟨_, some _, rfl, fun y hy => problem_of_mem_scopeProblems hy, hadds⟩
  · have hc : contributes m o l f = none := by
      simp only [contributes, hp, Bool.false_and, Bool.false_eq_true, if_false]
    rw [memberFindings, if_neg hp]
    by_cases hr : Role.isProvider f = true
    · rw [if_pos hr]
      have hk : Offers m o l f ⟨f.returnsFor m l.component, Role.qualifier? o f.annotations⟩ :=
        ⟨hf, rfl, rfl, .inr hr⟩
      have hscope : none = offerScope o l f := by rw [offerScope, if_neg hp]
      have hnone : ∀ y ∈ ([] : List Finding), ∃ d, y = .problem d := fun y hy =>
        absurd hy List.not_mem_nil
      dsimp only
      rw [hscope]
      cases ha : l.accessor with
      | none =>
        refine ⟨[], some _, rfl, hnone, ?_⟩
        rw [← ha]
        exact .requirement hc hk ha
      | some name =>
        refine ⟨[], some _, rfl, hnone, ?_⟩
        rw [← ha]
        exact .binding hc hk
    · rw [if_neg hr]
      exact ⟨[], none, rfl, fun y hy => absurd hy List.not_mem_nil, .nothing hc⟩

/-- Whatever is found other than owners and problems, a member of a level adds it. -/
theorem exists_adds_of_mem_filterMap (ho : ∀ x, g (.owner x) = none)
    (hp : ∀ d, g (.problem d) = none) {b : β} (h : b ∈ (findings m o c).filterMap g) :
    ∃ l ∈ levels m o c, ∃ f ∈ l.component.allMembers m, ∃ x, Adds m o l f (some x) ∧
      g x = some b := by
  rw [filterMap_findings ho hp] at h
  obtain ⟨l, hl, h⟩ := List.mem_flatMap.1 h
  obtain ⟨f, hf, h⟩ := List.mem_flatMap.1 h
  obtain ⟨x, hx, hb⟩ := List.mem_filterMap.1 h
  obtain ⟨problems, y, he, hproblems, hadds⟩ := memberFindings_eq (o := o) hf
  rw [he] at hx
  rcases List.mem_append.1 hx with hx | hx
  · obtain ⟨d, rfl⟩ := hproblems x hx
    rw [hp] at hb
    cases hb
  · rw [Option.mem_toList.1 hx] at hadds
    exact ⟨l, hl, f, hf, x, hadds, hb⟩

/-- The key of a collection tells what it is made by. -/
theorem builder_unique {l l' : Level} {f f' : Callable} {b b' : Builder} {key : Key}
    (h : contributes m o l f = some (b, key)) (h' : contributes m o l' f' = some (b', key)) :
    b = b' := by
  have hof : ∀ {l : Level} {f : Callable} {b : Builder}, contributes m o l f = some (b, key) →
      (b = .setOf ∧ key.type.name = "Set") ∨ (b = .mapOf ∧ key.type.name = "Map") := by
    intro l f b h
    simp only [contributes] at h
    split at h
    · split at h
      · cases h
        exact .inl ⟨rfl, rfl⟩
      · split at h
        · obtain ⟨arguments, _, he⟩ := Option.map_eq_some_iff.1 h
          cases he
          exact .inr ⟨rfl, rfl⟩
        · cases h
    · cases h
  rcases hof h with ⟨rfl, hn⟩ | ⟨rfl, hn⟩ <;> rcases hof h' with ⟨rfl, hn'⟩ | ⟨rfl, hn'⟩
  · rfl
  · rw [hn] at hn'
    exact absurd hn' (by decide)
  · rw [hn] at hn'
    exact absurd hn' (by decide)
  · rfl

/-- The contribution of a member to a collection, if it makes one, is all that is found of it
there. -/
theorem parts_memberFindings {l : Level} {f : Callable} {b : Builder} {key : Key}
    (hf : f ∈ l.component.allMembers m) (hb : ∀ b', contributes m o l f = some (b', key) → b' = b) :
    (memberFindings m o l f).filterMap (Finding.part? key)
      = if contributes m o l f = some (b, key) then
          [(b, ⟨f, l.accessor, memberScope o l f⟩)] else [] := by
  obtain ⟨problems, x, he, hproblems, hadds⟩ := memberFindings_eq (o := o) hf
  rw [he, List.filterMap_append, filterMap_problems (fun _ => rfl) hproblems, List.nil_append]
  cases hadds with
  | nothing h =>
    rw [h]
    rfl
  | binding h =>
    rw [h]
    rfl
  | requirement h =>
    rw [h]
    rfl
  | @part b' k h =>
    by_cases hk : k = key
    · subst hk
      obtain rfl := hb b' h
      rw [if_pos h]
      simp [Finding.part?]
    · have hne : contributes m o l f ≠ some (b, key) := by
        rw [h]
        intro heq
        exact hk (Prod.mk.inj (Option.some.inj heq)).2
      rw [if_neg hne]
      simp [Finding.part?, hk]

end Findings

/-- The scopes of the levels are owned by components in reach. -/
theorem mem_scopeOwners_of_level {m : Model} {o : Options} {c : Classifier} {l : Level}
    {owner : ScopeOwner} (hl : l ∈ levels m o c) (hs : l.scope = some owner) :
    owner ∈ scopeOwners m o c := by
  obtain ⟨n, hn, hl⟩ := List.mem_flatMap.1 hl
  refine List.mem_filterMap.2 ⟨n, hn, ?_⟩
  obtain ⟨⟨via, fromStart, component, accessor⟩, isNew⟩ := n
  cases component with
  | none => exact absurd hl List.not_mem_nil
  | some d =>
    cases isNew with
    | false => exact absurd hl List.not_mem_nil
    | true =>
      obtain rfl := List.mem_singleton.1 hl
      exact hs

end Collect

namespace Catalogue

open Collect

variable {m : Model} {o : Options} {c : Classifier} {key : Key}

/-- A collected catalogue holds what is found on the walk, in that order. -/
theorem describes_collect (m : Model) (o : Options) (c : Classifier) :
    Describes (collect m o c) (findings m o c) :=
  describes_ofFindings c (findings m o c)

/-- The owners of a catalogue are those in reach. -/
theorem owners_collect (m : Model) (o : Options) (c : Classifier) :
    (collect m o c).owners = scopeOwners m o c := by
  rw [(describes_collect m o c).owners, findings, List.filterMap_flatMap, scopeOwners,
    List.filterMap_eq_flatMap_toList]
  refine List.flatMap_congr fun n _ => ?_
  rw [filterMap_arrivalFindings fun _ => rfl]
  obtain ⟨⟨via, fromStart, component, accessor⟩, isNew⟩ := n
  cases component with
  | none => rfl
  | some d =>
    have hmembers : (levelFindings m o
        ⟨d, accessor, ownerOf accessor (Role.findScope m o d)⟩).filterMap Finding.owner? = [] := by
      rw [levelFindings, List.filterMap_flatMap]
      refine List.flatMap_eq_nil_iff.2 fun f hf => ?_
      obtain ⟨problems, x, he, hproblems, hadds⟩ := memberFindings_eq (o := o)
        (l := ⟨d, accessor, ownerOf accessor (Role.findScope m o d)⟩) hf
      rw [he, List.filterMap_append, filterMap_problems (fun _ => rfl) hproblems]
      cases hadds <;> rfl
    have hbind : ∀ x : Option ScopeOwner, x.bind (Finding.owner? ∘ .owner) = x := by
      intro x
      cases x <;> rfl
    dsimp only [Option.elim]
    rw [hmembers, hbind, ite_self, List.append_nil]
    rfl

/-- The explicit binding of a key is a member of a level that offers it, reached and cached as
that level has it. -/
theorem offers_of_lookup_bindings {p : Provider}
    (h : (collect m o c).bindings.lookup key = some p) :
    ∃ l ∈ levels m o c, ∃ f, Offers m o l f key ∧ p = ⟨f, l.accessor, offerScope o l f⟩ := by
  rw [(describes_collect m o c).bindings] at h
  obtain ⟨l, hl, f, _, x, hadds, hg⟩ := exists_adds_of_mem_filterMap (g := Finding.provider? key)
    (fun _ => rfl) (fun _ => rfl) (List.mem_of_mem_head? h)
  cases hadds with
  | part => cases hg
  | requirement => cases hg
  | binding _ hk =>
    obtain ⟨rfl, hp⟩ := Option.ite_none_right_eq_some.1 hg
    exact ⟨l, hl, f, hk, (Option.some.inj hp).symm⟩

/-- The requirement of a key is a member of the component itself. -/
theorem offers_of_lookup_requirements {p : Provider}
    (h : (collect m o c).requirements.lookup key = some p) :
    ∃ l ∈ levels m o c, ∃ f, Offers m o l f key ∧ p = ⟨f, l.accessor, offerScope o l f⟩ ∧
      l.accessor = none := by
  rw [(describes_collect m o c).requirements] at h
  obtain ⟨l, hl, f, _, x, hadds, hg⟩ := exists_adds_of_mem_filterMap
    (g := Finding.requirement? key) (fun _ => rfl) (fun _ => rfl) (List.mem_of_mem_head? h)
  cases hadds with
  | part => cases hg
  | binding => cases hg
  | requirement _ hk ha =>
    obtain ⟨rfl, hp⟩ := Option.ite_none_right_eq_some.1 hg
    exact ⟨l, hl, f, hk, (Option.some.inj hp).symm, ha⟩

/-- A member that a component asks for is offered by the component itself. -/
theorem offers_of_mem_requirementMembers {f : Callable}
    (h : f ∈ (collect m o c).requirementMembers) :
    ∃ l ∈ levels m o c, ∃ key, Offers m o l f key ∧ l.accessor = none := by
  rw [(describes_collect m o c).requirementMembers] at h
  obtain ⟨l, hl, f', hf, x, hadds, hg⟩ := exists_adds_of_mem_filterMap
    (g := Finding.requirementMember?)
    (fun _ => rfl) (fun _ => rfl) h
  cases hadds with
  | part => cases hg
  | binding => cases hg
  | requirement _ hk ha =>
    cases hg
    exact ⟨l, hl, _, hk, ha⟩

/-- The contributions found for a collection are its contributors, in order. -/
theorem filterMap_part_findings {b : Builder}
    (hb : ∀ l f b', contributes m o l f = some (b', key) → b' = b) :
    (findings m o c).filterMap (Finding.part? key) = (contributors m o c b key).map fun n =>
      (b, ⟨n.2, n.1.accessor, memberScope o n.1 n.2⟩) := by
  rw [filterMap_findings (fun _ => rfl) (fun _ => rfl), contributors, List.map_flatMap]
  refine List.flatMap_congr fun l _ => ?_
  have hmember : ∀ fs : List Callable, (∀ f ∈ fs, f ∈ l.component.allMembers m) →
      (fs.flatMap fun f => (memberFindings m o l f).filterMap (Finding.part? key))
        = ((fs.filter fun f => contributes m o l f = some (b, key)).map (l, ·)).map fun n =>
            (b, (⟨n.2, n.1.accessor, memberScope o n.1 n.2⟩ : Provider)) := by
    intro fs
    induction fs with
    | nil =>
      intro _
      rfl
    | cons f fs ih =>
      intro hfs
      have hf := parts_memberFindings (hfs f (List.mem_cons_self ..)) (hb l f)
      rw [List.flatMap_cons, hf, ih fun g hg => hfs g (List.mem_cons_of_mem _ hg)]
      by_cases hc : contributes m o l f = some (b, key)
      · simp [hc]
      · simp [hc]
  exact hmember _ fun f hf => hf

/-- A collection has one contribution for each of its contributors, in order, none of them cached
by itself, and the scope of the first of them that has one. -/
theorem parts_of_lookup_containers {k : Container}
    (h : (collect m o c).containers.lookup key = some k) :
    contributors m o c k.builder key ≠ [] ∧
      k.parts = (contributors m o c k.builder key).map (fun n => ⟨n.2, n.1.accessor, none⟩) ∧
      k.scope = (contributors m o c k.builder key).findSome? fun n => memberScope o n.1 n.2 := by
  rw [(describes_collect m o c).containers] at h
  obtain ⟨⟨p, hp⟩, hparts, hscope⟩ := Container.eq_of_ofParts h
  obtain ⟨l, _, f, _, x, hadds, hg⟩ := exists_adds_of_mem_filterMap (g := Finding.part? key)
    (fun _ => rfl) (fun _ => rfl) hp
  have hc : contributes m o l f = some (k.builder, key) := by
    cases hadds with
    | binding => cases hg
    | requirement => cases hg
    | part hc =>
      obtain ⟨he, hb⟩ := Option.ite_none_right_eq_some.1 hg
      rw [hc, he, (Prod.mk.inj (Option.some.inj hb)).1]
  have hfound := filterMap_part_findings (c := c) fun _ _ _ hc' => builder_unique hc' hc
  rw [hfound] at hp hparts hscope
  refine ⟨?_, ?_, ?_⟩
  · intro hnil
    rw [hnil] at hp
    exact absurd hp List.not_mem_nil
  · rw [hparts, List.map_map]
    rfl
  · rw [hscope, List.findSome?_map]
    rfl

/-- The contributors to a collection are members of levels. -/
theorem mem_levels_of_mem_contributors {b : Builder} {n : Level × Callable}
    (h : n ∈ contributors m o c b key) :
    n.1 ∈ levels m o c ∧ n.2 ∈ n.1.component.allMembers m ∧
      contributes m o n.1 n.2 = some (b, key) := by
  obtain ⟨l, hl, h⟩ := List.mem_flatMap.1 h
  obtain ⟨f, hf, rfl⟩ := List.mem_map.1 h
  obtain ⟨hf, hc⟩ := List.mem_filter.1 hf
  exact ⟨hl, hf, by simpa using hc⟩

/-- The members of the levels of a declared component are declared. -/
theorem mem_callables_of_mem_levels (hc : c ∈ m.classifiers) {l : Level} {f : Callable}
    (hl : l ∈ levels m o c) (hf : f ∈ l.component.allMembers m) : f ∈ m.callables := by
  refine Classifier.mem_callables_of_mem_allMembers ?_ hf
  obtain ⟨n, hn, hl⟩ := List.mem_flatMap.1 hl
  obtain ⟨⟨via, fromStart, component, accessor⟩, isNew⟩ := n
  cases component with
  | none => exact absurd hl List.not_mem_nil
  | some d =>
    cases isNew with
    | false => exact absurd hl List.not_mem_nil
    | true =>
      obtain rfl := List.mem_singleton.1 hl
      rcases Arrival.component_of_mem_walk hn rfl with rfl | hd
      · exact hc
      · exact hd

end Catalogue

end Wiring
