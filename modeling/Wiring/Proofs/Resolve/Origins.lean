import Wiring.Proofs.Catalogue.Reports
import Wiring.Proofs.Model.Identity
import Wiring.Proofs.Resolve.Candidate
import Wiring.Proofs.Resolve.Task

/-!
# The levels that bindings come from

Every member that is called was collected from a level, and so was every scope that something is
cached in. A member that is only asked for is called where nothing else is bound to its key. The
owner of a scope may be reached in several ways, and the one in force is that of a level.
-/

namespace Wiring

open Collect

namespace Model

/-- A member of the program is called by its name. -/
theorem callName_of_mem_callables {m : Model} {f : Callable} (h : f ∈ m.callables) :
    f.callName = f.name := by
  obtain ⟨c, _, d, i, _, rfl⟩ := exists_of_mem_callables h
  rfl

end Model

namespace Collect

variable {m : Model} {o : Options} {c : Classifier}

/-- Every component of the walk is the one at the start, or what its name stands for. -/
theorem eq_or_classNamed_of_mem_walk {n : Arrival × Bool} (h : n ∈ Arrival.walk m c)
    {d : Classifier} (hd : n.1.component = some d) : d = c ∨ m.classNamed d.path = some d := by
  refine Arrival.forall_mem_walk
    (P := fun a => ∀ d, a.component = some d → d = c ∨ m.classNamed d.path = some d)
    ?_ ?_ n h d hd
  · intro d hd
    cases hd
    exact .inl rfl
  · intro _ _ _ _ _ _ d hd
    exact .inr (Model.classNamed_path hd)

/-- The classes that a walk comes to are found by their names, if the first one is. -/
theorem classNamed_of_mem_walk (hc : m.classNamed c.path = some c) {n : Arrival × Bool}
    (h : n ∈ Arrival.walk m c) {d : Classifier} (hd : n.1.component = some d) :
    m.classNamed d.path = some d := by
  rcases eq_or_classNamed_of_mem_walk h hd with rfl | hnamed
  · exact hc
  · exact hnamed

/-- The first owner of a scope is that of a level. A component that is met again was a level
before, and has the same scope there. -/
theorem exists_level_of_find_owner (hc : m.classNamed c.path = some c) {scope : TypeExpr}
    {owner : ScopeOwner} (h : (scopeOwners m o c).find? (·.scope == scope) = some owner) :
    ∃ l ∈ levels m o c, l.scope = some owner := by
  obtain ⟨hscope, before, after, hsplit, hfirst⟩ := List.find?_eq_some_iff_append.1 h
  obtain ⟨init, ⟨a, isNew⟩, rest, hwalk, hinit, hown⟩ :=
    Catalogue.exists_of_filterMap_eq_append hsplit
  obtain ⟨d, hd, howner⟩ := Option.bind_eq_some_iff.1 hown
  have hmem : (a, isNew) ∈ Arrival.walk m c := mem_of_split hwalk
  cases isNew with
  | true => exact ⟨levelAt m o a.accessor d, mem_levels_iff.2 ⟨a, hmem, hd, rfl⟩, howner⟩
  | false =>
    rcases (Arrival.walk_runs m c).entered_before hwalk with hseen | ⟨b, hb, hkey⟩
    · exact absurd hseen List.not_mem_nil
    · rw [hd, Option.map_some] at hkey
      obtain ⟨d', hd', hpath⟩ := Option.map_eq_some_iff.1 hkey
      have hbwalk : (b, true) ∈ Arrival.walk m c := by
        rw [hwalk]
        exact List.mem_append_left _ hb
      have hnamed := classNamed_of_mem_walk hc hbwalk hd'
      rw [hpath, classNamed_of_mem_walk hc hmem hd] at hnamed
      obtain rfl := Option.some.inj hnamed
      -- So the first meeting of the component has an owner of the scope already.
      rw [ownerOf] at howner
      obtain ⟨found, hfound, rfl⟩ := Option.map_eq_some_iff.1 howner
      have hearlier : (⟨found.1, b.accessor, found.2⟩ : ScopeOwner) ∈ before := by
        rw [← hinit]
        refine List.mem_filterMap.2 ⟨(b, true), hb, ?_⟩
        rw [hd', Option.bind_some, ownerOf, hfound]
        rfl
      have hnot := hfirst _ hearlier
      rw [hscope] at hnot
      cases hnot

end Collect

namespace Catalogue

variable {m : Model} {o : Options} {c : Classifier} {key : Key} {p : Provider} {skipOwn : Bool}

/-- A member that a key is bound to is an explicit binding, or a requirement of a key that nothing
else is bound to. -/
theorem lookup_of_resolve {cat : Catalogue}
    (h : cat.resolve m o key skipOwn = .ok (some (.provider p))) :
    cat.bindings.lookup key = some p ∨
      cat.requirements.lookup key = some p ∧ cat.resolve m o key true = .ok none := by
  have hown : cat.requirementBinding key skipOwn = some (.provider p) →
      cat.requirements.lookup key = some p := by
    intro hb
    rw [requirementBinding] at hb
    split at hb
    · cases hb
    · obtain ⟨p', hp, he⟩ := Option.map_eq_some_iff.1 hb
      cases he
      exact hp
  rw [resolve] at h ⊢
  cases hb : cat.bindings.lookup key with
  | some p' =>
    rw [hb] at h
    cases h
    exact .inl rfl
  | none =>
    rw [hb] at h
    cases hk : cat.containers.lookup key with
    | some k =>
      rw [hk] at h
      cases h
    | none =>
      rw [hk] at h
      cases hq : key.qualifier with
      | some qualifier =>
        rw [hq] at h
        exact .inr ⟨hown (Except.ok.inj h), rfl⟩
      | none =>
        rw [hq] at h
        cases hctor : cat.constructorBinding m o key.type with
        | error e =>
          rw [hctor] at h
          cases h
        | ok found =>
          rw [hctor] at h
          cases found with
          | none => exact .inr ⟨hown (Except.ok.inj h), rfl⟩
          | some b =>
            obtain ⟨_, _, _, _, _, _, rfl, _⟩ := constructorBinding_eq_some hctor
            cases h

/-- A member that a key is bound to is the first that binds it, or a requirement that is not left
out, of a key that nothing else is bound to. -/
theorem binder_or_requirement
    (h : (collect m o c).resolve m o key skipOwn = .ok (some (.provider p))) :
    (∃ n, (binders m o c key).head? = some n ∧ p = providerOf o n) ∨
      (collect m o c).resolve m o key true = .ok none ∧
        (collect m o c).requirements.lookup key = some p ∧ skipOwn = false := by
  rcases lookup_of_resolve h with hlookup | ⟨hlookup, hnone⟩
  · rw [lookup_bindings_collect] at hlookup
    obtain ⟨n, hn, rfl⟩ := Option.map_eq_some_iff.1 hlookup
    exact .inl ⟨n, hn, rfl⟩
  · refine .inr ⟨hnone, hlookup, ?_⟩
    cases skipOwn with
    | false => rfl
    | true =>
      rw [hnone] at h
      cases h

/-- A member that a key is bound to was collected from a level. It provides there, or is asked for,
by the component itself only if nothing else is bound to its key. -/
theorem exists_level_of_resolve
    (h : (collect m o c).resolve m o key skipOwn = .ok (some (.provider p))) :
    ∃ l ∈ levels m o c, p.callable ∈ l.component.allMembers m ∧ p.accessor = l.accessor ∧
      (Role.isProvides p.callable = true ∨ Role.isProvider p.callable = true ∧
        (l.accessor = none → (collect m o c).resolve m o
          ⟨p.callable.returnsFor m c, Role.qualifier? o p.callable.annotations⟩ true
            = .ok none)) := by
  rcases binder_or_requirement h with ⟨n, hn, rfl⟩ | ⟨hnone, hlookup, _⟩
  · obtain ⟨hl, hf, hk⟩ := mem_binders_iff.1 (List.mem_of_mem_head? hn)
    refine ⟨n.1, hl, hf, rfl, ?_⟩
    simp only [bindsKey] at hk
    split at hk
    · next hp => exact .inl hp
    · split at hk
      · next hr =>
        simp only [Bool.and_eq_true] at hr
        refine .inr ⟨hr.1, fun hnone => ?_⟩
        rw [hnone] at hr
        cases hr.2
      · cases hk
  · obtain ⟨l, hl, f, hk, rfl, ha⟩ := offers_of_lookup_requirements hlookup
    refine ⟨l, hl, hk.member, rfl, hk.role.imp (·.1) fun hr => ⟨hr, fun _ => ?_⟩⟩
    have hkey : (⟨f.returnsFor m c, Role.qualifier? o f.annotations⟩ : Key) = key := by
      rw [← component_of_accessor hl ha, hk.returns, hk.qualifier]
    dsimp only
    rw [hkey]
    exact hnone

end Catalogue

namespace Resolver

open Catalogue

variable {m : Model} {o : Options} {c : Classifier} {key : Key} {context : Context}
  {fromEnd : Option Nat} {candidate : Candidate} {p : Provider}

/-- A member that is entered was collected from a level. It provides there, or is asked for, by the
component itself only if nothing else is bound to its key. -/
theorem exists_level_of_task
    (h : (Component.resolver m o c).candidate key context fromEnd = .ok (some candidate))
    (ht : .enter (.member p) ∈ candidate.tasks key context) : ∃ l ∈ levels m o c,
      p.callable ∈ l.component.allMembers m ∧ p.accessor = l.accessor ∧
      (Role.isProvides p.callable = true ∨ Role.isProvider p.callable = true ∧
        (l.accessor = none → (collect m o c).resolve m o
          ⟨p.callable.returnsFor m c, Role.qualifier? o p.callable.annotations⟩ true
            = .ok none)) := by
  cases chosen_of_candidate h with
  | arg => exact absurd ht List.not_mem_nil
  | offered ho => cases ho <;> cases List.mem_singleton.1 ht
  | @bound b hf =>
    rcases ofBinding_cases key context b with ⟨he, _⟩ | ⟨owner, _, he, _⟩
    · rw [he] at ht
      cases b with
      | constructor => cases List.mem_singleton.1 ht
      | provider =>
        cases List.mem_singleton.1 ht
        exact exists_level_of_resolve hf.found
      | container =>
        cases binds_of_resolve hf.found with
        | collection hlookup =>
          obtain ⟨part, hp, hs⟩ := List.mem_map.1 ht
          cases hs
          rw [(parts_of_lookup_containers hlookup).2.1] at hp
          obtain ⟨n, hn, rfl⟩ := List.mem_map.1 hp
          obtain ⟨hl, hf, hcontributes⟩ := mem_levels_of_mem_contributors hn
          refine ⟨n.1, hl, hf, rfl, .inl ?_⟩
          simp only [contributes] at hcontributes
          split at hcontributes
          · next hall =>
            simp only [Bool.and_eq_true] at hall
            exact hall.1.1
          · cases hcontributes
    · rw [he] at ht
      cases List.mem_singleton.1 ht

/-- The owner of the cache that a binding is kept in is that of a level. -/
theorem exists_level_of_cached (hc : m.classNamed c.path = some c) {owner : ScopeOwner}
    (h : (Component.resolver m o c).candidate key context fromEnd
      = .ok (some (.cached owner))) : ∃ l ∈ levels m o c, l.scope = some owner := by
  obtain ⟨b, hf, hs, _⟩ := finds_of_cached h
  have hoffered : ∀ {l : Level} {f : Callable}, l ∈ levels m o c → offerScope o l f = some owner →
      ∃ l ∈ levels m o c, l.scope = some owner := by
    intro l f hl hscope
    rw [offerScope] at hscope
    split at hscope
    · exact ⟨l, hl, scope_of_memberScope hscope⟩
    · cases hscope
  cases binds_of_resolve hf.found with
  | explicit hlookup =>
    obtain ⟨l, hl, f, _, rfl⟩ := offers_of_lookup_bindings hlookup
    exact hoffered hl hs
  | required hlookup =>
    obtain ⟨l, hl, f, _, rfl, _⟩ := offers_of_lookup_requirements hlookup
    exact hoffered hl hs
  | collection hlookup =>
    rw [Binding.scope?, (parts_of_lookup_containers hlookup).2.2] at hs
    obtain ⟨n, hn, hscope⟩ := List.exists_of_findSome?_eq_some hs
    exact ⟨n.1, (mem_levels_of_mem_contributors hn).1, scope_of_memberScope hscope⟩
  | constructed _ _ _ _ _ ho =>
    have howner := ho owner hs
    rw [ownerOf?, Component.resolver, owners_collect] at howner
    exact exists_level_of_find_owner hc howner

end Resolver

end Wiring
