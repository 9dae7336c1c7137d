import Wiring.Proofs.Catalogue.Reports

/-!
# What a component asks for

The requirements of a component are those of its own members that ask for a value, in the order of
its chain, and the first of them that asks for a key is the requirement of this key. What a parent
asks for is no requirement, since the parent implements it.
-/

namespace Wiring

namespace Collect

open Catalogue

variable {m : Model} {o : Options} {c : Classifier} {l : Level} {f : Callable}

/-- The key that a member asks for in a class. -/
def askedKey (m : Model) (o : Options) (c : Classifier) (f : Callable) : Key :=
  ⟨f.returnsFor m c, Role.qualifier? o f.annotations⟩

/-- The members of a class that ask for a value. -/
def askers (m : Model) (c : Classifier) : List Callable := (c.allMembers m).filter Role.isProvider

/-- The askers are the members that are providers. -/
theorem mem_askers_iff : f ∈ askers m c ↔ f ∈ c.allMembers m ∧ Role.isProvider f = true :=
  List.mem_filter

/-- A member that asks for a value does not provide one. -/
theorem isProvides_of_isProvider (h : Role.isProvider f = true) : Role.isProvides f = false := by
  simp only [Role.isProvider, Bool.and_eq_true, Bool.not_eq_true'] at h
  exact h.1.1.1.1

section Findings

variable {β : Type} {g : Finding → Option β}

/-- A providing member is no requirement. -/
theorem filterMap_providesFindings (hp : ∀ d, g (.problem d) = none)
    (hb : ∀ key p, g (.binding key p) = none) (hpart : ∀ b key p, g (.part b key p) = none) :
    (providesFindings m o l f).filterMap g = [] := by
  have hcontribution : ∀ t, g (contribution o l f t) = none := by
    intro t
    rw [contribution]
    split
    · exact hpart ..
    · split
      · split
        · exact hpart ..
        · exact hp _
      · exact hb ..
  refine List.filterMap_eq_nil_iff.2 fun x hx => ?_
  rw [providesFindings] at hx
  split at hx
  · rw [List.mem_singleton.1 hx, hp]
  · split at hx
    · rw [List.mem_singleton.1 hx, hp]
    · rcases List.mem_append.1 hx with hx | hx
      · obtain ⟨d, rfl⟩ := problem_of_mem_scopeProblems hx
        exact hp d
      · rw [List.mem_singleton.1 hx, hcontribution]

/-- The requirements that are found are the members of the component itself that ask for a value,
in order. -/
theorem filterMap_requirement_findings (ho : ∀ x, g (.owner x) = none)
    (hp : ∀ d, g (.problem d) = none) (hb : ∀ key p, g (.binding key p) = none)
    (hpart : ∀ b key p, g (.part b key p) = none) :
    (findings m o c).filterMap g = (askers m c).filterMap fun f =>
      g (.requirement (askedKey m o c f) ⟨f, none, none⟩) := by
  have hmember : ∀ l : Level, ∀ f, (memberFindings m o l f).filterMap g
      = if Role.isProvider f = true ∧ l.accessor = none then
          (g (.requirement (askedKey m o l.component f) ⟨f, none, none⟩)).toList
        else [] := by
    intro l f
    rw [memberFindings]
    by_cases hprovider : Role.isProvider f = true
    · rw [if_neg (Bool.eq_false_iff.1 (isProvides_of_isProvider hprovider)), if_pos hprovider]
      cases ha : l.accessor with
      | none =>
        rw [if_pos ⟨hprovider, rfl⟩]
        exact filterMap_snoc g [] _
      | some name =>
        rw [if_neg fun h => by cases h.2]
        exact List.filterMap_cons_none (hb _ _)
    · have hno : ¬ (Role.isProvider f = true ∧ l.accessor = none) := fun h => hprovider h.1
      rw [if_neg hno]
      split
      · exact filterMap_providesFindings hp hb hpart
      · rfl
  obtain ⟨rest, hlevels⟩ := exists_levels_eq_cons m o c
  have hparents : ∀ l ∈ rest, l.accessor ≠ none := by
    intro l hl ha
    have hnodup := nodup_levels m o c
    rw [hlevels, List.map_cons, List.nodup_cons] at hnodup
    have hroot := component_of_accessor (hlevels ▸ List.mem_cons_of_mem _ hl) ha
    exact hnodup.1 (List.mem_map.2 ⟨l, hl, by rw [hroot]; rfl⟩)
  have hrest : (rest.flatMap fun l => (l.component.allMembers m).flatMap fun f =>
      (memberFindings m o l f).filterMap g) = [] := by
    refine List.flatMap_eq_nil_iff.2 fun l hl => List.flatMap_eq_nil_iff.2 fun f _ => ?_
    rw [hmember, if_neg fun h => hparents l hl h.2]
  rw [filterMap_findings ho hp, hlevels, List.flatMap_cons, hrest, List.append_nil, askers,
    List.filterMap_filter, List.filterMap_eq_flatMap_toList]
  refine List.flatMap_congr fun f _ => ?_
  rw [hmember, levelAt_component]
  by_cases hprovider : Role.isProvider f = true
  · rw [if_pos ⟨hprovider, rfl⟩, if_pos hprovider]
  · rw [if_neg fun h => hprovider h.1, if_neg hprovider]
    rfl

end Findings

end Collect

namespace Catalogue

open Collect

/-- The requirements of a component are the members of it that ask for a value. -/
theorem requirementMembers_collect (m : Model) (o : Options) (c : Classifier) :
    (collect m o c).requirementMembers = askers m c := by
  rw [(describes_collect m o c).requirementMembers,
    filterMap_requirement_findings (fun _ => rfl) (fun _ => rfl) (fun _ _ => rfl)
      (fun _ _ _ => rfl)]
  exact List.filterMap_some

/-- The requirement of a key is the first member of the component that asks for it. -/
theorem lookup_requirements_collect (m : Model) (o : Options) (c : Classifier) (key : Key) :
    (collect m o c).requirements.lookup key
      = ((askers m c).find? (askedKey m o c · = key)).map fun f => ⟨f, none, none⟩ := by
  rw [(describes_collect m o c).requirements,
    filterMap_requirement_findings (fun _ => rfl) (fun _ => rfl) (fun _ _ => rfl)
      (fun _ _ _ => rfl)]
  induction askers m c with
  | nil => rfl
  | cons f fs ih =>
    by_cases hk : askedKey m o c f = key
    · simp only [List.filterMap_cons, List.find?_cons, Finding.requirement?, hk, if_true,
        decide_true, List.head?_cons, Option.map_some]
    · simp only [List.filterMap_cons, List.find?_cons, Finding.requirement?, hk, if_false,
        decide_false]
      exact ih

end Catalogue

end Wiring
