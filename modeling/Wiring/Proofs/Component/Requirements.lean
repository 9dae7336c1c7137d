import Wiring.Proofs.Resolve.Termination

/-!
# Planning as requests

Planning a component makes one request for each of its requirements, on a path that holds the
requirement alone. Its failure is the answer to the first request that is not met, and where there
is none every request has a plan.
-/

namespace Wiring.Component

variable {m : Model} {o : Options} {c : Classifier}

/-- The request for the value of a requirement, which may not satisfy itself. -/
def request (r : Resolver) (c : Classifier) (f : Callable) : Request where
  key := requirementKey r c f
  context := {
    path := ⟨[f.element]⟩
    source := f.element
    skipProvider := some (requirementKey r c f).type }

/-- A requirement is planned as its request is answered. -/
theorem planRequirement_eq (r : Resolver) (c : Classifier) (f : Callable) :
    planRequirement r c f = do
      let plan ← r.answer (request r c f)
      return ⟨f, (requirementKey r c f).type, plan⟩ := rfl

/-- Planning a requirement succeeds exactly with the answer to its request. -/
theorem planRequirement_eq_ok_iff {r : Resolver} {f : Callable} {p : ProviderPlan} :
    planRequirement r c f = .ok p ↔ ∃ plan, r.answer (request r c f) = .ok plan ∧
      p = ⟨f, (requirementKey r c f).type, plan⟩ := by
  rw [planRequirement_eq, map_eq_ok_iff]

/-- Planning a requirement fails exactly as the answer to its request does. -/
theorem planRequirement_eq_error_iff {r : Resolver} {f : Callable} {e : Failure} :
    planRequirement r c f = .error e ↔ r.answer (request r c f) = .error e := by
  rw [planRequirement_eq, map_eq_error_iff]

/-- Requirements are planned one by one until one fails. -/
theorem planRequirements_eq (r : Resolver) (c : Classifier) (fs : List Callable) :
    planRequirements r c fs = fs.mapM (planRequirement r c) := by
  induction fs with
  | nil => rfl
  | cons f fs ih =>
    rw [planRequirements, List.mapM_cons, ih]

/-- Planning succeeds when all requirements are met, with the plans that answer their requests. -/
theorem planRequirements_eq_ok_iff {r : Resolver} {fs : List Callable} {ps : List ProviderPlan} :
    planRequirements r c fs = .ok ps ↔ ∃ plans,
      List.Forall₂ (fun f plan => r.answer (request r c f) = .ok plan) fs plans ∧
      ps = List.zipWith (fun f plan => ⟨f, (requirementKey r c f).type, plan⟩) fs plans := by
  rw [planRequirements_eq, mapM_eq_ok_iff]
  constructor
  · intro h
    induction h with
    | nil => exact ⟨[], .nil, rfl⟩
    | cons hf _ ih =>
      obtain ⟨plan, ha, rfl⟩ := planRequirement_eq_ok_iff.1 hf
      obtain ⟨plans, hplans, rfl⟩ := ih
      exact ⟨plan :: plans, .cons ha hplans, rfl⟩
  · rintro ⟨plans, hplans, rfl⟩
    induction hplans with
    | nil => exact .nil
    | cons ha _ ih => exact .cons (planRequirement_eq_ok_iff.2 ⟨_, ha, rfl⟩) ih

/-- Planning fails for the first of the requirements that is not met. -/
theorem planRequirements_eq_error_iff {r : Resolver} {fs : List Callable} {e : Failure} :
    planRequirements r c fs = .error e ↔ ∃ before f after, fs = before ++ f :: after ∧
      (∀ g ∈ before, ∃ plan, r.answer (request r c g) = .ok plan) ∧
      r.answer (request r c f) = .error e := by
  rw [planRequirements_eq, mapM_eq_error_iff]
  simp only [planRequirement_eq_ok_iff, planRequirement_eq_error_iff,
    exists_comm (α := ProviderPlan), exists_and_left, exists_eq, and_true]

/-- Each plan among those of the requirements answers the request of its member. -/
theorem mem_of_planRequirements {r : Resolver} {fs : List Callable} {ps : List ProviderPlan}
    (h : planRequirements r c fs = .ok ps) {p : ProviderPlan} (hp : p ∈ ps) :
    r.answer (request r c p.callable) = .ok p.plan := by
  rw [planRequirements_eq] at h
  obtain ⟨f, _, hf⟩ := mem_of_mapM_eq_ok h hp
  obtain ⟨plan, ha, rfl⟩ := planRequirement_eq_ok_iff.1 hf
  exact ha

/-- Each plan among those of the requirements has the type its member has for the component. -/
theorem returns_of_planRequirements {r : Resolver} {fs : List Callable} {ps : List ProviderPlan}
    (h : planRequirements r c fs = .ok ps) {p : ProviderPlan} (hp : p ∈ ps) :
    p.returns = p.callable.returnsFor r.model c := by
  rw [planRequirements_eq] at h
  obtain ⟨f, _, hf⟩ := mem_of_mapM_eq_ok h hp
  obtain ⟨plan, _, rfl⟩ := planRequirement_eq_ok_iff.1 hf
  rfl

/-- A class that cannot be a component is reported as such. -/
theorem exists_of_invalid? {e : Failure} (h : invalid? c = some e) :
    ∃ message, e = .invalidComponent message c.element := by
  rw [invalid?] at h
  split at h
  · exact ⟨_, (Option.some.inj h).symm⟩
  · split at h
    · exact ⟨_, (Option.some.inj h).symm⟩
    · cases h

/-- A component whose requirements fail has that failure, and no provider. -/
theorem plan_of_error (hi : invalid? c = none) {e : Failure}
    (h : planRequirements (resolver m o c) c (Catalogue.collect m o c).requirementMembers
      = .error e) : (plan m o c).failure = some e ∧ (plan m o c).providers = [] := by
  rw [resolver] at h
  simp only [plan, hi, h, and_self]

/-- A component whose requirements are planned has their plans, and no failure. -/
theorem plan_of_ok (hi : invalid? c = none) {ps : List ProviderPlan}
    (h : planRequirements (resolver m o c) c (Catalogue.collect m o c).requirementMembers
      = .ok ps) : (plan m o c).failure = none ∧ (plan m o c).providers = ps := by
  rw [resolver] at h
  simp only [plan, hi, h, and_self]

/-- Planning fails on its own account, or for the first requirement that is not met. -/
theorem failure_eq_some_iff {e : Failure} :
    (plan m o c).failure = some e ↔ invalid? c = some e
      ∨ invalid? c = none ∧
        planRequirements (resolver m o c) c (Catalogue.collect m o c).requirementMembers
          = .error e := by
  cases hi : invalid? c with
  | some failure => simp [plan, hi]
  | none =>
    cases hp : planRequirements (resolver m o c) c
        (Catalogue.collect m o c).requirementMembers with
    | error e' => simp [(plan_of_error hi hp).1]
    | ok ps => simp [(plan_of_ok hi hp).1]

/-- There is one plan for each requirement, in order. -/
theorem callables_of_planRequirements {r : Resolver} {fs : List Callable} {ps : List ProviderPlan}
    (h : planRequirements r c fs = .ok ps) : ps.map (·.callable) = fs := by
  rw [planRequirements_eq, mapM_eq_ok_iff] at h
  induction h with
  | nil => rfl
  | cons hf _ ih =>
    obtain ⟨_, _, rfl⟩ := planRequirement_eq_ok_iff.1 hf
    rw [List.map_cons, ih]

/-- A component has plans only if all its requirements are met. -/
theorem planRequirements_of_mem_providers {p : ProviderPlan} (h : p ∈ (plan m o c).providers) :
    planRequirements (resolver m o c) c (Catalogue.collect m o c).requirementMembers
      = .ok (plan m o c).providers := by
  cases hi : invalid? c with
  | some failure =>
    simp only [plan, hi] at h
    exact absurd h List.not_mem_nil
  | none =>
    cases hp : planRequirements (resolver m o c) c
        (Catalogue.collect m o c).requirementMembers with
    | error e =>
      rw [(plan_of_error hi hp).2] at h
      exact absurd h List.not_mem_nil
    | ok ps => rw [(plan_of_ok hi hp).2]

/-- The plans of a component that does not fail are those of its requirements. -/
theorem callables_of_failure (h : (plan m o c).failure = none) :
    (plan m o c).providers.map (·.callable) = (Catalogue.collect m o c).requirementMembers := by
  cases hi : invalid? c with
  | some failure => simp [plan, hi] at h
  | none =>
    cases hp : planRequirements (resolver m o c) c
        (Catalogue.collect m o c).requirementMembers with
    | error e =>
      rw [(plan_of_error hi hp).1] at h
      cases h
    | ok ps =>
      rw [(plan_of_ok hi hp).2]
      exact callables_of_planRequirements hp

/-- A provider of a plan is for a requirement of the component. -/
theorem callable_of_mem_providers {p : ProviderPlan} (h : p ∈ (plan m o c).providers) :
    p.callable ∈ (Catalogue.collect m o c).requirementMembers := by
  rw [← callables_of_planRequirements (planRequirements_of_mem_providers h)]
  exact List.mem_map.2 ⟨p, h, rfl⟩

/-- Each plan of a component is of the type that the component sees. -/
theorem returns_of_mem_providers {p : ProviderPlan} (h : p ∈ (plan m o c).providers) :
    p.returns = p.callable.returnsFor m c :=
  returns_of_planRequirements (planRequirements_of_mem_providers h) h

/-- Each plan of a component answers the request for its requirement. -/
theorem answer_of_mem_providers {p : ProviderPlan} (h : p ∈ (plan m o c).providers) :
    (resolver m o c).answer (request (resolver m o c) c p.callable) = .ok p.plan :=
  mem_of_planRequirements (planRequirements_of_mem_providers h) h

end Wiring.Component
