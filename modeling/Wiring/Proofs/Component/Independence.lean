import Wiring.Proofs.Component.Requirements
import Wiring.Proofs.Resolve.Shared
import Wiring.Proofs.Sketch

/-!
# Requirements are planned apart

The requirements of a component are resolved one after another on one path that all of them share.
Since resolution leaves that path as it found it, with a failure too, each of them has the outcome
it has on a path of its own: either all of them get their plans, or there is no plan at all and the
failure is that of the first requirement that fails on its own.
-/

namespace Wiring

/-- The plans of a component, or its failure. -/
def ComponentPlan.outcome (p : ComponentPlan) : Except Failure (List ProviderPlan) :=
  match p.failure with
  | none => .ok p.providers
  | some e => .error e

namespace Component

/-- The plan of one requirement, on a path that it shares with the others. -/
def planRequirementShared (r : Resolver) (c : Classifier) (f : Callable) : PathM ProviderPlan :=
  let key := requirementKey r c f
  .entering f.element do
    let context :=
      { (startContext c).withoutProvider key.type with path := ← get, source := f.element }
    let plan ← r.provideShared (r.depthBound key) ⟨key, context, none⟩
    return ⟨f, key.type, plan⟩

/-- A requirement planned on a shared path is planned as on a path of its own. -/
theorem keeps_planRequirementShared (r : Resolver) (c : Classifier) (f : Callable) :
    (planRequirementShared r c f).Keeps {} (planRequirement r c f) := by
  change (planRequirementShared r c f).Keeps
    ((startContext c).withoutProvider (requirementKey r c f).type).path _
  rw [planRequirementShared, planRequirement]
  refine .entering fun inner _ => .get ?_
  exact .bind (Resolver.keeps_provideShared _ _) fun plan _ => .pure _

/-- The requirements of a component are planned independently of each other, all or nothing, and
this does not touch what was collected. -/
structure PlannedApart (m : Model) (o : Options) (c : Classifier) : Prop where
  /-- On a path of its own, a requirement has the answer to its request. -/
  alone : ∀ f, ((resolver m o c).provideShared
      ((resolver m o c).depthBound (requirementKey (resolver m o c) c f))
      (request (resolver m o c) c f)).Keeps ⟨[f.element]⟩
    ((resolver m o c).answer (request (resolver m o c) c f))
  /-- One after another on one path, the requirements have the outcome of the plan. -/
  together : ((Catalogue.collect m o c).requirementMembers.mapM
      (planRequirementShared (resolver m o c) c)).Keeps {} (plan m o c).outcome
  /-- If all of them are met, these are the plans. -/
  met : ∀ plans, List.Forall₂
      (fun f plan => (resolver m o c).answer (request (resolver m o c) c f) = .ok plan)
      (Catalogue.collect m o c).requirementMembers plans →
    (plan m o c).failure = none ∧ (plan m o c).providers
      = List.zipWith (fun f plan => ⟨f, (requirementKey (resolver m o c) c f).type, plan⟩)
          (Catalogue.collect m o c).requirementMembers plans
  /-- The first that is not met leaves no plans, and its failure. -/
  unmet : ∀ before f after e,
    (Catalogue.collect m o c).requirementMembers = before ++ f :: after →
    (∀ g ∈ before, ∃ plan, (resolver m o c).answer (request (resolver m o c) c g) = .ok plan) →
    (resolver m o c).answer (request (resolver m o c) c f) = .error e →
    (plan m o c).failure = some e ∧ (plan m o c).providers = []
  /-- There is no third case. -/
  decided : (∃ plans, List.Forall₂
      (fun f plan => (resolver m o c).answer (request (resolver m o c) c f) = .ok plan)
      (Catalogue.collect m o c).requirementMembers plans)
    ∨ ∃ before f after e, (Catalogue.collect m o c).requirementMembers = before ++ f :: after ∧
        (∀ g ∈ before, ∃ plan,
          (resolver m o c).answer (request (resolver m o c) c g) = .ok plan) ∧
        (resolver m o c).answer (request (resolver m o c) c f) = .error e
  /-- Resolution changes nothing that was collected. -/
  collected : (plan m o c).diagnostics = (Catalogue.collect m o c).diagnostics ∧
    (plan m o c).scope = (Catalogue.collect m o c).ownScope?.map (·.scope)
  /-- The failure is reported last, and nothing else is added. -/
  reported : (plan m o c).allDiagnostics
    = (Catalogue.collect m o c).diagnostics ++ (plan m o c).failure.toList.map Failure.toDiagnostic

variable {m : Model} {o : Options} {c : Classifier}

/-- The outcome of planning a valid component is that of planning its requirements. -/
theorem outcome_plan (hi : invalid? c = none) : (plan m o c).outcome
    = planRequirements (resolver m o c) c (Catalogue.collect m o c).requirementMembers := by
  cases hp : planRequirements (resolver m o c) c (Catalogue.collect m o c).requirementMembers with
  | error e => rw [ComponentPlan.outcome, (plan_of_error hi hp).1]
  | ok ps =>
    obtain ⟨hf, hps⟩ := plan_of_ok hi hp
    rw [ComponentPlan.outcome, hf, hps]

/-- Resolution changes neither the diagnostics nor the scope that were collected. -/
theorem collected_plan (hi : invalid? c = none) :
    (plan m o c).diagnostics = (Catalogue.collect m o c).diagnostics ∧
      (plan m o c).scope = (Catalogue.collect m o c).ownScope?.map (·.scope) := by
  rw [plan, hi]
  dsimp only
  split <;> exact ⟨rfl, rfl⟩

/-- Requirements are planned apart in every component. -/
theorem plannedApart (m : Model) (o : Options) (c : Classifier) (hi : invalid? c = none) :
    PlannedApart m o c where
  alone f := Resolver.keeps_provideShared _ (request (resolver m o c) c f)
  together := by
    rw [outcome_plan hi, planRequirements_eq]
    exact .mapM fun f _ => keeps_planRequirementShared (resolver m o c) c f
  met plans hplans := plan_of_ok hi (planRequirements_eq_ok_iff.2 ⟨plans, hplans, rfl⟩)
  unmet before f after e hmembers hbefore hf :=
    plan_of_error hi (planRequirements_eq_error_iff.2 ⟨before, f, after, hmembers, hbefore, hf⟩)
  decided := by
    cases hp : planRequirements (resolver m o c) c
        (Catalogue.collect m o c).requirementMembers with
    | ok ps =>
      obtain ⟨plans, hplans, _⟩ := planRequirements_eq_ok_iff.1 hp
      exact .inl ⟨plans, hplans⟩
    | error e =>
      obtain ⟨before, f, after, hmembers, hbefore, hf⟩ := planRequirements_eq_error_iff.1 hp
      exact .inr ⟨before, f, after, e, hmembers, hbefore, hf⟩
  collected := collected_plan hi
  reported := by
    rw [ComponentPlan.allDiagnostics, (collected_plan hi).1]

/-- A fair that has tea and coffee, and no cake. -/
def fair : ClassDecl :=
  Sketch.component "Fair" [] [] [Sketch.requirement "tea" (Sketch.type "Tea") [],
    Sketch.requirement "cake" (Sketch.type "Cake") [],
    Sketch.requirement "coffee" (Sketch.type "Coffee") []]

/-- The program of the fair. -/
def fairProgram : Model :=
  Sketch.program [fair, Sketch.injectable "Tea" [] [], Sketch.plain "Cake",
    Sketch.injectable "Coffee" [] []]

/-- The cake of the fair is what planning fails at first. -/
theorem plannedApart_fair : invalid? ⟨0, fair, false⟩ = none ∧
    (plan fairProgram {} ⟨0, fair, false⟩).failure.map (·.trace)
      = some ["app.Fair.cake: app.Cake"] ∧
    PlannedApart fairProgram {} ⟨0, fair, false⟩ :=
  ⟨rfl, by decide +kernel, plannedApart fairProgram {} ⟨0, fair, false⟩ rfl⟩

end Component

end Wiring
