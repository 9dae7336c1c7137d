import Wiring.Proofs.Catalogue.Requirements
import Wiring.Proofs.Component.Caches
import Wiring.Proofs.Resolve.Origins

/-!
# Getters that call getters

The generated members of a component call each other: a plan that needs a value which only a
requirement of the component itself has calls the member of this requirement, whatever the plan of
that one is. They never call each other in a circle. The requirement is bound to its key only where
nothing else is, so nothing but its own type can have satisfied it, and what a type offers by
itself is a lambda or a lazy value, which calls nothing until it is used.
-/

namespace Wiring

namespace Plan

/-- Whether a plan gives its value at once and builds what is inside of it later: a lambda or a lazy
value. -/
def isDeferred : Plan → Bool
  | function .. | namedFunction .. | lazy _ => true
  | _ => false

/-- The member that a plan calls on the generated component itself. -/
def ownCall? : Plan → Option Callable
  | call none f _ => some f
  | extensionCall none f _ _ => some f
  | _ => none

/-- A part of a plan that is built whenever the plan is: no lambda and no lazy value is around
it. -/
inductive Eager (whole : Plan) : (part : Plan) → Prop where
  | whole : Eager whole whole
  | part {plan part : Plan} (h : Eager whole plan) (hd : plan.isDeferred = false)
      (hp : part ∈ plan.children) : Eager whole part

variable {whole part : Plan}

/-- A part that is built whenever the plan is, is a part of the plan. -/
theorem Eager.within (h : whole.Eager part) : part.Within whole := by
  induction h with
  | whole => exact .refl
  | part _ _ hp ih => exact .tail ih hp

/-- Nothing inside a deferred plan is built with it. -/
theorem Eager.of_deferred (h : whole.Eager part) (hd : whole.isDeferred = true) :
    part = whole := by
  induction h with
  | whole => rfl
  | part _ hnot _ ih =>
    rw [ih, hd] at hnot
    cases hnot

end Plan

namespace Resolver

variable {m : Model} {o : Options} {c : Classifier} {q : Request} {whole part : Plan}
  {f : Callable}

/-- A plan that calls a member of the component itself is that of a member without a path. -/
theorem member_of_ownCall {scope : Option String} {plans : List Plan} {s : Subject}
    (h : (s.plan scope plans).ownCall? = some f) :
    ∃ p, s = .member p ∧ p.callable = f ∧ p.accessor = none := by
  cases s with
  | member p =>
    refine ⟨p, rfl, ?_⟩
    rw [Subject.plan] at h
    cases hr : p.callable.receiver <;> cases ha : p.accessor <;> rw [hr, ha] at h <;> cases h <;>
      exact ⟨rfl, rfl⟩
  | constructor => cases h
  | lambda => cases h
  | function => cases h

/-- A member of the component itself that is called in a plan provides a value, or asks for one
that nothing else is bound to. -/
theorem resolve_of_ownCall (hc : c ∈ m.classifiers)
    (ha : (Component.resolver m o c).answer q = .ok whole) (hpart : part.Within whole)
    (h : part.ownCall? = some f) : f ∈ c.allMembers m ∧
      (Role.isProvides f = true ∨ (Catalogue.collect m o c).resolve m o
        (Collect.askedKey m o c f) true = .ok none) := by
  have he : part.isEntered = true := by
    cases part with
    | call => rfl
    | extensionCall => rfl
    | _ => cases h
  obtain ⟨q', _, _, _, candidate, s, _, hcand, ht, hv⟩ := exists_visit_of_within hc ha hpart he
  obtain ⟨_, plans, _, _, rfl⟩ := visit_eq_ok_iff.1 hv
  obtain ⟨p, rfl, rfl, haccessor⟩ := member_of_ownCall h
  obtain ⟨l, hl, hf, hpath, hrole⟩ := exists_level_of_task hcand ht
  have hnone : l.accessor = none := hpath.symm.trans haccessor
  rw [Collect.component_of_accessor hl hnone] at hf
  exact ⟨hf, hrole.imp_right fun hasked => hasked.2 hnone⟩

end Resolver

namespace Component

open Resolver Collect

variable {m : Model} {o : Options} {c : Classifier}

/-- The plan of a requirement whose key nothing else is bound to is deferred. -/
theorem isDeferred_of_resolve (hc : c ∈ m.classifiers) {s : ProviderPlan}
    (hs : s ∈ (plan m o c).providers)
    (h : (Catalogue.collect m o c).resolve m o (askedKey m o c s.callable) true = .ok none) :
    s.plan.isDeferred = true := by
  have ha := answer_of_mem_providers hs
  rw [answer_eq_step hc] at ha
  obtain ⟨candidate, plans, hcand, hplans, hplan⟩ := step_eq_ok_iff.1 ha
  rw [hplan]
  cases chosen_of_candidate hcand with
  | arg harg => cases harg
  | bound hf =>
    -- The requirement itself is left out.
    have hself : ((request (resolver m o c) c s.callable).context.skipProvider
        == some (request (resolver m o c) c s.callable).key.type) = true := beq_self_eq_true _
    have hfound := hf.found
    rw [hself] at hfound
    cases h.symm.trans hfound
  | offered ho =>
    cases ho with
    | lazy => rfl
    | function =>
      cases hplans with
      | cons hp _ =>
        obtain ⟨_, _, _, _, rfl⟩ := visit_eq_ok_iff.1 hp
        rfl
    | namedFunction =>
      cases hplans with
      | cons hp _ =>
        obtain ⟨_, _, _, _, rfl⟩ := visit_eq_ok_iff.1 hp
        rfl

/-- The member of the requirement `s` is called whenever that of the requirement `r` is. -/
def Calls (m : Model) (o : Options) (c : Classifier) (r s : ProviderPlan) : Prop :=
  r ∈ (plan m o c).providers ∧ s ∈ (plan m o c).providers ∧
    ∃ part f, r.plan.Eager part ∧ part.ownCall? = some f ∧ f.origin = s.callable.origin

/-- The generated members of a component do not call each other in a circle. -/
structure GettersRest (m : Model) (o : Options) (c : Classifier) : Prop where
  /-- All requirements have a generated member, if planning succeeds. -/
  generated : (plan m o c).failure = none →
    (plan m o c).providers.map (·.callable) = (Catalogue.collect m o c).requirementMembers
  /-- The plan of a requirement whose member is called is a lambda or a lazy value. -/
  deferred : ∀ r s, Calls m o c r s → s.plan.isDeferred = true
  /-- No chain of calls leads back to where it starts. -/
  acyclic : ∀ r, ¬ Relation.TransGen (Calls m o c) r r
  /-- No chain of calls goes on for ever. -/
  ends : WellFounded fun s r => Calls m o c r s

/-- A requirement whose member is called is deferred: it is bound where nothing else is. -/
theorem Calls.isDeferred (hc : c ∈ m.classifiers) {r s : ProviderPlan} (h : Calls m o c r s) :
    s.plan.isDeferred = true := by
  obtain ⟨hr, hs, part, f, heager, hown, horigin⟩ := h
  obtain ⟨hf, hrole⟩ := resolve_of_ownCall hc (answer_of_mem_providers hr) heager.within hown
  have hasked : s.callable ∈ askers m c := by
    rw [← Catalogue.requirementMembers_collect m o c]
    exact callable_of_mem_providers hs
  obtain ⟨hmember, hprovider⟩ := mem_askers_iff.1 hasked
  obtain rfl : f = s.callable :=
    Model.eq_of_origin_callables (Classifier.mem_callables_of_mem_allMembers hc hf)
      (Classifier.mem_callables_of_mem_allMembers hc hmember) horigin
  rcases hrole with hprovides | hnone
  · rw [isProvides_of_isProvider hprovider] at hprovides
    cases hprovides
  · exact isDeferred_of_resolve hc hs hnone

/-- A deferred plan calls nothing before its value is used. -/
theorem Calls.not_isDeferred {r s : ProviderPlan} (h : Calls m o c r s) :
    r.plan.isDeferred = false := by
  obtain ⟨_, _, part, f, heager, hown, _⟩ := h
  by_contra hd
  rw [Bool.not_eq_false] at hd
  rw [heager.of_deferred hd] at hown
  cases hplan : r.plan with
  | function => rw [hplan] at hown; cases hown
  | namedFunction => rw [hplan] at hown; cases hown
  | lazy => rw [hplan] at hown; cases hown
  | _ => rw [hplan] at hd; cases hd

/-- Generated members do not call each other in a circle, in any component. -/
theorem gettersRest (m : Model) (o : Options) (c : Classifier) (hc : c ∈ m.classifiers) :
    GettersRest m o c := by
  have hlast : ∀ {r s t : ProviderPlan}, Calls m o c r s → ¬ Calls m o c s t := by
    intro r s t hrs hst
    have hd := hrs.isDeferred hc
    rw [hst.not_isDeferred] at hd
    cases hd
  refine ⟨callables_of_failure, fun r s => Calls.isDeferred hc, fun r h => ?_, ⟨fun r => ?_⟩⟩
  · -- Whatever is called first on the way calls nothing.
    obtain ⟨s, hrs, hsr⟩ := Relation.TransGen.head'_iff.1 h
    rcases Relation.ReflTransGen.cases_head hsr with rfl | ⟨t, hst, _⟩
    · exact hlast hrs hrs
    · exact hlast hrs hst
  · exact ⟨r, fun s hrs => ⟨s, fun t hst => absurd hst (hlast hrs)⟩⟩

/-- A diner that serves a soup of the day, cooked whenever it is ordered. -/
def diner : ClassDecl :=
  Sketch.component "Diner" [] [] [
    Sketch.requirement "menu" (Sketch.type "Menu") [],
    Sketch.requirement "cook" (.function [] (Sketch.type "Soup")) []]

/-- The program of the diner. -/
def dinerProgram : Model :=
  Sketch.program [diner,
    Sketch.injectable "Menu" [] [Sketch.param "cook" (.function [] (Sketch.type "Soup")) []],
    Sketch.injectable "Soup" [] []]

/-- The menu is made with the very function that the diner is asked for. -/
theorem gettersRest_diner : ⟨0, diner, false⟩ ∈ dinerProgram.classifiers ∧
    (plan dinerProgram {} ⟨0, diner, false⟩).providers.map (·.plan.displayText)
      = ["Constructor(app.Menu, Provides(cook))", "Function(Constructor(app.Soup))"] ∧
    GettersRest dinerProgram {} ⟨0, diner, false⟩ := by
  have hc : ⟨0, diner, false⟩ ∈ dinerProgram.classifiers := Model.mem_classifiers.2 ⟨rfl, rfl⟩
  exact ⟨hc, by decide +kernel, gettersRest dinerProgram {} ⟨0, diner, false⟩ hc⟩

end Component

end Wiring
