import Wiring.Proofs.Component.Caches

/-!
# Arguments in cached values

What a lambda is called with can end up in a cache. A plan has no argument that no lambda around it
binds, so what the requirements of a component are built from is closed. But the value that fills
the entry of a cache is built with the parameters of the innermost lambda around it at hand, and a
parameter that is asked for on the way to it, at any depth, takes the one of these that stands at
its own place, counted from the end, if its type accepts it. Every argument in a cached value is
there in this way.
-/

namespace Wiring

namespace Plan

/-- An argument of a plan has the given name, and no lambda of the plan binds it. -/
inductive Free (name : String) : Plan → Prop where
  | arg : Free name (.arg name)
  | part {whole part : Plan} (hp : part ∈ whole.children)
      (hb : ∀ params, whole.lambda? = some params → name ∉ params.map (·.2))
      (h : Free name part) : Free name whole

/-- A plan is part of another one, and `args` are the parameters of the innermost lambda around
it. -/
inductive Inside (whole : Plan) : (args : LambdaParams) → (part : Plan) → Prop where
  | whole : Inside whole [] whole
  | part {args : LambdaParams} {plan part : Plan} (h : Inside whole args plan)
      (hp : part ∈ plan.children) : Inside whole (plan.lambda?.getD args) part

/-- A name is free in a plan if it is the plan, or if it is free in a part and no parameter of the
plan has it. -/
theorem free_iff {name : String} {plan : Plan} : plan.Free name ↔ plan = .arg name
    ∨ (∀ params, plan.lambda? = some params → name ∉ params.map (·.2)) ∧
      ∃ part ∈ plan.children, part.Free name := by
  constructor
  · intro h
    cases h with
    | arg => exact .inl rfl
    | part hp hb h => exact .inr ⟨hb, _, hp, h⟩
  · rintro (rfl | ⟨hb, part, hp, h⟩)
    · exact .arg
    · exact .part hp hb h

end Plan

namespace Resolver

variable {r : Resolver} {answer : Request → Except Failure Plan} {q q' : Request} {plan : Plan}
  {name : String}

/-- A request is for a parameter at the place of the lambda parameter `name`, and of a type that
accepts it. -/
def Takes (r : Resolver) (q : Request) (name : String) : Prop :=
  ∃ i type, q.fromEnd = some i ∧ q.context.args.reverse[i]? = some (type, name) ∧
    r.model.isAssignable q.key.type type = true

/-- A request asks another one, with no lambda in between. -/
def AsksHere (r : Resolver) (q q' : Request) : Prop :=
  ∃ s, r.Asks q s q' ∧ s.bind Subject.lambda? = none

/-- A request takes a lambda parameter exactly if the search for an argument at its place gives it.
-/
theorem takes_iff_argAt : r.Takes q name ↔
    q.fromEnd.bind (r.argAt? q.key q.context) = some name := by
  constructor
  · rintro ⟨i, type, hi, ha, ht⟩
    rw [hi, Option.bind_some, argAt?, ha]
    exact if_pos ht
  · intro h
    obtain ⟨i, hi, h⟩ := Option.bind_eq_some_iff.1 h
    rw [argAt?] at h
    split at h
    · next type name' ha =>
      obtain ⟨ht, hname⟩ := Option.ite_none_right_eq_some.1 h
      rw [← Option.some.inj hname]
      exact ⟨i, type, hi, ha, ht⟩
    · cases h

/-- A request takes a lambda parameter exactly if that is its candidate. -/
theorem takes_iff : r.Takes q name ↔
    r.candidate q.key q.context q.fromEnd = .ok (some (.arg name)) := by
  rw [takes_iff_argAt]
  constructor
  · intro h
    rw [candidate, h]
  · intro h
    have hc := chosen_of_candidate h
    generalize hcand : Candidate.arg name = candidate at hc
    cases hc with
    | arg ha =>
      cases hcand
      exact ha
    | @bound b =>
      have hbound := isBound_ofBinding q.key q.context b
      rw [← hcand] at hbound
      cases hbound
    | offered ho => cases ho <;> cases hcand

/-- Where no parameter of a lambda is taken, the place of a request does not count. -/
theorem candidate_of_not_takes (h : ∀ name, ¬ r.Takes q name) :
    r.candidate q.key q.context q.fromEnd = r.find q.key q.context := by
  have hnone : q.fromEnd.bind (r.argAt? q.key q.context) = none :=
    Option.eq_none_iff_forall_ne_some.2 fun name hname => h name (takes_iff_argAt.2 hname)
  rw [candidate, hnone]

/-- What is asked through a lambda is asked with its parameters at hand, and everything else with
those that were at hand before. -/
theorem Asks.args {s : Option Subject} (h : r.Asks q s q') :
    q'.context.args = (s.bind Subject.lambda?).getD q.context.args := by
  cases s with
  | none =>
    rcases h.onward_cases with ⟨_, _, _, _, _, rfl⟩ | ⟨_, _, _, rfl⟩ <;> rfl
  | some s =>
    cases h with
    | inside _ _ he hn =>
      obtain ⟨_, hcontext⟩ := context_of_mem_needs hn
      rw [hcontext, (Context.enter?_eq_some he).2.2]
      rfl

/-- Requests made in the same context have the same arguments. -/
theorem args_of_reflTransGen (h : Relation.ReflTransGen r.AsksHere q q') :
    q'.context.args = q.context.args := by
  induction h with
  | refl => rfl
  | tail _ hstep ih =>
    obtain ⟨s, hasks, hs⟩ := hstep
    rw [hasks.args, hs, Option.getD_none, ih]

/-- A plan is an argument exactly where its request takes it. -/
theorem takes_iff_of_step : r.Takes q name ↔ r.step answer q = .ok (.arg name) := by
  rw [takes_iff]
  constructor
  · intro hc
    exact step_eq_ok_iff.2 ⟨.arg name, [], hc, .nil, rfl⟩
  · intro h
    generalize hplan : Plan.arg name = plan at h
    cases stepped_of_step h with
    | arg hc =>
      cases hplan
      exact hc
    | visited _ _ hv =>
      obtain ⟨context, parts, _, _, rfl⟩ := visit_eq_ok_iff.1 hv
      exact absurd hplan.symm (Plan.ne_arg_of_isEntered (isEntered_subject_plan _ _ _) name)
    | cached => cases hplan
    | lazy => cases hplan
    | container => cases hplan

/-- The arguments of a plan are the one that its request takes, and those of the plans it asks for,
without those that are bound on the way. -/
theorem free_of_step (h : r.step answer q = .ok plan) : plan.Free name ↔ r.Takes q name
    ∨ ∃ s q' inner, r.Asks q s q' ∧ answer q' = .ok inner ∧ inner.Free name ∧
      ∀ params, s.bind Subject.lambda? = some params → name ∉ params.map (·.2) := by
  constructor
  · intro hfree
    rcases Plan.free_iff.1 hfree with rfl | ⟨hb, part, hpart, hfree⟩
    · exact .inl (takes_iff_of_step.2 h)
    · rcases children_of_step h hpart with ⟨s, q', hasks, ha, hs⟩ | ⟨_, _, _, he, _, hcall⟩
      · rw [← hs] at hb
        exact .inr ⟨s, q', part, hasks, ha, hfree, hb⟩
      · -- The call of a contributor is no argument and binds none.
        rcases Plan.free_iff.1 hfree with rfl | ⟨_, child, hchild, hfree⟩
        · cases he
        · obtain ⟨s, q', hasks, ha, hs⟩ := hcall child hchild
          exact .inr ⟨s, q', child, hasks, ha, hfree, by simp [hs]⟩
  · rintro (htakes | ⟨s, q', inner, hasks, ha, hfree, hb⟩)
    · rw [takes_iff_of_step.1 htakes] at h
      cases h
      exact .arg
    · obtain ⟨part, ha', hpart⟩ := child_of_asked h hasks
      rw [ha] at ha'
      cases ha'
      rcases hpart with ⟨hpart, hs⟩ | ⟨hplan, _, call, hcall, hlambda, hpart⟩
      · rw [← hs] at hb
        exact .part hpart hb hfree
      · exact .part hcall (by simp [hplan]) (.part hpart (by simp [hlambda]) hfree)

section Component

variable {m : Model} {o : Options} {c : Classifier}

/-- Every argument of a plan that is not bound in it is one at hand. -/
theorem mem_args_of_free (hc : c ∈ m.classifiers)
    (h : (Component.resolver m o c).answer q = .ok plan) (hfree : plan.Free name) :
    name ∈ q.context.args.map (·.2) := by
  induction acc_asks (o := o) hc q generalizing plan with
  | intro q _ ih =>
    rw [answer_eq_step hc] at h
    rcases (free_of_step h).1 hfree with ⟨i, type, _, ha, _⟩ | ⟨s, q', inner, hasks, ha, hin, hb⟩
    · have hmem := List.mem_reverse.1 (List.mem_of_getElem? ha)
      exact List.mem_map.2 ⟨(type, name), hmem, rfl⟩
    · have hargs := ih q' ⟨s, hasks⟩ ha hin
      rw [hasks.args] at hargs
      cases hs : s.bind Subject.lambda? with
      | none =>
        rw [hs] at hargs
        exact hargs
      | some params =>
        rw [hs] at hargs
        exact absurd hargs (hb params hs)

/-- The arguments of a plan that are not bound in it are those that are taken below its request,
with no lambda in between. -/
theorem free_iff (hc : c ∈ m.classifiers) (h : (Component.resolver m o c).answer q = .ok plan) :
    plan.Free name ↔ ∃ q', Relation.ReflTransGen (Component.resolver m o c).AsksHere q q' ∧
      (Component.resolver m o c).Takes q' name := by
  constructor
  · intro hfree
    induction acc_asks (o := o) hc q generalizing plan with
    | intro q _ ih =>
      rw [answer_eq_step hc] at h
      rcases (free_of_step h).1 hfree with htakes | ⟨s, q', inner, hasks, ha, hin, hb⟩
      · exact ⟨q, .refl, htakes⟩
      · cases hs : s.bind Subject.lambda? with
        | none =>
          obtain ⟨q'', hpath, htakes⟩ := ih q' ⟨s, hasks⟩ ha hin
          exact ⟨q'', .head ⟨s, hasks, hs⟩ hpath, htakes⟩
        | some params =>
          -- Inside a lambda only its own parameters are at hand, and they are bound.
          have hargs := mem_args_of_free hc ha hin
          rw [hasks.args, hs] at hargs
          exact absurd hargs (hb params hs)
  · rintro ⟨q', hpath, htakes⟩
    induction hpath using Relation.ReflTransGen.head_induction_on generalizing plan with
    | refl =>
      rw [answer_eq_step hc] at h
      exact (free_of_step h).2 (.inl htakes)
    | head hstep _ ih =>
      obtain ⟨s, hasks, hs⟩ := hstep
      rw [answer_eq_step hc] at h
      obtain ⟨inner, ha⟩ := hasks.answered h
      refine (free_of_step h).2 (.inr ⟨s, _, inner, hasks, ha, ih ha, fun params hp => ?_⟩)
      rw [hs] at hp
      cases hp

end Component

end Resolver

namespace Component

open Resolver

variable {m : Model} {o : Options} {c : Classifier}

/-- No cached value has an argument that is bound around it. -/
def NeverCaptures (m : Model) (o : Options) (c : Classifier) : Prop :=
  ∀ p ∈ (plan m o c).providers, ∀ accessor owner key inner,
    (Plan.cached accessor owner key inner).Within p.plan → ∀ name, ¬ inner.Free name

/-- Cached values have arguments that are bound around them by place and type only. -/
structure CapturesByPlace (m : Model) (o : Options) (c : Classifier) : Prop where
  /-- Every argument of a plan is bound by a lambda around it. -/
  closed : ∀ p ∈ (plan m o c).providers, ∀ name, ¬ p.plan.Free name
  /-- The plan that fills an entry inside a lambda with the parameters `args` has an argument that
  is bound around it exactly where a parameter that is asked for below the entry, with no further
  lambda in between, stands as far from the end as one of `args` and accepts its type. -/
  captured : ∀ p ∈ (plan m o c).providers, ∀ args accessor owner key inner,
    p.plan.Inside args (.cached accessor owner key inner) → ∃ q : Request,
      (resolver m o c).answer q = .ok inner ∧ q.key.type.sourceText = key ∧ q.context.args = args ∧
      ∀ name, inner.Free name ↔ ∃ q' i type,
        Relation.ReflTransGen (resolver m o c).AsksHere q q' ∧ q'.fromEnd = some i ∧
        args.reverse[i]? = some (type, name) ∧ m.isAssignable q'.key.type type = true

/-- Whatever is taken from a cache in a plan answers a request with the parameters of the innermost
lambda around it at hand. -/
theorem answered_of_inside (hc : c ∈ m.classifiers) {p : ProviderPlan}
    (hp : p ∈ (plan m o c).providers) {args : LambdaParams} {part : Plan}
    (h : p.plan.Inside args part) (hcached : part.isCached = true) :
    ∃ q, (resolver m o c).answer q = .ok part ∧ q.context.args = args := by
  have hall : (∃ q, (resolver m o c).answer q = .ok part ∧ q.context.args = args)
      ∨ part.lambda? = none ∧ part.isCached = false ∧ ∀ child ∈ part.children, ∃ q,
        (resolver m o c).answer q = .ok child ∧ q.context.args = args := by
    clear hcached
    induction h with
    | whole => exact .inl ⟨_, answer_of_mem_providers hp, rfl⟩
    | @part args whole part _ hpart ih =>
      rcases ih with ⟨q, ha, rfl⟩ | ⟨hlambda, _, hchildren⟩
      · rw [answer_eq_step hc] at ha
        rcases children_of_step ha hpart with ⟨s, q', hasks, ha', hs⟩ | ⟨_, _, rfl, he, hl, hcall⟩
        · exact .inl ⟨q', ha', by rw [hasks.args, hs]⟩
        · refine .inr ⟨hl, Plan.isCached_of_isEntered he, fun child hchild => ?_⟩
          obtain ⟨s, q', hasks, ha', hs⟩ := hcall child hchild
          exact ⟨q', ha', by rw [hasks.args, hs]; rfl⟩
      · rw [hlambda]
        exact .inl (hchildren part hpart)
  rcases hall with hasked | ⟨_, hu, _⟩
  · exact hasked
  · rw [hcached] at hu
    cases hu

/-- Cached values capture by place and type, in all plans of all components. -/
theorem capturesByPlace (m : Model) (o : Options) (c : Classifier) (hc : c ∈ m.classifiers) :
    CapturesByPlace m o c where
  closed p hp name hfree := by
    have hargs := mem_args_of_free hc (answer_of_mem_providers hp) hfree
    exact absurd hargs List.not_mem_nil
  captured p hp args accessor owner key inner h := by
    obtain ⟨q, ha, rfl⟩ := answered_of_inside hc hp h rfl
    have hstep := ha
    rw [answer_eq_step hc] at hstep
    rcases cached_of_step hstep with ⟨hu, _⟩ | ⟨owner', inner', _, ha', he⟩
    · cases hu
    cases he
    refine ⟨_, ha', rfl, rfl, fun name => ?_⟩
    rw [free_iff hc ha']
    constructor
    · rintro ⟨q', hpath, i, type, hi, hplace, ht⟩
      rw [args_of_reflTransGen hpath] at hplace
      exact ⟨q', i, type, hpath, hi, hplace, ht⟩
    · rintro ⟨q', i, type, hpath, hi, hplace, ht⟩
      refine ⟨q', hpath, i, type, hi, ?_, ht⟩
      rw [args_of_reflTransGen hpath]
      exact hplace

/-- A kiosk that keeps the bread it bakes, and is handed the flour. -/
def kiosk : ClassDecl :=
  Sketch.component "Kiosk" ["app.Single"] [] [
    Sketch.requirement "bake" (.function [Sketch.type "Flour"] (Sketch.type "Bread")) []]

/-- The program of the kiosk. -/
def kioskProgram : Model :=
  Sketch.program [kiosk,
    Sketch.injectable "Bread" ["app.Single"] [Sketch.param "flour" (Sketch.type "Flour") []],
    Sketch.injectable "Flour" [] []]

/-- The bread is kept, and is made from the argument of the function around it. -/
theorem capturesByPlace_kiosk : ⟨0, kiosk, false⟩ ∈ kioskProgram.classifiers ∧
    (plan kioskProgram {} ⟨0, kiosk, false⟩).providers.map (·.plan.displayText)
      = ["Function(arg0 -> Scoped(Constructor(app.Bread, Arg(arg0))))"] ∧
    CapturesByPlace kioskProgram {} ⟨0, kiosk, false⟩ := by
  have hc : ⟨0, kiosk, false⟩ ∈ kioskProgram.classifiers := Model.mem_classifiers.2 ⟨rfl, rfl⟩
  exact ⟨hc, by decide +kernel, capturesByPlace kioskProgram {} ⟨0, kiosk, false⟩ hc⟩

/-- The bread that is kept is baked from the flour of the first call. -/
theorem not_neverCaptures_kiosk : ⟨0, kiosk, false⟩ ∈ kioskProgram.classifiers ∧
    (plan kioskProgram {} ⟨0, kiosk, false⟩).failure.isNone = true ∧
    ¬ NeverCaptures kioskProgram {} ⟨0, kiosk, false⟩ := by
  refine ⟨Model.mem_classifiers.2 ⟨rfl, rfl⟩, by decide +kernel, fun h => ?_⟩
  obtain ⟨p, params, accessor, owner, key, bread, hp, hplan⟩ : ∃ p params accessor owner key bread,
      (plan kioskProgram {} ⟨0, kiosk, false⟩).providers = [p] ∧
      p.plan = .function params (.cached accessor owner key (.construct bread [.arg "arg0"])) :=
    ⟨_, _, _, _, _, _, rfl, rfl⟩
  have hmem : p ∈ (plan kioskProgram {} ⟨0, kiosk, false⟩).providers := by
    rw [hp]
    exact List.mem_singleton.2 rfl
  have hwithin :
      (Plan.cached accessor owner key (.construct bread [.arg "arg0"])).Within p.plan := by
    rw [hplan]
    exact .single (List.mem_singleton.2 rfl)
  refine h p hmem accessor owner key _ hwithin "arg0" ?_
  refine .part (List.mem_singleton.2 rfl) (fun _ hlambda => ?_) .arg
  cases hlambda

end Component

end Wiring
