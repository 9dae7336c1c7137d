import Wiring.Proofs.Component.Captures

/-!
# Arguments and the lambdas that bind them

All lambdas call their parameters `arg0`, `arg1` and so on, so a lambda inside another one hides
the parameters of the outer one. Resolution replaces the parameters at hand likewise when it enters
a lambda, and hands them on everywhere else: through constructors, calls, receivers, collections,
caches and lazy values. The lambdas around a part of a plan are therefore those that were entered
on the way to the request it answers, and the name of an argument refers to the very parameter that
was chosen for it.
-/

namespace Wiring

namespace LambdaParams

/-- Parameters made for types have those types. -/
theorem types_ofTypes (types : List TypeExpr) : (ofTypes types).map (·.1) = types := by
  rw [ofTypes, List.map_map]
  exact List.zipIdx_map_fst 0 types

/-- The name of a parameter tells its place. -/
theorem argName_injective : Function.Injective fun i : Nat => "arg" ++ toString i := by
  intro i j h
  have hdigits : Nat.toDigits 10 i = Nat.toDigits 10 j := by
    have hlists := congrArg String.toList h
    simpa only [String.toList_append, Nat.toString_eq_repr, Nat.toList_repr,
      List.append_cancel_left_eq] using hlists
  rw [← Nat.ofDigitChars_ten_toDigits (n := i), hdigits, Nat.ofDigitChars_ten_toDigits]

/-- The parameters of a lambda have different names. -/
theorem nodup_ofTypes (types : List TypeExpr) : ((ofTypes types).map (·.2)).Nodup := by
  have hnames : (ofTypes types).map (·.2)
      = (List.range types.length).map fun i => "arg" ++ toString i := by
    rw [ofTypes, List.map_map, List.range_eq_range', ← List.zipIdx_map_snd, List.map_map]
    rfl
  rw [hnames]
  exact List.nodup_range.map argName_injective

/-- What a name refers to inside lambdas with the given parameters, the innermost lambda first: how
many lambdas there are in between, and the place among the parameters. -/
def referent (name : String) : List LambdaParams → Option (Nat × Nat)
  | [] => none
  | params :: outer =>
    match (params.map (·.2)).idxOf? name with
    | some place => some (0, place)
    | none => (referent name outer).map fun (depth, place) => (depth + 1, place)

/-- Where no two parameters have one name, a name refers to the parameter of the innermost lambda
that has it. -/
theorem referent_cons {params : LambdaParams} {i : Nat} {type : TypeExpr} {name : String}
    (hn : (params.map (·.2)).Nodup) (h : params.reverse[i]? = some (type, name))
    (outer : List LambdaParams) :
    referent name (params :: outer) = some (0, params.length - 1 - i) := by
  obtain ⟨hi, hparam⟩ := List.getElem?_eq_some_iff.1 h
  rw [List.length_reverse] at hi
  rw [List.getElem_reverse] at hparam
  have hplace : params.length - 1 - i < (params.map (·.2)).length := by
    rw [List.length_map]
    omega
  have hname : (params.map (·.2))[params.length - 1 - i] = name := by
    rw [List.getElem_map, hparam]
  have hidx : (params.map (·.2)).idxOf? name = some (params.length - 1 - i) := by
    rw [List.idxOf?_eq_some_iff]
    refine ⟨hplace, hname, fun j hj he => ?_⟩
    rw [← hname] at he
    exact absurd (hn.getElem_inj_iff.1 he) (Nat.ne_of_lt hj)
  rw [referent, hidx]

end LambdaParams

namespace Plan

/-- A plan is part of another one, and `lambdas` are the parameters of the lambdas around it, the
innermost one first. -/
inductive Under (whole : Plan) : (lambdas : List LambdaParams) → (part : Plan) → Prop where
  | whole : Under whole [] whole
  | part {lambdas : List LambdaParams} {plan part : Plan} (h : Under whole lambdas plan)
      (hp : part ∈ plan.children) : Under whole (plan.lambda?.toList ++ lambdas) part

end Plan

namespace Resolver

variable {r : Resolver} {answer : Request → Except Failure Plan} {q q' root : Request} {plan : Plan}
  {name : String} {lambdas : List LambdaParams}

/-- A request is asked on behalf of another one, and `lambdas` are the parameters of the lambdas
that are entered on the way, the innermost one first. -/
def AsksUnder (r : Resolver) (root : Request) (lambdas : List LambdaParams) (q : Request) : Prop :=
  ∃ trail, r.AsksThrough root trail q ∧ trail.filterMap Subject.lambda? = lambdas

/-- One more thing being resolved adds the lambda that it enters, if it enters one. -/
theorem lambdas_of_trail (s : Option Subject) (trail : List Subject) :
    (s.toList ++ trail).filterMap Subject.lambda?
      = (s.bind Subject.lambda?).toList ++ trail.filterMap Subject.lambda? := by
  cases s with
  | none => rfl
  | some s => cases hs : s.lambda? <;> simp [hs]

/-- What is asked for next stands under the lambda that is entered on the way, if one is. -/
theorem AsksUnder.asked {s : Option Subject} (h : r.AsksUnder root lambdas q)
    (hq : r.Asks q s q') : r.AsksUnder root ((s.bind Subject.lambda?).toList ++ lambdas) q' := by
  obtain ⟨trail, htrail, rfl⟩ := h
  exact ⟨_, .asked htrail hq, lambdas_of_trail s trail⟩

/-- The parameters at hand are those of the innermost lambda that was entered. -/
theorem AsksUnder.args (h : r.AsksUnder root lambdas q) :
    q.context.args = lambdas.headD root.context.args := by
  obtain ⟨trail, htrail, rfl⟩ := h
  induction htrail with
  | root => rfl
  | @asked trail q q' s _ hq ih =>
    rw [hq.args, lambdas_of_trail]
    cases s.bind Subject.lambda? with
    | none => exact ih
    | some params => rfl

/-- The lambdas that are entered name their parameters in one way. -/
theorem AsksUnder.exists_types (h : r.AsksUnder root lambdas q) :
    ∀ params ∈ lambdas, ∃ types, params = .ofTypes types := by
  obtain ⟨trail, _, rfl⟩ := h
  intro params hp
  obtain ⟨s, _, hs⟩ := List.mem_filterMap.1 hp
  cases s with
  | lambda _ types _ => exact ⟨types, (Option.some.inj hs).symm⟩
  | function _ types => exact ⟨types, (Option.some.inj hs).symm⟩
  | member => cases hs
  | constructor => cases hs

/-- A plan that is a lambda answers a request for a function type, and takes its parameters. -/
theorem signature_of_step (h : r.step answer q = .ok plan) {params : LambdaParams}
    (hl : plan.lambda? = some params) : ∃ types result,
      q.key.type.signature? = some (types, result) ∧ params = .ofTypes types := by
  cases stepped_of_step h with
  | arg => cases hl
  | cached => cases hl
  | lazy => cases hl
  | container => cases hl
  | @visited candidate s _ hc ht hv =>
    obtain ⟨context, parts, _, _, rfl⟩ := visit_eq_ok_iff.1 hv
    rw [lambda_subject_plan] at hl
    exact signature_of_enter_mem_tasks hc (by rw [ht]; exact List.mem_singleton.2 rfl) hl

section Component

variable {m : Model} {o : Options} {c : Classifier} {whole part : Plan}

/-- The parts of a plan answer the requests that are asked through the lambdas around them. The
calls of contributors are no answers, but what they are made of is. -/
theorem asked_of_under (hc : c ∈ m.classifiers)
    (h : (Component.resolver m o c).answer root = .ok whole) (hu : whole.Under lambdas part) :
    (∃ q, (Component.resolver m o c).AsksUnder root lambdas q ∧
        (Component.resolver m o c).answer q = .ok part)
      ∨ part.lambda? = none ∧ (∀ name, part ≠ .arg name) ∧ ∀ child ∈ part.children, ∃ q,
        (Component.resolver m o c).AsksUnder root lambdas q ∧
          (Component.resolver m o c).answer q = .ok child := by
  induction hu with
  | whole => exact .inl ⟨root, ⟨[], .root, rfl⟩, h⟩
  | part _ hp ih =>
    rcases ih with ⟨q, hq, ha⟩ | ⟨hlambda, _, hchildren⟩
    · rw [answer_eq_step hc] at ha
      rcases children_of_step ha hp with ⟨s, q', hasks, ha', hs⟩ | ⟨_, _, rfl, he, hl, hchildren⟩
      · rw [← hs]
        exact .inl ⟨q', hq.asked hasks, ha'⟩
      · refine .inr ⟨hl, Plan.ne_arg_of_isEntered he, fun child hchild => ?_⟩
        obtain ⟨s, q', hasks, ha', hs⟩ := hchildren child hchild
        have hunder := hq.asked hasks
        rw [hs] at hunder
        exact ⟨q', hunder, ha'⟩
    · rw [hlambda]
      exact .inl (hchildren _ hp)

/-- What is asked through lambdas is answered by a part of the plan inside these lambdas. -/
theorem under_of_asked (hc : c ∈ m.classifiers)
    (h : (Component.resolver m o c).answer root = .ok whole)
    (hq : (Component.resolver m o c).AsksUnder root lambdas q) :
    ∃ part, (Component.resolver m o c).answer q = .ok part ∧ whole.Under lambdas part := by
  obtain ⟨trail, htrail, rfl⟩ := hq
  induction htrail with
  | root => exact ⟨whole, h, .whole⟩
  | asked _ hasks ih =>
    obtain ⟨plan, ha, hu⟩ := ih
    rw [answer_eq_step hc] at ha
    rw [lambdas_of_trail]
    obtain ⟨part, ha', ⟨hpart, hs⟩ | ⟨hplan, hs, call, hcall, hlambda, hpart⟩⟩ :=
      child_of_asked ha hasks
    · rw [← hs]
      exact ⟨part, ha', .part hu hpart⟩
    · have hunder := Plan.Under.part (.part hu hcall) hpart
      rw [hplan, hlambda] at hunder
      rw [hs]
      exact ⟨part, ha', hunder⟩

end Component

end Resolver

namespace Component

open Resolver

variable {m : Model} {o : Options} {c : Classifier}

/-- Every argument refers to the parameter that was chosen for it. -/
structure Hygienic (m : Model) (o : Options) (c : Classifier) : Prop where
  /-- An argument is inside a lambda. It answers a request that is asked through the very lambdas
  around it, and is the parameter of the innermost one that stands as far from the end as what is
  requested, and that its name refers to. -/
  bound : ∀ p ∈ (plan m o c).providers, ∀ lambdas name, p.plan.Under lambdas (.arg name) →
    ∃ params outer q i type, lambdas = params :: outer ∧
      (resolver m o c).AsksUnder (request (resolver m o c) c p.callable) lambdas q ∧
      (resolver m o c).candidate q.key q.context q.fromEnd = .ok (some (.arg name)) ∧
      q.fromEnd = some i ∧ params.reverse[i]? = some (type, name) ∧
      m.isAssignable q.key.type type = true ∧
      LambdaParams.referent name lambdas = some (0, params.length - 1 - i)
  /-- Wherever an argument is chosen for a request, the plan has it inside the lambdas that the
  request is asked through. -/
  chosen : ∀ p ∈ (plan m o c).providers, ∀ lambdas q name,
    (resolver m o c).AsksUnder (request (resolver m o c) c p.callable) lambdas q →
    (resolver m o c).candidate q.key q.context q.fromEnd = .ok (some (.arg name)) →
    p.plan.Under lambdas (.arg name)
  /-- No plan has an unbound argument. -/
  closed : ∀ p ∈ (plan m o c).providers, ∀ name, ¬ p.plan.Free name
  /-- A lambda has the parameters of the function type that is requested, as many and of the same
  types, under names that differ. -/
  distinct : ∀ p ∈ (plan m o c).providers, ∀ lambdas part params, p.plan.Under lambdas part →
    part.lambda? = some params → (params.map (·.2)).Nodup ∧ ∃ q types result,
      (resolver m o c).AsksUnder (request (resolver m o c) c p.callable) lambdas q ∧
      (resolver m o c).answer q = .ok part ∧
      q.key.type.signature? = some (types, result) ∧ params.map (·.1) = types

/-- Arguments are hygienic in all plans of all components. -/
theorem hygienic (m : Model) (o : Options) (c : Classifier) (hc : c ∈ m.classifiers) :
    Hygienic m o c where
  bound p hp lambdas name hu := by
    have hroot := answer_of_mem_providers hp
    obtain ⟨q, hq, ha⟩ | ⟨_, harg, _⟩ := asked_of_under hc hroot hu
    · rw [answer_eq_step hc, ← takes_iff_of_step] at ha
      have hcand := takes_iff.1 ha
      obtain ⟨i, type, hi, hplace, ht⟩ := ha
      have hargs := hq.args
      cases lambdas with
      | nil =>
        rw [hargs] at hplace
        cases hplace
      | cons params outer =>
        rw [hargs] at hplace
        obtain ⟨types, rfl⟩ := hq.exists_types params (List.mem_cons_self ..)
        have hrefers := LambdaParams.referent_cons (LambdaParams.nodup_ofTypes types) hplace outer
        exact ⟨_, outer, q, i, type, rfl, hq, hcand, hi, hplace, ht, hrefers⟩
    · exact absurd rfl (harg name)
  chosen p hp lambdas q name hq hcand := by
    have hroot := answer_of_mem_providers hp
    obtain ⟨part, ha, hu⟩ := under_of_asked hc hroot hq
    rw [answer_eq_step hc, takes_iff_of_step.1 (takes_iff.2 hcand)] at ha
    cases ha
    exact hu
  closed p hp name hfree := by
    have hargs := mem_args_of_free hc (answer_of_mem_providers hp) hfree
    exact absurd hargs List.not_mem_nil
  distinct p hp lambdas part params hu hl := by
    have hroot := answer_of_mem_providers hp
    obtain ⟨q, hq, ha⟩ | ⟨hnone, _⟩ := asked_of_under hc hroot hu
    · have hstep := ha
      rw [answer_eq_step hc] at hstep
      obtain ⟨types, result, hs, rfl⟩ := signature_of_step hstep hl
      exact ⟨LambdaParams.nodup_ofTypes types, q, types, result, hq, ha, hs,
        LambdaParams.types_ofTypes types⟩
    · rw [hl] at hnone
      cases hnone

/-- A mill whose dough is mixed when it is called, of its own flour and of water that comes
later. -/
def mill : ClassDecl :=
  Sketch.component "Mill" [] [] [
    Sketch.requirement "dough" (.function [Sketch.type "Flour"] (Sketch.type "Dough")) []]

/-- The program of the mill. -/
def millProgram : Model :=
  Sketch.program [mill,
    Sketch.injectable "Dough" [] [
      Sketch.param "mix" (.function [Sketch.type "Water"] (Sketch.type "Paste")) [],
      Sketch.param "flour" (Sketch.type "Flour") []],
    Sketch.injectable "Paste" [] [Sketch.param "water" (Sketch.type "Water") []]]

/-- The two arguments of one name refer to the parameters of different lambdas. -/
theorem hygienic_mill : ⟨0, mill, false⟩ ∈ millProgram.classifiers ∧
    (plan millProgram {} ⟨0, mill, false⟩).providers.map (·.plan.displayText)
      = ["Function(arg0 -> Constructor(app.Dough, "
        ++ "Function(arg0 -> Constructor(app.Paste, Arg(arg0))), Arg(arg0)))"] ∧
    Hygienic millProgram {} ⟨0, mill, false⟩ := by
  have hc : ⟨0, mill, false⟩ ∈ millProgram.classifiers := Model.mem_classifiers.2 ⟨rfl, rfl⟩
  exact ⟨hc, by decide +kernel, hygienic millProgram {} ⟨0, mill, false⟩ hc⟩

end Component

end Wiring
