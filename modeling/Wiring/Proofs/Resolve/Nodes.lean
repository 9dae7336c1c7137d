import Wiring.Proofs.Resolve.Termination

/-!
# Nodes of a plan

The nodes of the plan that answers a request, each with the request it answers. A node knows the
plan that asked for it and the key whose cache entry is being filled around it. All subplans of a
plan are nodes, apart from the calls of contributors, which belong to the node of their
collection.
-/

namespace Wiring

namespace Plan

/-- The plans that a plan is directly made of. -/
def children : Plan → List Plan
  | call _ _ args => args
  | extensionCall _ _ receiver args => receiver :: args
  | cached _ _ _ inner => [inner]
  | construct _ args => args
  | container _ parts => parts
  | function _ body => [body]
  | namedFunction _ _ args => args
  | arg _ => []
  | lazy inner => [inner]

/-- Whether a plan takes its value from a cache. -/
def isCached : Plan → Bool
  | cached .. => true
  | _ => false

/-- Whether a plan calls a member or a constructor, or is a lambda. -/
def isEntered : Plan → Bool
  | call .. | extensionCall .. | construct .. | function .. | namedFunction .. => true
  | _ => false

/-- The parameters of a plan that is a lambda. -/
def lambda? : Plan → Option LambdaParams
  | function params _ => some params
  | namedFunction _ params _ => some params
  | _ => none

/-- What is entered is not taken from a cache. -/
theorem isCached_of_isEntered {plan : Plan} (h : plan.isEntered = true) :
    plan.isCached = false := by
  cases plan with
  | cached => cases h
  | _ => rfl

/-- What is entered is no argument. -/
theorem ne_arg_of_isEntered {plan : Plan} (h : plan.isEntered = true) (name : String) :
    plan ≠ .arg name := by
  rintro rfl
  cases h

end Plan

/-- The request that fills the cache entry of what a request asks for. -/
def Request.entry (q : Request) : Request := ⟨q.key, q.context.withoutScoped q.key.type, none⟩

/-- The subjects that are entered to build a binding. -/
def Binding.subjects : Binding → List Subject
  | .constructor k _ => [.constructor k]
  | .provider p => [.member p]
  | .container k => k.parts.map .member

namespace Binding

/-- A binding without its scope has its subjects to enter. -/
theorem tasks_unscoped (b : Binding) (key : Key) (c : Context) :
    b.unscoped.tasks key c = b.subjects.map .enter := by
  cases b with
  | container k =>
    rw [unscoped, Candidate.tasks, subjects, List.map_map]
    rfl
  | _ => rfl

/-- A binding without its scope is not kept. -/
theorem unscoped_ne_cached (b : Binding) (owner : ScopeOwner) : b.unscoped ≠ .cached owner := by
  cases b <;> exact fun h => by cases h

end Binding

namespace Resolver

/-- What is found for a request is found when its cache entry is filled. -/
theorem Finds.entry {r : Resolver} {q : Request} {b : Binding}
    (h : r.Finds q.key q.context q.fromEnd b) :
    r.Finds q.entry.key q.entry.context q.entry.fromEnd b :=
  ⟨rfl, h.found⟩

/-- A node of the plan for `root`: the request it answers, its plan, the key whose cache entry is
being filled around it, and the plan that asked for it. -/
inductive PlanNode (r : Resolver) (root : Request) :
    Request → Plan → (filled : Option Key) → (parent : Option Plan) → Prop where
  | root {plan} (ha : r.answer root = .ok plan) : PlanNode r root root plan none none
  | asked {q plan filled parent s q' inner} (hn : PlanNode r root q plan filled parent)
      (hq : r.Asks q s q') (ha : r.answer q' = .ok inner) :
      PlanNode r root q' inner (if plan.isCached then some q.key else filled) (some plan)

variable {r : Resolver} {answer : Request → Except Failure Plan} {q q' : Request} {plan : Plan}

/-- The plan of a step, by the kind of its candidate: nothing is asked for, one request is asked in
the place of another, one subject is visited, or one for each contributor of a collection. -/
inductive Stepped (r : Resolver) (answer : Request → Except Failure Plan) (q : Request) :
    Plan → Prop where
  | arg {name} (hc : r.candidate q.key q.context q.fromEnd = .ok (some (.arg name))) :
      Stepped r answer q (.arg name)
  | cached {owner inner}
      (hc : r.candidate q.key q.context q.fromEnd = .ok (some (.cached owner)))
      (ha : answer ⟨q.key, q.context.withoutScoped q.key.type, none⟩ = .ok inner) :
      Stepped r answer q (.cached owner.accessor owner.component q.key.type.sourceText inner)
  | lazy {key inner} (hc : r.candidate q.key q.context q.fromEnd = .ok (some (.lazy key)))
      (ha : answer ⟨key, q.context, none⟩ = .ok inner) : Stepped r answer q (.lazy inner)
  | visited {candidate : Candidate} {s plan}
      (hc : r.candidate q.key q.context q.fromEnd = .ok (some candidate))
      (ht : candidate.tasks q.key q.context = [.enter s])
      (hv : r.visit answer q.context s = .ok plan) : Stepped r answer q plan
  | container {builder providers parts}
      (hc : r.candidate q.key q.context q.fromEnd = .ok (some (.container builder providers)))
      (hv : List.Forall₂ (fun p part => r.visit answer q.context (.member p) = .ok part)
        providers parts) :
      Stepped r answer q (.container builder parts)

/-- A plan that a step gives is made from what the step does. -/
theorem stepped_of_step (h : r.step answer q = .ok plan) : r.Stepped answer q plan := by
  obtain ⟨candidate, plans, hc, hplans, rfl⟩ := step_eq_ok_iff.1 h
  have hone : ∀ {s : Subject}, candidate.tasks q.key q.context = [.enter s] →
      candidate.plan q.key plans = plans.headD default →
      r.Stepped answer q (candidate.plan q.key plans) := by
    intro s htasks hplan
    rw [hplan]
    rw [htasks] at hplans
    cases hplans with
    | cons hp hnil =>
      cases hnil
      exact .visited hc htasks hp
  cases candidate with
  | arg name => exact .arg hc
  | cached owner =>
    cases hplans with
    | cons hp hnil =>
      cases hnil
      exact .cached hc hp
  | lazy key =>
    cases hplans with
    | cons hp hnil =>
      cases hnil
      exact .lazy hc hp
  | provides p => exact hone rfl rfl
  | construct k => exact hone rfl rfl
  | function e types result => exact hone rfl rfl
  | namedFunction f types => exact hone rfl rfl
  | container builder providers => exact .container hc (List.forall₂_map_left_iff.1 hplans)

/-- The plan of a subject is made of the plans of what it needs. -/
theorem children_subject_plan {c : Context} {s : Subject} {plans : List Plan}
    (h : List.Forall₂ (fun q p => answer q = .ok p) (r.needs c s) plans)
    (scope : Option String) : (s.plan scope plans).children = plans := by
  cases s with
  | member p =>
    rw [needs] at h
    rw [Subject.plan]
    cases hr : p.callable.receiver with
    | none => rfl
    | some type =>
      rw [hr] at h
      cases h
      rfl
  | constructor k => rfl
  | lambda type types result =>
    cases h with
    | cons _ hnil =>
      cases hnil
      rfl
  | function f types => rfl

/-- The plan of a subject is of something entered. -/
theorem isEntered_subject_plan (scope : Option String) (plans : List Plan) (s : Subject) :
    (s.plan scope plans).isEntered = true := by
  cases s with
  | member p =>
    rw [Subject.plan]
    cases p.callable.receiver <;> rfl
  | _ => rfl

/-- The plan of a subject is a lambda exactly as the subject is. -/
theorem lambda_subject_plan (scope : Option String) (plans : List Plan) (s : Subject) :
    (s.plan scope plans).lambda? = s.lambda? := by
  cases s with
  | member p =>
    rw [Subject.plan]
    cases p.callable.receiver <;> rfl
  | _ => rfl

/-- What a visited subject needs is what its plan is made of. -/
theorem children_of_visit {c : Context} {s : Subject} (h : r.visit answer c s = .ok plan) :
    plan.isEntered = true ∧ plan.lambda? = s.lambda? ∧
      ∃ context, c.enter? s.element = some context ∧
        ∀ child ∈ plan.children, ∃ q' ∈ r.needs context s, answer q' = .ok child := by
  obtain ⟨context, plans, he, hplans, rfl⟩ := visit_eq_ok_iff.1 h
  refine ⟨isEntered_subject_plan _ _ s, lambda_subject_plan _ _ s, context, he, ?_⟩
  intro child hchild
  rw [children_subject_plan hplans] at hchild
  exact mem_of_mapM_eq_ok (mapM_eq_ok_iff.2 hplans) hchild

/-- A step that succeeds succeeds in all tasks of its candidate. -/
theorem perform_of_step (h : r.step answer q = .ok plan) {candidate : Candidate}
    (hc : r.candidate q.key q.context q.fromEnd = .ok (some candidate)) {t : Task}
    (ht : t ∈ candidate.tasks q.key q.context) : ∃ p, r.perform answer q.context t = .ok p := by
  obtain ⟨candidate', plans, hc', hplans, _⟩ := step_eq_ok_iff.1 h
  rw [hc] at hc'
  cases hc'
  obtain ⟨p, _, hp⟩ := exists_of_mapM_eq_ok (mapM_eq_ok_iff.2 hplans) ht
  exact ⟨p, hp⟩

/-- A plan takes its value from a cache when its candidate does, and then it holds the plan that
fills the entry. -/
theorem cached_of_step (h : r.step answer q = .ok plan) :
    (plan.isCached = false ∧
        ∀ owner, r.candidate q.key q.context q.fromEnd ≠ .ok (some (.cached owner)))
      ∨ ∃ owner inner, r.candidate q.key q.context q.fromEnd = .ok (some (.cached owner)) ∧
          answer ⟨q.key, q.context.withoutScoped q.key.type, none⟩ = .ok inner ∧
          plan = .cached owner.accessor owner.component q.key.type.sourceText inner := by
  obtain ⟨candidate, plans, hc, hplans, rfl⟩ := step_eq_ok_iff.1 h
  rw [hc]
  have hone : ∀ {s : Subject}, List.Forall₂ (fun t p => r.perform answer q.context t = .ok p)
      [.enter s] plans → (plans.headD default).isCached = false := by
    intro s hplans
    cases hplans with
    | cons hp _ => exact Plan.isCached_of_isEntered (children_of_visit hp).1
  cases candidate with
  | cached owner =>
    cases hplans with
    | @cons _ inner _ _ hp hnil =>
      cases hnil
      exact .inr ⟨owner, inner, rfl, hp, rfl⟩
  | provides p => exact .inl ⟨hone hplans, fun owner he => by cases he⟩
  | construct k => exact .inl ⟨hone hplans, fun owner he => by cases he⟩
  | function e types result => exact .inl ⟨hone hplans, fun owner he => by cases he⟩
  | namedFunction f types => exact .inl ⟨hone hplans, fun owner he => by cases he⟩
  | container builder parts => exact .inl ⟨rfl, fun owner he => by cases he⟩
  | arg name => exact .inl ⟨rfl, fun owner he => by cases he⟩
  | lazy inner => exact .inl ⟨rfl, fun owner he => by cases he⟩

/-- A plan whose candidate is no cache takes nothing from a cache. -/
theorem isCached_of_step (h : r.step answer q = .ok plan) {candidate : Candidate}
    (hc : r.candidate q.key q.context q.fromEnd = .ok (some candidate))
    (hn : ∀ owner, candidate ≠ .cached owner) : plan.isCached = false := by
  rcases cached_of_step h with ⟨hu, _⟩ | ⟨owner, _, hc', _⟩
  · exact hu
  · rw [hc] at hc'
    cases hc'
    exact absurd rfl (hn owner)

/-- Every subplan answers a request that the step asks, through the lambda that the plan is, if it
is one. Or it is the call of a contributor, and then what the call is made of does. -/
theorem children_of_step (h : r.step answer q = .ok plan) {child : Plan}
    (hchild : child ∈ plan.children) :
    (∃ s q', r.Asks q s q' ∧ answer q' = .ok child ∧ s.bind Subject.lambda? = plan.lambda?)
      ∨ ∃ builder parts, plan = .container builder parts ∧ child.isEntered = true ∧
          child.lambda? = none ∧ ∀ part ∈ child.children, ∃ s q', r.Asks q s q' ∧
            answer q' = .ok part ∧ s.bind Subject.lambda? = none := by
  have hvisit : ∀ {candidate : Candidate} {s : Subject} {p : Plan},
      r.candidate q.key q.context q.fromEnd = .ok (some candidate) →
      .enter s ∈ candidate.tasks q.key q.context → r.visit answer q.context s = .ok p →
      ∀ part ∈ p.children, ∃ q', r.Asks q (some s) q' ∧ answer q' = .ok part := by
    intro candidate s p hc hs hp part hpart
    obtain ⟨_, _, context, he, hneeds⟩ := children_of_visit hp
    obtain ⟨q', hq', ha⟩ := hneeds part hpart
    exact ⟨q', .inside hc hs he hq', ha⟩
  cases stepped_of_step h with
  | arg => exact absurd hchild List.not_mem_nil
  | cached hc ha =>
    rw [List.mem_singleton.1 hchild]
    exact .inl ⟨none, _, .onward hc (List.mem_singleton.2 rfl), ha, rfl⟩
  | lazy hc ha =>
    rw [List.mem_singleton.1 hchild]
    exact .inl ⟨none, _, .onward hc (List.mem_singleton.2 rfl), ha, rfl⟩
  | visited hc ht hv =>
    obtain ⟨q', hq, ha⟩ := hvisit hc (ht ▸ List.mem_singleton.2 rfl) hv child hchild
    exact .inl ⟨_, q', hq, ha, (children_of_visit hv).2.1.symm⟩
  | container hc hv =>
    obtain ⟨p, hp, hcall⟩ := mem_of_mapM_eq_ok (mapM_eq_ok_iff.2 hv) hchild
    obtain ⟨hentered, hlambda, _⟩ := children_of_visit hcall
    refine .inr ⟨_, _, rfl, hentered, hlambda, fun part hpart => ?_⟩
    obtain ⟨q', hq, ha⟩ := hvisit hc (List.mem_map.2 ⟨p, hp, rfl⟩) hcall part hpart
    exact ⟨_, q', hq, ha, rfl⟩

/-- The answer to what a request asks is a subplan of its plan, or of the call of a contributor. -/
theorem child_of_asked (h : r.step answer q = .ok plan) {s : Option Subject} (hq : r.Asks q s q') :
    ∃ part, answer q' = .ok part ∧
      (part ∈ plan.children ∧ plan.lambda? = s.bind Subject.lambda?
        ∨ plan.lambda? = none ∧ s.bind Subject.lambda? = none ∧
          ∃ call ∈ plan.children, call.lambda? = none ∧ part ∈ call.children) := by
  have hvisit : ∀ {s : Subject} {context : Context} {p : Plan},
      r.visit answer q.context s = .ok p → q.context.enter? s.element = some context →
      q' ∈ r.needs context s →
      p.lambda? = s.lambda? ∧ ∃ part ∈ p.children, answer q' = .ok part := by
    intro s context p hp he hq'
    obtain ⟨context', parts, he', hparts, rfl⟩ := visit_eq_ok_iff.1 hp
    rw [he] at he'
    cases he'
    obtain ⟨part, hpart, ha⟩ := exists_of_mapM_eq_ok (mapM_eq_ok_iff.2 hparts) hq'
    rw [children_subject_plan hparts]
    exact ⟨lambda_subject_plan _ _ s, part, hpart, ha⟩
  have hone : ∀ {candidate candidate' : Candidate},
      r.candidate q.key q.context q.fromEnd = .ok (some candidate) →
      r.candidate q.key q.context q.fromEnd = .ok (some candidate') → candidate = candidate' := by
    intro candidate candidate' hc hc'
    rw [hc] at hc'
    cases hc'
    rfl
  -- The candidate of the request is one, so in each case its plan was made in one way only.
  cases hq with
  | onward hc ht =>
    cases stepped_of_step h with
    | cached hc' ha =>
      cases hone hc hc'
      cases List.mem_singleton.1 ht
      exact ⟨_, ha, .inl ⟨List.mem_singleton.2 rfl, rfl⟩⟩
    | lazy hc' ha =>
      cases hone hc hc'
      cases List.mem_singleton.1 ht
      exact ⟨_, ha, .inl ⟨List.mem_singleton.2 rfl, rfl⟩⟩
    | arg hc' =>
      cases hone hc hc'
      exact absurd ht List.not_mem_nil
    | visited hc' ht' =>
      cases hone hc hc'
      rw [ht'] at ht
      cases List.mem_singleton.1 ht
    | container hc' =>
      cases hone hc hc'
      obtain ⟨_, _, hs⟩ := List.mem_map.1 ht
      cases hs
  | inside hc ht he hn =>
    cases stepped_of_step h with
    | visited hc' ht' hv =>
      cases hone hc hc'
      rw [ht'] at ht
      cases List.mem_singleton.1 ht
      obtain ⟨hlambda, part, hpart, ha⟩ := hvisit hv he hn
      exact ⟨part, ha, .inl ⟨hpart, hlambda⟩⟩
    | container hc' hv =>
      cases hone hc hc'
      obtain ⟨p, hp, hs⟩ := List.mem_map.1 ht
      cases hs
      obtain ⟨call, hcall, hpcall⟩ := exists_of_mapM_eq_ok (mapM_eq_ok_iff.2 hv) hp
      obtain ⟨hlambda, part, hpart, ha⟩ := hvisit hpcall he hn
      exact ⟨part, ha, .inr ⟨rfl, rfl, call, hcall, hlambda, hpart⟩⟩
    | cached hc' =>
      cases hone hc hc'
      cases List.mem_singleton.1 ht
    | lazy hc' =>
      cases hone hc hc'
      cases List.mem_singleton.1 ht
    | arg hc' =>
      cases hone hc hc'
      exact absurd ht List.not_mem_nil

/-- All requests that a step asks are answered when it succeeds. -/
theorem Asks.answered {s : Option Subject} (hq : r.Asks q s q') (h : r.step answer q = .ok plan) :
    ∃ inner, answer q' = .ok inner := by
  obtain ⟨inner, ha, _⟩ := child_of_asked h hq
  exact ⟨inner, ha⟩

/-- A step that succeeds asks for what fills the cache entry that it takes its value from, or else
leaves the entry that is being filled as it is. -/
theorem Asks.of_step {s : Option Subject} (hq : r.Asks q s q')
    (h : r.step answer q = .ok plan) :
    (∃ owner inner, r.candidate q.key q.context q.fromEnd = .ok (some (.cached owner)) ∧
        q' = ⟨q.key, q.context.withoutScoped q.key.type, none⟩ ∧ answer q' = .ok inner ∧
        plan = .cached owner.accessor owner.component q.key.type.sourceText inner)
      ∨ plan.isCached = false ∧ q'.context.skipScoped = q.context.skipScoped := by
  rcases cached_of_step h with ⟨hnot, hcand⟩ | ⟨owner, inner, hcand, hin, hplan⟩
  · refine .inr ⟨hnot, ?_⟩
    cases s with
    | some s =>
      cases hq with
      | inside _ _ he hn =>
        obtain ⟨_, hcontext⟩ := context_of_mem_needs hn
        rw [hcontext, (Context.enter?_eq_some he).2.2]
    | none =>
      rcases hq.onward_cases with ⟨b, owner, hf, hs, hne, _⟩ | ⟨_, _, _, rfl⟩
      · have hc := hf.candidate
        rw [ofBinding_of_scope hs hne] at hc
        exact absurd hc (hcand owner)
      · rfl
  · cases hq with
    | onward hc ht =>
      rw [hcand] at hc
      cases hc
      cases List.mem_singleton.1 ht
      exact .inl ⟨owner, inner, hcand, rfl, hin, hplan⟩
    | inside hc ht =>
      rw [hcand] at hc
      cases hc
      cases List.mem_singleton.1 ht

/-- A node of a plan answers its request. -/
theorem PlanNode.answer_eq {root : Request} {filled : Option Key} {parent : Option Plan}
    (h : PlanNode r root q plan filled parent) : r.answer q = .ok plan := by
  cases h with
  | root ha => exact ha
  | asked _ _ ha => exact ha

section Component

variable {m : Model} {o : Options} {c : Classifier} {root : Request} {filled : Option Key}
  {parent : Option Plan}

/-- A node of a plan is what a step gives for its request. -/
theorem PlanNode.step_eq (hc : c ∈ m.classifiers)
    (h : PlanNode (Component.resolver m o c) root q plan filled parent) :
    (Component.resolver m o c).step (Component.resolver m o c).answer q = .ok plan := by
  rw [← answer_eq_step hc]
  exact h.answer_eq

/-- Whatever a node asks for is a node. -/
theorem PlanNode.exists_asked (hc : c ∈ m.classifiers)
    (h : PlanNode (Component.resolver m o c) root q plan filled parent) {s : Option Subject}
    {q' : Request} (hq : (Component.resolver m o c).Asks q s q') :
    ∃ inner filled', PlanNode (Component.resolver m o c) root q' inner filled' (some plan) := by
  obtain ⟨inner, ha⟩ := hq.answered (h.step_eq hc)
  exact ⟨inner, _, .asked h hq ha⟩

/-- The subplans of a node are nodes, the calls of contributors apart, whose subplans are. -/
theorem PlanNode.children (hc : c ∈ m.classifiers)
    (h : PlanNode (Component.resolver m o c) root q plan filled parent) {child : Plan}
    (hchild : child ∈ plan.children) :
    (∃ q' filled', PlanNode (Component.resolver m o c) root q' child filled' (some plan))
      ∨ ∃ builder parts, plan = .container builder parts ∧ ∀ part ∈ child.children,
          ∃ q' filled', PlanNode (Component.resolver m o c) root q' part filled' (some plan) := by
  rcases children_of_step (h.step_eq hc) hchild with
    ⟨s, q', hq, ha, _⟩ | ⟨builder, parts, he, _, _, hparts⟩
  · exact .inl ⟨q', _, .asked h hq ha⟩
  · refine .inr ⟨builder, parts, he, fun part hpart => ?_⟩
    obtain ⟨s, q', hq, ha, _⟩ := hparts part hpart
    exact ⟨q', _, .asked h hq ha⟩

end Component

end Resolver

end Wiring
