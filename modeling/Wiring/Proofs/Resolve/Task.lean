import Mathlib.Data.List.Forall2
import Wiring.Proofs.Resolve.Candidate

/-!
# Resolution as requests

A step of resolution seen through the requests it makes. A candidate sets tasks: one further
request in the place of its own, or subjects to enter, each of which needs the values of some keys
once it is entered. The plan of a candidate is put together from the plans of its tasks in order,
so a step depends on the answers to its requests alone, and it fails with the first task that
fails.
-/

namespace Wiring

section Traversal

variable {α β ε : Type}

/-- What is computed from an outcome is a result exactly if the outcome is. -/
theorem map_eq_ok_iff {x : Except ε α} {g : α → β} {b : β} :
    (do let a ← x; return g a) = .ok b ↔ ∃ a, x = .ok a ∧ b = g a := by
  cases x with
  | error e =>
    constructor
    · intro h
      cases h
    · rintro ⟨a, h, _⟩
      cases h
  | ok a =>
    constructor
    · intro h
      cases h
      exact ⟨a, rfl, rfl⟩
    · rintro ⟨a', h, rfl⟩
      cases h
      rfl

/-- What is computed from an outcome is an error exactly if the outcome is. -/
theorem map_eq_error_iff {x : Except ε α} {g : α → β} {e : ε} :
    (do let a ← x; return g a) = .error e ↔ x = .error e := by
  cases x <;> constructor <;> intro h <;> cases h <;> rfl

/-- Going through a list gives the results for its elements, in order. -/
theorem mapM_eq_ok_iff {f : α → Except ε β} {l : List α} {bs : List β} :
    l.mapM f = .ok bs ↔ List.Forall₂ (fun a b => f a = .ok b) l bs := by
  induction l generalizing bs with
  | nil =>
    rw [List.mapM_nil]
    constructor
    · intro h
      cases h
      exact .nil
    · intro h
      cases h
      rfl
  | cons a l ih =>
    rw [List.mapM_cons]
    constructor
    · intro h
      cases ha : f a with
      | error e =>
        rw [ha] at h
        cases h
      | ok b =>
        cases hl : l.mapM f with
        | error e =>
          rw [ha, hl] at h
          cases h
        | ok bs =>
          rw [ha, hl] at h
          cases h
          exact .cons ha (ih.1 hl)
    · intro h
      cases h with
      | cons ha hl =>
        rw [ha, ih.2 hl]
        rfl

/-- Every result of a traversal comes from an element. -/
theorem mem_of_mapM_eq_ok {f : α → Except ε β} {l : List α} {bs : List β} (h : l.mapM f = .ok bs)
    {b : β} (hb : b ∈ bs) : ∃ a ∈ l, f a = .ok b := by
  induction mapM_eq_ok_iff.1 h with
  | nil => exact absurd hb List.not_mem_nil
  | @cons a b' l bs ha hl ih =>
    rcases List.mem_cons.1 hb with rfl | hb
    · exact ⟨a, List.mem_cons_self .., ha⟩
    · obtain ⟨a', ha', hf⟩ := ih (mapM_eq_ok_iff.2 hl) hb
      exact ⟨a', List.mem_cons_of_mem _ ha', hf⟩

/-- Every element of a traversal that succeeds has a result. -/
theorem exists_of_mapM_eq_ok {f : α → Except ε β} {l : List α} {bs : List β} (h : l.mapM f = .ok bs)
    {a : α} (ha : a ∈ l) : ∃ b ∈ bs, f a = .ok b := by
  induction mapM_eq_ok_iff.1 h with
  | nil => exact absurd ha List.not_mem_nil
  | @cons a' b l bs hb hl ih =>
    rcases List.mem_cons.1 ha with rfl | ha
    · exact ⟨b, List.mem_cons_self .., hb⟩
    · obtain ⟨b', hb', hf⟩ := ih (mapM_eq_ok_iff.2 hl) ha
      exact ⟨b', List.mem_cons_of_mem _ hb', hf⟩

/-- What a list is split at is in the list. -/
theorem mem_of_split {l before after : List α} {a : α} (h : l = before ++ a :: after) : a ∈ l := by
  rw [h]
  exact List.mem_append_cons_self

/-- A traversal fails with the first element that fails. -/
theorem mapM_eq_error_iff {f : α → Except ε β} {l : List α} {e : ε} :
    l.mapM f = .error e ↔ ∃ before a after, l = before ++ a :: after ∧
      (∀ b ∈ before, ∃ v, f b = .ok v) ∧ f a = .error e := by
  induction l with
  | nil =>
    rw [List.mapM_nil]
    constructor
    · intro h
      cases h
    · rintro ⟨before, a, after, hl, _⟩
      cases before <;> cases hl
  | cons a l ih =>
    rw [List.mapM_cons]
    cases ha : f a with
    | error e' =>
      constructor
      · intro h
        cases h
        exact ⟨[], a, l, rfl, fun b hb => absurd hb List.not_mem_nil, ha⟩
      · rintro ⟨before, a', after, hl, hbefore, he⟩
        cases before with
        | nil =>
          cases hl
          rw [ha] at he
          cases he
          rfl
        | cons b before =>
          cases hl
          obtain ⟨v, hv⟩ := hbefore a (List.mem_cons_self ..)
          rw [ha] at hv
          cases hv
    | ok v =>
      -- The first element succeeds, so the one that fails comes later.
      have hrest : (do let b ← Except.ok v; let bs ← l.mapM f; return b :: bs) = .error e
          ↔ l.mapM f = .error e := map_eq_error_iff
      rw [hrest, ih]
      constructor
      · rintro ⟨before, a', after, rfl, hbefore, he⟩
        refine ⟨a :: before, a', after, rfl, fun b hb => ?_, he⟩
        rcases List.mem_cons.1 hb with rfl | hb
        · exact ⟨v, ha⟩
        · exact hbefore b hb
      · rintro ⟨before, a', after, hl, hbefore, he⟩
        cases before with
        | nil =>
          cases hl
          rw [ha] at he
          cases he
        | cons b before =>
          cases hl
          exact ⟨before, a', after, rfl, fun b hb => hbefore b (List.mem_cons_of_mem _ hb), he⟩

/-- Lists are gone through alike by what agrees on their elements. -/
theorem mapM_congr {f g : α → Except ε β} {l : List α} (h : ∀ a ∈ l, f a = g a) :
    l.mapM f = l.mapM g := by
  induction l with
  | nil => rfl
  | cons a l ih =>
    rw [List.mapM_cons, List.mapM_cons, h a (List.mem_cons_self ..),
      ih fun b hb => h b (List.mem_cons_of_mem _ hb)]

end Traversal

/-- What is entered on the way to a value. -/
inductive Subject where
  /-- A member, on the component it is reached through. -/
  | member (provider : Provider)
  | constructor (constructor : Constructor)
  /-- A lambda of the function type `type`. -/
  | lambda (type : TypeExpr) (params : List TypeExpr) (result : Key)
  /-- A top-level function behind a lambda. -/
  | function (callable : Callable) (params : List TypeExpr)

/-- What a candidate sets to be done. -/
inductive Task where
  /-- Answer another request. -/
  | ask (request : Request)
  /-- Enter a subject and answer what it needs. -/
  | enter (subject : Subject)

namespace Subject

/-- The element that stands for a subject on the path. -/
def element : Subject → Element
  | member p => p.callable.element
  | constructor k => k.element
  | lambda type _ _ => .ofType type
  | function f _ => f.element

/-- The plan of a subject, put together from the plans of what it needs. -/
def plan (parentScope : Option String) (plans : List Plan) : Subject → Plan
  | member p =>
    let accessor := p.accessor.map (relativeAccessor parentScope)
    match p.callable.receiver with
    | none => .call accessor p.callable plans
    | some _ => .extensionCall accessor p.callable (plans.headD default) plans.tail
  | constructor k => .construct k plans
  | lambda _ types _ => .function (.ofTypes types) (plans.headD default)
  | function f types => .namedFunction f (.ofTypes types) plans

end Subject

namespace Context

/-- The context inside an element; none when the element is on the path already. -/
def enter? (c : Context) (e : Element) : Option Context :=
  (c.path.enter? e).map fun path => { c with path, source := e }

/-- Going on with an element on the path is a cycle if the element is there already. -/
theorem entering_eq {α : Type} (c : Context) (e : Element) (next : Context → Except Failure α) :
    c.entering e next = match c.enter? e with
      | none => .error (.cycle c.path.trace e)
      | some c' => next c' := by
  rw [entering, enter?]
  cases c.path.enter? e <;> rfl

/-- An element is entered when its identity is not on the path, which it is put in front of. -/
theorem enter?_eq_some {c c' : Context} {e : Element} (h : c.enter? e = some c') :
    e.id ∉ c.path.elements.map (·.id) ∧ c'.path.elements = e :: c.path.elements ∧
      c' = { c with path := c'.path, source := e } := by
  obtain ⟨path, hp, rfl⟩ := Option.map_eq_some_iff.1 h
  refine ⟨?_, ResolutionPath.enter?_eq_some hp, rfl⟩
  intro hmem
  obtain ⟨x, hx, hid⟩ := List.mem_map.1 hmem
  have hc : c.path.contains e = true :=
    List.any_eq_true.2 ⟨x, hx, by rw [Element.same, hid, beq_self_eq_true]⟩
  rw [ResolutionPath.enter?, if_pos hc] at hp
  cases hp

/-- An element cannot be entered exactly if it is on the path. -/
theorem enter?_eq_none_iff {c : Context} {e : Element} :
    c.enter? e = none ↔ e.id ∈ c.path.elements.map (·.id) := by
  constructor
  · intro h
    rw [enter?, Option.map_eq_none_iff, ResolutionPath.enter?] at h
    split at h
    · next hc =>
      obtain ⟨x, hx, hs⟩ := List.any_eq_true.1 hc
      rw [Element.same, beq_iff_eq] at hs
      exact List.mem_map.2 ⟨x, hx, hs⟩
    · cases h
  · intro h
    cases he : c.enter? e with
    | none => rfl
    | some c' => exact absurd h (enter?_eq_some he).1

end Context

namespace Candidate

/-- The tasks of a candidate for a key, in order. -/
def tasks (key : Key) (c : Context) : Candidate → List Task
  | provides p => [.enter (.member p)]
  | cached _ => [.ask ⟨key, c.withoutScoped key.type, none⟩]
  | construct k => [.enter (.constructor k)]
  | container _ parts => parts.map fun p => .enter (.member p)
  | function _ types result => [.enter (.lambda key.type types result)]
  | namedFunction f types => [.enter (.function f types)]
  | arg _ => []
  | lazy inner => [.ask ⟨inner, c, none⟩]

/-- The plan of a candidate, put together from the plans of its tasks. -/
def plan (key : Key) (plans : List Plan) : Candidate → Plan
  | cached owner =>
    .cached owner.accessor owner.component key.type.sourceText (plans.headD default)
  | container builder _ => .container builder plans
  | arg name => .arg name
  | lazy _ => .lazy (plans.headD default)
  | provides _ | construct _ | function .. | namedFunction .. => plans.headD default

end Candidate

namespace Resolver

open Candidate

section Requests

variable (r : Resolver)

/-- The requests for the parameters of a call. -/
def paramRequests (c : Context) : List Param → List Request
  | [] => []
  | p :: ps => ⟨r.paramKey p, c, some ps.length⟩ :: paramRequests c ps

/-- What a subject needs once it is entered: its parameters, the receiver before them, and the
result of a lambda. An extension member of a parent has its needs met inside that parent. -/
def needs (c : Context) : Subject → List Request
  | .member p =>
    match p.callable.receiver with
    | none => r.paramRequests c p.callable.params
    | some type =>
      let c := c.withParentScope (p.accessor.map (relativeAccessor c.parentScope))
      ⟨⟨type, Role.qualifier? r.options p.callable.annotations⟩, c, none⟩
        :: r.paramRequests c p.callable.params
  | .constructor k => r.paramRequests c k.params
  | .lambda _ types result => [⟨result, c.withArgs (.ofTypes types), none⟩]
  | .function f types => r.paramRequests (c.withArgs (.ofTypes types)) f.params

/-- Enter a subject and answer what it needs. -/
def visit (answer : Request → Except Failure Plan) (c : Context) (s : Subject) :
    Except Failure Plan :=
  c.entering s.element fun c => do
    let plans ← (r.needs c s).mapM answer
    return s.plan c.parentScope plans

/-- Do a task. -/
def perform (answer : Request → Except Failure Plan) (c : Context) : Task → Except Failure Plan
  | .ask q => answer q
  | .enter s => r.visit answer c s

end Requests

section Equations

variable (r : Resolver) (answer : Request → Except Failure Plan)

/-- Parameters are planned by answering their requests one by one. -/
theorem planParams_eq (c : Context) (ps : List Param) :
    planParams r answer c ps = (r.paramRequests c ps).mapM answer := by
  induction ps with
  | nil => rfl
  | cons p ps ih =>
    rw [planParams, paramRequests, List.mapM_cons, ih]

/-- A call is planned by visiting the member. -/
theorem planCall_eq (p : Provider) (c : Context) :
    planCall r answer p c = r.visit answer c (.member p) := by
  rw [planCall, visit, Context.entering_eq, Context.entering_eq]
  simp only [Subject.element]
  cases c.enter? p.callable.element with
  | none => rfl
  | some c =>
    simp only [needs, Subject.plan, planParams_eq]
    cases p.callable.receiver with
    | none => rfl
    | some type =>
      simp only [List.mapM_cons, bind_assoc, pure_bind]
      rfl

/-- The parts of a collection are planned by entering their members. -/
theorem planParts_eq (c : Context) (ps : List Provider) :
    planParts r answer c ps
      = (ps.map fun p => Task.enter (.member p)).mapM (r.perform answer c) := by
  induction ps with
  | nil => rfl
  | cons p ps ih =>
    rw [planParts, List.map_cons, List.mapM_cons, ih, planCall_eq]
    rfl

/-- The plan of a candidate is put together from its tasks. -/
theorem planCandidate_eq (key : Key) (c : Context) (candidate : Candidate)
    (hf : ∀ e types result, candidate = .function e types result → e = .ofType key.type) :
    planCandidate r answer key c candidate = do
      let plans ← (candidate.tasks key c).mapM (r.perform answer c)
      return candidate.plan key plans := by
  have hone : ∀ (t : Task) (g : List Plan → Plan),
      (do let plans ← [t].mapM (r.perform answer c); return g plans)
        = (do let plan ← r.perform answer c t; return g [plan]) := by
    intro t g
    simp only [List.mapM_cons, List.mapM_nil, bind_assoc, pure_bind]
  have henter : ∀ s : Subject, r.visit answer c s
      = (do let plan ← r.perform answer c (.enter s); return [plan].headD default) := by
    intro s
    simp only [perform, List.headD_cons, bind_pure]
  cases candidate with
  | provides p =>
    rw [planCandidate, planCall_eq, tasks, hone, henter]
    rfl
  | cached owner =>
    rw [planCandidate, tasks, hone]
    rfl
  | construct k =>
    rw [planCandidate, tasks, hone]
    refine Eq.trans ?_ (henter (.constructor k))
    simp only [visit, Subject.element, needs, planParams_eq, Subject.plan]
  | container builder parts =>
    rw [planCandidate, planParts_eq]
    rfl
  | function e types result =>
    obtain rfl := hf e types result rfl
    rw [planCandidate, tasks, hone]
    refine Eq.trans ?_ (henter (.lambda key.type types result))
    simp only [visit, Subject.element, needs, Subject.plan, List.mapM_cons, List.mapM_nil,
      bind_assoc, pure_bind, List.headD_cons]
  | namedFunction f types =>
    rw [planCandidate, tasks, hone]
    refine Eq.trans ?_ (henter (.function f types))
    simp only [visit, Subject.element, needs, planParams_eq, Subject.plan]
  | arg name => rfl
  | lazy inner =>
    rw [planCandidate, tasks, hone]
    rfl

end Equations

section Steps

variable {r : Resolver} {answer : Request → Except Failure Plan} {q : Request}

/-- A step with a candidate does the tasks of the candidate. -/
theorem step_eq {candidate : Candidate}
    (h : r.candidate q.key q.context q.fromEnd = .ok (some candidate)) :
    r.step answer q = do
      let plans ← (candidate.tasks q.key q.context).mapM (r.perform answer q.context)
      return candidate.plan q.key plans := by
  rw [← planCandidate_eq r answer q.key q.context candidate fun e types result he => by
    subst he
    exact element_of_candidate h]
  rw [step, h]
  rfl

/-- A step succeeds when there is a candidate all of whose tasks succeed. -/
theorem step_eq_ok_iff {plan : Plan} :
    r.step answer q = .ok plan ↔ ∃ candidate plans,
      r.candidate q.key q.context q.fromEnd = .ok (some candidate) ∧
      List.Forall₂ (fun t p => r.perform answer q.context t = .ok p)
        (candidate.tasks q.key q.context) plans ∧
      plan = candidate.plan q.key plans := by
  constructor
  · intro h
    cases hc : r.candidate q.key q.context q.fromEnd with
    | error e =>
      rw [step, hc] at h
      cases h
    | ok found =>
      cases found with
      | none =>
        rw [step, hc] at h
        cases h
      | some candidate =>
        rw [step_eq hc] at h
        obtain ⟨plans, hp, rfl⟩ := map_eq_ok_iff.1 h
        exact ⟨candidate, plans, rfl, mapM_eq_ok_iff.1 hp, rfl⟩
  · rintro ⟨candidate, plans, hc, hp, rfl⟩
    rw [step_eq hc]
    exact map_eq_ok_iff.2 ⟨plans, mapM_eq_ok_iff.2 hp, rfl⟩

/-- A visit succeeds when the subject is not on the path and its needs are met. -/
theorem visit_eq_ok_iff {c : Context} {s : Subject} {plan : Plan} :
    r.visit answer c s = .ok plan ↔ ∃ c' plans, c.enter? s.element = some c' ∧
      List.Forall₂ (fun q p => answer q = .ok p) (r.needs c' s) plans ∧
      plan = s.plan c'.parentScope plans := by
  rw [visit, Context.entering_eq]
  cases he : c.enter? s.element with
  | none =>
    constructor
    · intro h
      cases h
    · rintro ⟨c', plans, hc', _⟩
      cases hc'
  | some c' =>
    constructor
    · intro h
      obtain ⟨plans, hp, rfl⟩ := map_eq_ok_iff.1 h
      exact ⟨c', plans, rfl, mapM_eq_ok_iff.1 hp, rfl⟩
    · rintro ⟨c'', plans, hc'', hp, rfl⟩
      cases hc''
      exact map_eq_ok_iff.2 ⟨plans, mapM_eq_ok_iff.2 hp, rfl⟩

end Steps

end Resolver

end Wiring
