import Wiring.Proofs.Component.Lambdas

/-!
# Functions that aliases are named after

An alias of a function type that nothing else satisfies is a call of the first injectable function
in its package that has its name. What this function takes and returns has no part in the choice,
and no other function is tried after it. Its parameters are bound afterwards, one by one: each takes
the parameter of the lambda that stands as far from the end, if its type accepts it, and is looked
up otherwise. So the parameters of the lambda are handed on in order exactly to a function whose
last parameters accept them.
-/

namespace Wiring

/-- Lists are related if they are of one length and their entries are related at every place. -/
theorem forall₂_iff_getElem? {α β : Type} {R : α → β → Prop} {l : List α} {l' : List β} :
    List.Forall₂ R l l' ↔ l.length = l'.length ∧
      ∀ (i : Nat) a b, l[i]? = some a → l'[i]? = some b → R a b := by
  rw [List.forall₂_iff_get]
  refine and_congr_right fun _ => ⟨fun h i a b ha hb => ?_, fun h i hi hi' => ?_⟩
  · obtain ⟨hi, rfl⟩ := List.getElem?_eq_some_iff.1 ha
    obtain ⟨hi', rfl⟩ := List.getElem?_eq_some_iff.1 hb
    exact h i hi hi'
  · exact h i _ _ (List.getElem?_eq_getElem hi) (List.getElem?_eq_getElem hi')

/-- A list ends in another one that has the same elements at the same places from the end. -/
theorem suffix_iff_getElem?_reverse {α : Type} {l l' : List α} :
    l <:+ l' ↔ ∀ (i : Nat) a, l.reverse[i]? = some a → l'.reverse[i]? = some a := by
  rw [← List.reverse_prefix, List.prefix_iff_getElem?]
  constructor
  · intro h i a ha
    obtain ⟨hi, rfl⟩ := List.getElem?_eq_some_iff.1 ha
    exact h i hi
  · intro h i hi
    exact h i _ (List.getElem?_eq_getElem hi)

namespace Model

/-- The first injectable function, in the order of declaration, that has the package and the name
of a type. -/
def FirstNamed (m : Model) (t : TypeExpr) (f : Callable) : Prop :=
  ∃ before after, m.functionsNamed t.package t.name = before ++ f :: after ∧
    Role.isInjectFunction f = true ∧ ∀ g ∈ before, Role.isInjectFunction g = false

/-- No injectable function has the package and the name of a type. -/
def NoneNamed (m : Model) (t : TypeExpr) : Prop :=
  ∀ f ∈ m.functionsNamed t.package t.name, Role.isInjectFunction f = false

/-- The last parameters of a function accept values of the given types, each at its own place from
the end. -/
def Accepts (m : Model) (f : Callable) (types : List TypeExpr) : Prop :=
  ∀ (i : Nat) type, types.reverse[i]? = some type →
    ∃ p, f.params.reverse[i]? = some p ∧ m.isAssignable p.type type = true

/-- A function has the shape of a function type. -/
def Fits (m : Model) (params : List TypeExpr) (result : TypeExpr) (f : Callable) : Prop :=
  f.returns = result ∧ m.Accepts f params

end Model

namespace Resolver

/-- A request is for an alias of the functions from `params` to `result`, and neither a parameter
of a lambda nor the catalogue satisfies it. -/
structure AsksAlias (r : Resolver) (q : Request) (params : List TypeExpr) (result : TypeExpr) :
    Prop where
  isAlias : q.key.type.isAlias = true
  signature : q.key.type.signature? = some (params, result)
  not_takes : ∀ name, ¬ r.Takes q name
  unbound : r.catalogue.resolve r.model r.options q.key
    (q.context.skipProvider == some q.key.type) = .ok none

/-- What a parameter is bound to that stands at the place `i` from the end of those of a call: to
the parameter of the lambda at this place, if this is of a type it accepts, and otherwise to what
is found for it in the context. -/
inductive BoundAt (r : Resolver) (context : Context) (i : Nat) (p : Param) : Plan → Prop where
  | arg {type name} (ha : context.args.reverse[i]? = some (type, name))
      (ht : r.model.isAssignable p.type type = true) : BoundAt r context i p (.arg name)
  | found {plan} (hn : ∀ type name, context.args.reverse[i]? = some (type, name) →
        r.model.isAssignable p.type type = false)
      (ha : r.answer ⟨r.paramKey p, context, none⟩ = .ok plan) : BoundAt r context i p plan

/-- The parameters of a call are bound one by one. -/
structure BindsEach (r : Resolver) (context : Context) (ps : List Param) (args : List Plan) :
    Prop where
  length_eq : args.length = ps.length
  bound : ∀ i p plan, ps.reverse[i]? = some p → args.reverse[i]? = some plan →
    r.BoundAt context i p plan

variable {r : Resolver} {answer : Request → Except Failure Plan} {q : Request} {context : Context}
  {f : Callable} {params : List TypeExpr} {result : TypeExpr} {lambda : LambdaParams}
  {args : List Plan} {plan : Plan}

/-- The function that is looked up for a type is the first of its name, if the type is an alias. -/
theorem namedFunction?_eq_some_iff {t : TypeExpr} :
    r.namedFunction? t = some f ↔ t.isAlias = true ∧ r.model.FirstNamed t f := by
  rw [namedFunction?, Option.ite_none_right_eq_some, List.find?_eq_some_iff_append]
  constructor
  · rintro ⟨halias, hi, before, after, hl, hb⟩
    exact ⟨halias, before, after, hl, hi, fun g hg => by simpa using hb g hg⟩
  · rintro ⟨halias, before, after, hl, hi, hb⟩
    exact ⟨halias, hi, before, after, hl, fun g hg => by simpa using hb g hg⟩

/-- No function is looked up for a type if none is of its name. -/
theorem namedFunction?_eq_none {t : TypeExpr} (h : r.model.NoneNamed t) :
    r.namedFunction? t = none := by
  rw [namedFunction?, List.find?_eq_none.2 fun g hg => by simp [h g hg], ite_self]

/-- The candidate for an alias is chosen by its name. -/
theorem AsksAlias.candidate_eq (h : r.AsksAlias q params result) :
    r.candidate q.key q.context q.fromEnd = .ok (some (match r.namedFunction? q.key.type with
      | some f => .namedFunction f params
      | none => .function (.ofType q.key.type) params ⟨result, q.key.qualifier⟩)) := by
  rw [candidate_of_not_takes h.not_takes, find, h.unbound]
  simp only [intrinsic, h.signature]
  cases r.namedFunction? q.key.type <;> rfl

/-- Named functions are candidates for aliases only, and only the first of each name is one. -/
theorem asksAlias_of_candidate
    (h : r.candidate q.key q.context q.fromEnd = .ok (some (.namedFunction f params))) :
    ∃ result, r.AsksAlias q params result ∧ r.model.FirstNamed q.key.type f := by
  have htakes : ∀ name, ¬ r.Takes q name := by
    intro name hname
    rw [takes_iff.1 hname] at h
    cases h
  rw [candidate_of_not_takes htakes, find] at h
  cases hr : r.catalogue.resolve r.model r.options q.key
      (q.context.skipProvider == some q.key.type) with
  | error e =>
    rw [hr] at h
    cases h
  | ok found =>
    rw [hr] at h
    cases found with
    | some b =>
      have hbound := isBound_ofBinding q.key q.context b
      rw [Option.some.inj (Except.ok.inj h)] at hbound
      cases hbound
    | none =>
      cases offered_of_intrinsic (Except.ok.inj h) with
      | namedFunction hs hf =>
        obtain ⟨halias, hfirst⟩ := namedFunction?_eq_some_iff.1 hf
        exact ⟨_, ⟨halias, hs, htakes, hr⟩, hfirst⟩

/-- A call of a named function is planned for a candidate that is one. -/
theorem candidate_of_namedFunction (h : r.step answer q = .ok (.namedFunction f lambda args)) :
    ∃ params, lambda = .ofTypes params ∧
      r.candidate q.key q.context q.fromEnd = .ok (some (.namedFunction f params)) := by
  generalize hplan : Plan.namedFunction f lambda args = plan at h
  cases stepped_of_step h with
  | arg => cases hplan
  | cached => cases hplan
  | lazy => cases hplan
  | container => cases hplan
  | @visited candidate s _ hc ht hv =>
    obtain ⟨_, plans, _, _, rfl⟩ := visit_eq_ok_iff.1 hv
    cases s with
    | member p =>
      rw [Subject.plan] at hplan
      cases hr : p.callable.receiver <;> rw [hr] at hplan <;> cases hplan
    | constructor => cases hplan
    | lambda => cases hplan
    | function f' params =>
      cases hplan
      cases candidate with
      | namedFunction =>
        cases ht
        exact ⟨params, rfl, hc⟩
      | container =>
        obtain ⟨p, _, hp⟩ := List.mem_map.1 (ht ▸ List.mem_singleton.2 rfl)
        cases hp
      | _ => cases ht

/-- A step with a candidate that enters one subject visits it. -/
theorem step_eq_visit {candidate : Candidate} {s : Subject}
    (hc : r.candidate q.key q.context q.fromEnd = .ok (some candidate))
    (ht : candidate.tasks q.key q.context = [.enter s])
    (hp : ∀ plan, candidate.plan q.key [plan] = plan) :
    r.step answer q = r.visit answer q.context s := by
  rw [step_eq hc, ht]
  simp only [List.mapM_cons, List.mapM_nil, bind_assoc, pure_bind, hp, bind_pure]
  rfl

/-- There is one request for each parameter. -/
theorem length_paramRequests (c : Context) (ps : List Param) :
    (r.paramRequests c ps).length = ps.length := by
  induction ps with
  | nil => rfl
  | cons p ps ih => rw [paramRequests, List.length_cons, List.length_cons, ih]

/-- A parameter is asked for with its place from the end. -/
theorem getElem?_reverse_paramRequests (c : Context) (ps : List Param) (i : Nat) :
    (r.paramRequests c ps).reverse[i]?
      = ps.reverse[i]?.map fun p => ⟨r.paramKey p, c, some i⟩ := by
  induction ps with
  | nil => rfl
  | cons p ps ih =>
    rw [paramRequests, List.reverse_cons, List.reverse_cons, List.getElem?_append,
      List.getElem?_append, List.length_reverse, List.length_reverse, length_paramRequests]
    split
    · exact ih
    · next hi =>
      rcases Nat.eq_or_lt_of_le (Nat.le_of_not_lt hi) with rfl | hlt
      · rw [Nat.sub_self]
        rfl
      · rw [List.getElem?_singleton, List.getElem?_singleton, if_neg (by omega),
          if_neg (by omega), Option.map_none]

section Component

variable {m : Model} {o : Options} {c : Classifier} {ps : List Param} {p : Param} {i : Nat}

/-- What is found for a key without a place is no parameter of a lambda. -/
theorem answer_ne_arg (hc : c ∈ m.classifiers) (key : Key) (name : String) :
    (Component.resolver m o c).answer ⟨key, context, none⟩ ≠ .ok (.arg name) := by
  intro h
  rw [answer_eq_step hc, ← takes_iff_of_step] at h
  obtain ⟨_, _, hi, _⟩ := h
  cases hi

/-- The answer to the request for a parameter is what the parameter is bound to. -/
theorem answer_eq_ok_iff_boundAt (hc : c ∈ m.classifiers) :
    (Component.resolver m o c).answer
        ⟨(Component.resolver m o c).paramKey p, context, some i⟩ = .ok plan
      ↔ (Component.resolver m o c).BoundAt context i p plan := by
  by_cases ht : ∃ name, (Component.resolver m o c).Takes
      ⟨(Component.resolver m o c).paramKey p, context, some i⟩ name
  · obtain ⟨name, hname⟩ := ht
    rw [answer_eq_step hc, takes_iff_of_step.1 hname]
    obtain ⟨_, type, hplace, ha, hs⟩ := hname
    cases hplace
    constructor
    · intro h
      cases h
      exact .arg ha hs
    · intro h
      cases h with
      | arg ha' =>
        rw [ha] at ha'
        cases ha'
        rfl
      | found hn => exact absurd hs (Bool.eq_false_iff.1 (hn type name ha))
  · have hnone : ∀ name, ¬ (Component.resolver m o c).Takes
        ⟨(Component.resolver m o c).paramKey p, context, some i⟩ name :=
      fun name hname => ht ⟨name, hname⟩
    -- The parameter is looked up as if it had no place.
    have hsame : (Component.resolver m o c).answer
          ⟨(Component.resolver m o c).paramKey p, context, some i⟩
        = (Component.resolver m o c).answer
          ⟨(Component.resolver m o c).paramKey p, context, none⟩ := by
      have hcandidate := candidate_of_not_takes hnone
      rw [answer_eq_step hc, answer_eq_step hc ⟨_, context, none⟩, step, step, hcandidate]
      rfl
    rw [hsame]
    constructor
    · intro h
      refine .found (fun type name ha => ?_) h
      exact Bool.eq_false_iff.2 fun hs => hnone name ⟨i, type, rfl, ha, hs⟩
    · intro h
      cases h with
      | arg ha hs => exact absurd ⟨i, _, rfl, ha, hs⟩ (hnone _)
      | found _ ha => exact ha

/-- The requests for the parameters of a call are answered by what the parameters are bound to. -/
theorem answers_iff_bindsEach (hc : c ∈ m.classifiers) :
    List.Forall₂ (fun q plan => (Component.resolver m o c).answer q = .ok plan)
        ((Component.resolver m o c).paramRequests context ps) args
      ↔ (Component.resolver m o c).BindsEach context ps args := by
  rw [← List.forall₂_reverse_iff, forall₂_iff_getElem?, List.length_reverse, List.length_reverse,
    length_paramRequests]
  constructor
  · rintro ⟨hlength, hall⟩
    refine ⟨hlength.symm, fun i p plan hp hplan => ?_⟩
    refine (answer_eq_ok_iff_boundAt hc).1 (hall i _ plan ?_ hplan)
    rw [getElem?_reverse_paramRequests, hp, Option.map_some]
  · intro h
    refine ⟨h.length_eq.symm, fun i q plan hq hplan => ?_⟩
    rw [getElem?_reverse_paramRequests] at hq
    obtain ⟨p, hp, rfl⟩ := Option.map_eq_some_iff.1 hq
    exact (answer_eq_ok_iff_boundAt hc).2 (h.bound i p plan hp hplan)

/-- A parameter of the lambda is handed on exactly to a parameter at its place that accepts it. -/
theorem BindsEach.arg_iff (hc : c ∈ m.classifiers)
    (h : (Component.resolver m o c).BindsEach context ps args) {type : TypeExpr} {name : String}
    (ha : context.args.reverse[i]? = some (type, name)) :
    args.reverse[i]? = some (.arg name) ↔
      ∃ p, ps.reverse[i]? = some p ∧ m.isAssignable p.type type = true := by
  have hlength : args.reverse.length = ps.reverse.length := by
    rw [List.length_reverse, List.length_reverse, h.length_eq]
  constructor
  · intro harg
    have hi := (List.getElem?_eq_some_iff.1 harg).1
    rw [hlength] at hi
    have hp := List.getElem?_eq_getElem hi
    cases h.bound i _ _ hp harg with
    | arg ha' ht =>
      rw [ha] at ha'
      cases ha'
      exact ⟨_, hp, ht⟩
    | found _ hanswer => exact absurd hanswer (answer_ne_arg hc _ name)
  · rintro ⟨p, hp, ht⟩
    have hi := (List.getElem?_eq_some_iff.1 hp).1
    rw [← hlength] at hi
    obtain ⟨plan, hplan⟩ : ∃ plan, args.reverse[i]? = some plan :=
      ⟨_, List.getElem?_eq_getElem hi⟩
    cases h.bound i p plan hp hplan with
    | arg ha' =>
      rw [ha] at ha'
      cases ha'
      exact hplan
    | found hn => exact absurd ht (Bool.eq_false_iff.1 (hn type name ha))

/-- The parameters of a lambda are handed on in order exactly if the last parameters of the function
accept them. -/
theorem suffix_iff_accepts (hc : c ∈ m.classifiers) (hargs : context.args = .ofTypes params)
    (h : (Component.resolver m o c).BindsEach context f.params args) :
    (LambdaParams.ofTypes params).map (fun a => Plan.arg a.2) <:+ args ↔ m.Accepts f params := by
  have htypes : ∀ i : Nat, params.reverse[i]? = (context.args.reverse[i]?).map (·.1) := by
    intro i
    rw [hargs, ← List.getElem?_map, List.map_reverse, LambdaParams.types_ofTypes]
  rw [suffix_iff_getElem?_reverse, ← hargs]
  constructor
  · intro hsame i type htype
    rw [htypes] at htype
    obtain ⟨⟨_, name⟩, hplace, rfl⟩ := Option.map_eq_some_iff.1 htype
    refine (h.arg_iff hc hplace).1 (hsame i _ ?_)
    rw [← List.map_reverse, List.getElem?_map, hplace, Option.map_some]
  · intro haccepts i plan hplan
    rw [← List.map_reverse, List.getElem?_map] at hplan
    obtain ⟨⟨type, name⟩, hplace, rfl⟩ := Option.map_eq_some_iff.1 hplan
    refine (h.arg_iff hc hplace).2 (haccepts i type ?_)
    rw [htypes, hplace, Option.map_some]

/-- An alias is a call of the first injectable function of its name, and of no other one. -/
theorem answer_eq_ok_iff_of_firstNamed (hc : c ∈ m.classifiers)
    (h : (Component.resolver m o c).AsksAlias q params result)
    (hf : m.FirstNamed q.key.type f) : (Component.resolver m o c).answer q = .ok plan ↔
      ∃ context args, q.context.enter? f.element = some context ∧
        (Component.resolver m o c).BindsEach (context.withArgs (.ofTypes params)) f.params args ∧
        plan = .namedFunction f (.ofTypes params) args := by
  have hcandidate := h.candidate_eq
  rw [namedFunction?_eq_some_iff.2 ⟨h.isAlias, hf⟩] at hcandidate
  rw [answer_eq_step hc, step_eq_visit hcandidate rfl fun _ => rfl, visit_eq_ok_iff]
  constructor
  · rintro ⟨context, args, he, hargs, rfl⟩
    exact ⟨context, args, he, (answers_iff_bindsEach hc).1 hargs, rfl⟩
  · rintro ⟨context, args, he, hbinds, rfl⟩
    exact ⟨context, args, he, (answers_iff_bindsEach hc).2 hbinds, rfl⟩

/-- An alias that no injectable function is named after is a plain lambda. -/
theorem answer_eq_ok_iff_of_noneNamed (hc : c ∈ m.classifiers)
    (h : (Component.resolver m o c).AsksAlias q params result)
    (hn : m.NoneNamed q.key.type) : (Component.resolver m o c).answer q = .ok plan ↔
      ∃ context body, q.context.enter? (.ofType q.key.type) = some context ∧
        (Component.resolver m o c).answer
          ⟨⟨result, q.key.qualifier⟩, context.withArgs (.ofTypes params), none⟩ = .ok body ∧
        plan = .function (.ofTypes params) body := by
  have hcandidate := h.candidate_eq
  rw [namedFunction?_eq_none hn] at hcandidate
  rw [answer_eq_step hc, step_eq_visit hcandidate rfl fun _ => rfl, visit_eq_ok_iff]
  constructor
  · rintro ⟨context, plans, he, hplans, rfl⟩
    cases hplans with
    | cons ha hnil =>
      cases hnil
      exact ⟨context, _, he, ha, rfl⟩
  · rintro ⟨context, body, he, ha, rfl⟩
    exact ⟨context, [body], he, .cons ha .nil, rfl⟩

/-- A call of a named function answers a request for an alias whose name it has first. -/
theorem asksAlias_of_answer (hc : c ∈ m.classifiers)
    (h : (Component.resolver m o c).answer q = .ok (.namedFunction f lambda args)) :
    ∃ params result, (Component.resolver m o c).AsksAlias q params result ∧
      m.FirstNamed q.key.type f ∧ lambda = .ofTypes params := by
  rw [answer_eq_step hc] at h
  obtain ⟨params, hlambda, hcandidate⟩ := candidate_of_namedFunction h
  obtain ⟨result, hasks, hfirst⟩ := asksAlias_of_candidate hcandidate
  exact ⟨params, result, hasks, hfirst, hlambda⟩

end Component

end Resolver

namespace Component

open Resolver

variable {m : Model} {o : Options} {c : Classifier}

/-- Aliases stand for functions by their names, and arguments are bound by their places. -/
structure NamedByPlace (m : Model) (o : Options) (c : Classifier) : Prop where
  /-- A call of a named function is planned for an alias that nothing else satisfies, inside a
  lambda with the parameters of the alias. The function is the first injectable one that has the
  package and the name of the alias. -/
  chosen : ∀ q f lambda args,
    (resolver m o c).answer q = .ok (.namedFunction f lambda args) → ∃ params result,
      (resolver m o c).AsksAlias q params result ∧ m.FirstNamed q.key.type f ∧
      lambda = .ofTypes params
  /-- Such a function is always called, with its parameters bound one by one. -/
  called : ∀ q params result f plan, (resolver m o c).AsksAlias q params result →
    m.FirstNamed q.key.type f → ((resolver m o c).answer q = .ok plan ↔ ∃ context args,
      q.context.enter? f.element = some context ∧
      (resolver m o c).BindsEach (context.withArgs (.ofTypes params)) f.params args ∧
      plan = .namedFunction f (.ofTypes params) args)
  /-- The last parameters of the function are bound in order to the parameters of the lambda exactly
  if they accept them. -/
  inOrder : ∀ q f params args,
    (resolver m o c).answer q = .ok (.namedFunction f (.ofTypes params) args) →
    ((LambdaParams.ofTypes params).map (fun a => Plan.arg a.2) <:+ args ↔ m.Accepts f params)
  /-- Without such a function, the alias is a plain lambda. -/
  plain : ∀ q params result plan, (resolver m o c).AsksAlias q params result →
    m.NoneNamed q.key.type → ((resolver m o c).answer q = .ok plan ↔ ∃ context body,
      q.context.enter? (.ofType q.key.type) = some context ∧
      (resolver m o c).answer
        ⟨⟨result, q.key.qualifier⟩, context.withArgs (.ofTypes params), none⟩ = .ok body ∧
      plan = .function (.ofTypes params) body)
  /-- All calls of named functions in the plans of the component answer requests. -/
  within : ∀ p ∈ (plan m o c).providers, ∀ f lambda args,
    (Plan.namedFunction f lambda args).Within p.plan → ∃ q filled parent,
      Node m o c q (.namedFunction f lambda args) filled parent ∧
      (resolver m o c).answer q = .ok (.namedFunction f lambda args)

/-- Named functions are chosen by name and called by place, in all plans of all components. -/
theorem namedByPlace (m : Model) (o : Options) (c : Classifier) (hc : c ∈ m.classifiers) :
    NamedByPlace m o c where
  chosen q f lambda args h := asksAlias_of_answer hc h
  called q params result f plan h hf := answer_eq_ok_iff_of_firstNamed hc h hf
  inOrder q f params args h := by
    obtain ⟨params', result, hasks, hfirst, hlambda⟩ := asksAlias_of_answer hc h
    have hparams : params = params' := by
      rw [← LambdaParams.types_ofTypes params, hlambda, LambdaParams.types_ofTypes]
    subst hparams
    obtain ⟨context, args', _, hbinds, hplan⟩ :=
      (answer_eq_ok_iff_of_firstNamed hc hasks hfirst).1 h
    cases hplan
    exact suffix_iff_accepts hc rfl hbinds
  plain q params result plan h hn := answer_eq_ok_iff_of_noneNamed hc h hn
  within p hp f lambda args h := by
    rcases node_or_call_of_within hc (answer_of_mem_providers hp) h with
      ⟨q, filled, parent, hn⟩ | ⟨_, hlambda⟩
    · exact ⟨q, filled, parent, ⟨p, hp, hn⟩, hn.answer_eq⟩
    · cases hlambda

/-- An alias of the package for the functions from names to letters. -/
def letterAlias (name : String) : TypeExpr :=
  .aliased "app" name [] false (.function [Sketch.type "Name"] (Sketch.type "Letter"))

/-- A lobby from which letters are sent. -/
def lobby : ClassDecl :=
  Sketch.component "Lobby" [] [] [
    Sketch.requirement "invite" (letterAlias "Invite") [],
    Sketch.requirement "remind" (letterAlias "Remind") [],
    Sketch.requirement "thank" (letterAlias "Thank") []]

/-- A function that sends a bill. -/
def bill (name : String) (params : List ParamDecl) : FunctionDecl :=
  Sketch.function name (Sketch.param "stamp" (Sketch.type "Stamp") [] :: params)
    (Sketch.type "Bill")

/-- A function that invites by letter. -/
def invitation : FunctionDecl :=
  Sketch.function "Invite" [Sketch.param "name" (Sketch.type "Name") []] (Sketch.type "Letter")

/-- The program of the lobby. Of the functions called `Invite` only the second has the shape of the
alias, the one called `Remind` does not have it, and none is called `Thank`. -/
def lobbyProgram : Model :=
  Sketch.programWith [lobby,
    Sketch.injectable "Letter" [] [Sketch.param "name" (Sketch.type "Name") []],
    Sketch.injectable "Stamp" [] []]
    [bill "Invite" [], invitation, bill "Remind" [Sketch.param "name" (Sketch.type "Name") []]]

/-- The lobby sends two letters by functions of the aliases' names, and one without. -/
theorem namedByPlace_lobby : ⟨0, lobby, false⟩ ∈ lobbyProgram.classifiers ∧
    (plan lobbyProgram {} ⟨0, lobby, false⟩).providers.map (·.plan.displayText)
      = ["NamedFunction(arg0 -> app.Invite, Constructor(app.Stamp))",
        "NamedFunction(arg0 -> app.Remind, Constructor(app.Stamp), Arg(arg0))",
        "Function(arg0 -> Constructor(app.Letter, Arg(arg0)))"] ∧
    NamedByPlace lobbyProgram {} ⟨0, lobby, false⟩ := by
  have hc : ⟨0, lobby, false⟩ ∈ lobbyProgram.classifiers := Model.mem_classifiers.2 ⟨rfl, rfl⟩
  exact ⟨hc, by decide +kernel, namedByPlace lobbyProgram {} ⟨0, lobby, false⟩ hc⟩

/-- A function that is called for an alias returns what the alias does, and its last parameters are
bound in order to the parameters of the lambda. -/
def ShapeKept (m : Model) (o : Options) (c : Classifier) : Prop :=
  ∀ q f lambda args filled parent params result,
    Node m o c q (.namedFunction f lambda args) filled parent →
    q.key.type.signature? = some (params, result) →
    f.returns = result ∧ lambda.map (fun a => Plan.arg a.2) <:+ args

/-- A function that is called for an alias has its shape if any injectable function of its name
does. -/
def ShapePreferred (m : Model) (o : Options) (c : Classifier) : Prop :=
  ∀ q f g lambda args filled parent params result,
    Node m o c q (.namedFunction f lambda args) filled parent →
    q.key.type.signature? = some (params, result) →
    g ∈ m.functionsNamed q.key.type.package q.key.type.name → Role.isInjectFunction g = true →
    m.Fits params result g → m.Fits params result f

/-- An alias is a plain lambda if no injectable function of its name has its shape. -/
def ShapeRequired (m : Model) (o : Options) (c : Classifier) : Prop :=
  ∀ q plan filled parent params result, Node m o c q plan filled parent →
    (resolver m o c).AsksAlias q params result →
    (∀ g ∈ m.functionsNamed q.key.type.package q.key.type.name, Role.isInjectFunction g = true →
      ¬ m.Fits params result g) → ∃ body, plan = .function (.ofTypes params) body

/-- Aliases stand for functions of their name and shape. -/
structure NamedByShape (m : Model) (o : Options) (c : Classifier) : Prop where
  kept : ShapeKept m o c
  preferred : ShapePreferred m o c
  required : ShapeRequired m o c

/-- The first function called `Invite` is called although the second one has the shape of the alias,
and the one called `Remind` although none has. -/
theorem not_namedByShape_lobby : ⟨0, lobby, false⟩ ∈ lobbyProgram.classifiers ∧
    ¬ NamedByShape lobbyProgram {} ⟨0, lobby, false⟩ ∧
    ¬ ShapePreferred lobbyProgram {} ⟨0, lobby, false⟩ ∧
    ¬ ShapeRequired lobbyProgram {} ⟨0, lobby, false⟩ := by
  have hc : ⟨0, lobby, false⟩ ∈ lobbyProgram.classifiers := Model.mem_classifiers.2 ⟨rfl, rfl⟩
  have hbill : Sketch.type "Bill" ≠ Sketch.type "Letter" := by decide
  obtain ⟨q, f, args, hnode, htype, hreturns⟩ : ∃ q f args,
      Node lobbyProgram {} ⟨0, lobby, false⟩ q
        (.namedFunction f (.ofTypes [Sketch.type "Name"]) args) none none ∧
      q.key.type = letterAlias "Invite" ∧ f.returns = Sketch.type "Bill" :=
    ⟨_, _, _, ⟨_, List.mem_cons_self .., .root (answer_of_mem_providers (List.mem_cons_self ..))⟩,
      rfl, rfl⟩
  have hsignature : q.key.type.signature? = some ([Sketch.type "Name"], Sketch.type "Letter") := by
    rw [htype]
    rfl
  refine ⟨hc, fun h => ?_, fun h => ?_, fun h => ?_⟩
  · have hfit := (h.kept q f _ args none none _ _ hnode hsignature).1
    rw [hreturns] at hfit
    exact hbill hfit
  · have hmem : lobbyProgram.functionAt 1 invitation
        ∈ lobbyProgram.functionsNamed q.key.type.package q.key.type.name := by
      rw [htype]
      exact List.mem_cons_of_mem _ (List.mem_cons_self ..)
    have haccepts : lobbyProgram.Accepts (lobbyProgram.functionAt 1 invitation)
        [Sketch.type "Name"] := by
      intro i type ht
      cases i with
      | zero =>
        cases ht
        exact ⟨_, rfl, rfl⟩
      | succ i => cases ht
    have hfit := (h q f _ _ args none none _ _ hnode hsignature hmem rfl ⟨rfl, haccepts⟩).1
    rw [hreturns] at hfit
    exact hbill hfit
  · obtain ⟨q', f', args', hnode', htype'⟩ : ∃ q f args,
        Node lobbyProgram {} ⟨0, lobby, false⟩ q
          (.namedFunction f (.ofTypes [Sketch.type "Name"]) args) none none ∧
        q.key.type = letterAlias "Remind" :=
      ⟨_, _, _, ⟨_, List.mem_cons_of_mem _ (List.mem_cons_self ..),
        .root (answer_of_mem_providers (List.mem_cons_of_mem _ (List.mem_cons_self ..)))⟩, rfl⟩
    obtain ⟨p, hp, hn⟩ := hnode'
    obtain ⟨params, result, hasks, _, _⟩ := asksAlias_of_answer hc hn.answer_eq
    have hresult := hasks.signature
    rw [htype'] at hresult
    cases hresult
    obtain ⟨body, hbody⟩ := h q' _ none none _ _ ⟨p, hp, hn⟩ hasks fun g hg _ hfit => by
      rw [htype'] at hg
      obtain rfl := List.mem_singleton.1 hg
      exact hbill hfit.1
    cases hbody

end Component

end Wiring
