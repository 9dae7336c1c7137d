import Wiring.Proofs.Resolve.Task

/-!
# Requests asked by requests

Which requests a step asks for, and through which subject, if it enters one. A step is determined
by the answers to these requests. It succeeds only if all of them are answered, and it fails with
a failure of its own or with that of one of them.
-/

namespace Wiring

/-- The parameters of a subject that is a lambda. -/
def Subject.lambda? : Subject → Option LambdaParams
  | .lambda _ types _ => some (.ofTypes types)
  | .function _ types => some (.ofTypes types)
  | _ => none

namespace Resolver

variable {r : Resolver} {answer : Request → Except Failure Plan} {q q' : Request}

/-- A request asks another one, in its own place or for something that a subject needs which is
entered for it. -/
inductive Asks (r : Resolver) (q : Request) : Option Subject → Request → Prop where
  | onward {candidate : Candidate} {q' : Request}
      (hc : r.candidate q.key q.context q.fromEnd = .ok (some candidate))
      (ht : .ask q' ∈ candidate.tasks q.key q.context) : Asks r q none q'
  | inside {candidate : Candidate} {s : Subject} {context : Context} {q' : Request}
      (hc : r.candidate q.key q.context q.fromEnd = .ok (some candidate))
      (ht : .enter s ∈ candidate.tasks q.key q.context)
      (he : q.context.enter? s.element = some context) (hn : q' ∈ r.needs context s) :
      Asks r q (some s) q'

/-- Requests for parameters are made in one context, each for the key of a parameter. -/
theorem mem_paramRequests {c : Context} {ps : List Param} (h : q ∈ r.paramRequests c ps) :
    q.context = c ∧ ∃ p ∈ ps, q.key = r.paramKey p := by
  induction ps with
  | nil => exact absurd h List.not_mem_nil
  | cons p ps ih =>
    rcases List.mem_cons.1 h with rfl | h
    · exact ⟨rfl, p, List.mem_cons_self .., rfl⟩
    · obtain ⟨hc, p', hp', hk⟩ := ih h
      exact ⟨hc, p', List.mem_cons_of_mem _ hp', hk⟩

/-- What a subject needs is asked for in the context that it is entered in, if maybe inside another
component. A lambda puts its own parameters in the place of those at hand. -/
theorem context_of_mem_needs {c : Context} {s : Subject} (h : q ∈ r.needs c s) :
    ∃ scope, q.context = { c with parentScope := scope, args := s.lambda?.getD c.args } := by
  have hscope : ∀ accessor, ∃ scope,
      c.withParentScope accessor = { c with parentScope := scope } := by
    intro accessor
    cases accessor with
    | none => exact ⟨_, rfl⟩
    | some name => cases hp : c.parentScope <;> exact ⟨_, by rw [Context.withParentScope, hp]⟩
  cases s with
  | member p =>
    rw [needs] at h
    split at h
    · rw [(mem_paramRequests h).1]
      exact ⟨_, rfl⟩
    · rcases List.mem_cons.1 h with rfl | h
      · exact hscope _
      · rw [(mem_paramRequests h).1]
        exact hscope _
  | constructor k =>
    rw [(mem_paramRequests h).1]
    exact ⟨_, rfl⟩
  | lambda type types result =>
    rw [List.mem_singleton.1 h]
    exact ⟨_, rfl⟩
  | function f types =>
    rw [(mem_paramRequests h).1]
    exact ⟨_, rfl⟩

/-- What a subject needs is asked for on the same path. -/
theorem path_of_mem_needs {c : Context} {s : Subject} (h : q ∈ r.needs c s) :
    q.context.path = c.path := by
  obtain ⟨_, hcontext⟩ := context_of_mem_needs h
  rw [hcontext]

/-- A request that is asked in the place of another fills the cache entry of its key, or is for
what its lazy type holds. -/
theorem Asks.onward_cases (h : r.Asks q none q') :
    (∃ b owner, r.Finds q.key q.context q.fromEnd b ∧ b.scope? = some owner ∧
        q.context.skipScoped ≠ some q.key.type ∧
        q' = ⟨q.key, q.context.withoutScoped q.key.type, none⟩)
      ∨ ∃ inner, q.key.type.isKnown .lazy = true ∧
          q.key.type.resolved.arguments.head? = some inner ∧
          q' = ⟨⟨inner, q.key.qualifier⟩, q.context, none⟩ := by
  cases h with
  | onward hc ht =>
    cases chosen_of_candidate hc with
    | arg => exact absurd ht List.not_mem_nil
    | offered ho =>
      cases ho with
      | namedFunction => cases List.mem_singleton.1 ht
      | function => cases List.mem_singleton.1 ht
      | lazy hl ha =>
        cases List.mem_singleton.1 ht
        exact .inr ⟨_, hl, ha, rfl⟩
    | @bound b hf =>
      rcases ofBinding_cases q.key q.context b with ⟨he, _⟩ | ⟨owner, hs, he, hne⟩
      · rw [he] at ht
        cases b with
        | constructor => cases List.mem_singleton.1 ht
        | provider => cases List.mem_singleton.1 ht
        | container =>
          obtain ⟨p, _, hp⟩ := List.mem_map.1 ht
          cases hp
      · rw [he] at ht
        cases List.mem_singleton.1 ht
        exact .inl ⟨b, owner, hf, hs, hne, rfl⟩

/-- What is entered with parameters of its own is entered for a function type, whose parameters they
are. -/
theorem signature_of_enter_mem_tasks {candidate : Candidate} {s : Subject} {params : LambdaParams}
    (hc : r.candidate q.key q.context q.fromEnd = .ok (some candidate))
    (ht : .enter s ∈ candidate.tasks q.key q.context) (hl : s.lambda? = some params) :
    ∃ types result, q.key.type.signature? = some (types, result) ∧ params = .ofTypes types := by
  cases chosen_of_candidate hc with
  | arg => exact absurd ht List.not_mem_nil
  | offered ho =>
    cases ho with
    | namedFunction hs =>
      cases List.mem_singleton.1 ht
      cases hl
      exact ⟨_, _, hs, rfl⟩
    | function hs =>
      cases List.mem_singleton.1 ht
      cases hl
      exact ⟨_, _, hs, rfl⟩
    | lazy => cases List.mem_singleton.1 ht
  | @bound b =>
    -- What is entered for a binding is a constructor or a member.
    rcases ofBinding_cases q.key q.context b with ⟨he, _⟩ | ⟨_, _, he, _⟩
    · rw [he] at ht
      cases b with
      | constructor =>
        cases List.mem_singleton.1 ht
        cases hl
      | provider =>
        cases List.mem_singleton.1 ht
        cases hl
      | container =>
        obtain ⟨p, _, hp⟩ := List.mem_map.1 ht
        cases hp
        cases hl
    · rw [he] at ht
      cases List.mem_singleton.1 ht

/-- A request is made on the path of the one that asks for it, with what is entered for it in front,
and leaves out the requirement that is left out already. -/
theorem Asks.carries {s : Option Subject} (h : r.Asks q s q') :
    q'.context.path.elements = (s.map (·.element)).toList ++ q.context.path.elements ∧
      q'.context.skipProvider = q.context.skipProvider := by
  cases s with
  | some s =>
    cases h with
    | inside _ _ he hn =>
      obtain ⟨_, hpath, hcontext⟩ := Context.enter?_eq_some he
      obtain ⟨_, hneed⟩ := context_of_mem_needs hn
      rw [hneed]
      dsimp only
      rw [hpath, hcontext]
      exact ⟨rfl, rfl⟩
  | none =>
    rcases h.onward_cases with ⟨_, _, _, _, _, rfl⟩ | ⟨_, _, _, rfl⟩ <;> exact ⟨rfl, rfl⟩

/-- A request is asked on behalf of another one, and the subjects of the trail are entered on the
way, the last one first. -/
inductive AsksThrough (r : Resolver) (root : Request) : List Subject → Request → Prop where
  | root : AsksThrough r root [] root
  | asked {trail : List Subject} {q q' : Request} {s : Option Subject}
      (h : AsksThrough r root trail q) (hq : r.Asks q s q') :
      AsksThrough r root (s.toList ++ trail) q'

namespace AsksThrough

variable {root : Request} {trail : List Subject}

/-- A way of asking may be made longer in front. -/
theorem head {s : Option Subject} (hq : r.Asks root s q') (h : r.AsksThrough q' trail q) :
    r.AsksThrough root (trail ++ s.toList) q := by
  induction h with
  | root =>
    have hfirst := AsksThrough.asked .root hq
    rw [List.append_nil] at hfirst
    exact hfirst
  | asked _ hasks ih =>
    rw [List.append_assoc]
    exact .asked ih hasks

/-- What is being resolved is what was entered on the way, before what was being resolved
already. -/
theorem elements (h : r.AsksThrough root trail q) :
    q.context.path.elements = trail.map (·.element) ++ root.context.path.elements := by
  induction h with
  | root => rfl
  | @asked trail q q' s _ hq ih =>
    rw [hq.carries.1, ih, List.map_append, List.append_assoc]
    cases s <;> rfl

/-- The source of a request is the last subject that was entered. -/
theorem source (h : r.AsksThrough root trail q) :
    q.context.source = (trail.map (·.element)).headD root.context.source := by
  induction h with
  | root => rfl
  | @asked trail q q' s _ hq ih =>
    cases s with
    | none => rcases hq.onward_cases with ⟨_, _, _, _, _, rfl⟩ | ⟨_, _, _, rfl⟩ <;> exact ih
    | some s =>
      cases hq with
      | inside _ _ he hn =>
        obtain ⟨_, hcontext⟩ := context_of_mem_needs hn
        rw [hcontext, (Context.enter?_eq_some he).2.2]
        rfl

end AsksThrough

/-- A step is determined by the answers to the requests it asks. -/
theorem step_congr {answer' : Request → Except Failure Plan}
    (h : ∀ s q', r.Asks q s q' → answer q' = answer' q') : r.step answer q = r.step answer' q := by
  cases hc : r.candidate q.key q.context q.fromEnd with
  | error e =>
    rw [step, step, hc]
    rfl
  | ok found =>
    cases found with
    | none =>
      rw [step, step, hc]
      rfl
    | some candidate =>
      rw [step_eq hc, step_eq hc]
      have htasks : ∀ t ∈ candidate.tasks q.key q.context,
          r.perform answer q.context t = r.perform answer' q.context t := by
        intro t ht
        cases t with
        | ask q' => exact h none q' (.onward hc ht)
        | enter s =>
          rw [perform, perform, visit, visit, Context.entering_eq, Context.entering_eq]
          cases he : q.context.enter? s.element with
          | none => rfl
          | some context =>
            dsimp only
            rw [mapM_congr fun q' hq' => h (some s) q' (.inside hc ht he hq')]
      rw [mapM_congr htasks]

/-- A visit fails when its subject is on the path already, or with the first thing that the subject
needs and does not get. -/
theorem visit_eq_error_iff {c : Context} {s : Subject} {e : Failure} :
    r.visit answer c s = .error e ↔
      (c.enter? s.element = none ∧ e = .cycle c.path.trace s.element)
        ∨ ∃ context met q' rest, c.enter? s.element = some context ∧
            r.needs context s = met ++ q' :: rest ∧
            (∀ p ∈ met, ∃ plan, answer p = .ok plan) ∧ answer q' = .error e := by
  rw [visit, Context.entering_eq]
  cases he : c.enter? s.element with
  | none =>
    constructor
    · intro h
      cases h
      exact .inl ⟨rfl, rfl⟩
    · rintro (⟨_, rfl⟩ | ⟨context, _, _, _, hc, _⟩)
      · rfl
      · cases hc
  | some context =>
    dsimp only
    rw [map_eq_error_iff, mapM_eq_error_iff]
    constructor
    · rintro ⟨met, q', rest, hl, hm, hq⟩
      exact .inr ⟨context, met, q', rest, rfl, hl, hm, hq⟩
    · rintro (⟨hc, _⟩ | ⟨context', met, q', rest, hc, hl, hm, hq⟩)
      · cases hc
      · cases hc
        exact ⟨met, q', rest, hl, hm, hq⟩

/-- A step fails for want of a candidate, or with the first task of its candidate that fails. -/
theorem step_eq_error_iff {e : Failure} :
    r.step answer q = .error e ↔
      r.candidate q.key q.context q.fromEnd = .error e
        ∨ (r.candidate q.key q.context q.fromEnd = .ok none ∧
            e = .noBinding q.key q.context.path.trace q.context.source)
        ∨ ∃ candidate done t rest,
            r.candidate q.key q.context q.fromEnd = .ok (some candidate) ∧
            candidate.tasks q.key q.context = done ++ t :: rest ∧
            (∀ u ∈ done, ∃ plan, r.perform answer q.context u = .ok plan) ∧
            r.perform answer q.context t = .error e := by
  cases hc : r.candidate q.key q.context q.fromEnd with
  | error e' =>
    rw [step, hc]
    constructor
    · intro h
      cases h
      exact .inl rfl
    · rintro (h | ⟨h, _⟩ | ⟨_, _, _, _, h, _⟩) <;> cases h
      rfl
  | ok found =>
    cases found with
    | none =>
      rw [step, hc]
      constructor
      · intro h
        cases h
        exact .inr (.inl ⟨rfl, rfl⟩)
      · rintro (h | ⟨_, rfl⟩ | ⟨_, _, _, _, h, _⟩)
        · cases h
        · rfl
        · cases h
    | some candidate =>
      rw [step_eq hc, map_eq_error_iff, mapM_eq_error_iff]
      constructor
      · rintro ⟨done, t, rest, hl, hd, ht⟩
        exact .inr (.inr ⟨candidate, done, t, rest, rfl, hl, hd, ht⟩)
      · rintro (h | ⟨h, _⟩ | ⟨candidate', done, t, rest, h, hl, hd, ht⟩)
        · cases h
        · cases h
        · cases h
          exact ⟨done, t, rest, hl, hd, ht⟩

/-- Why a request fails by itself, with the failure it is answered with. -/
inductive Fails (r : Resolver) (q : Request) : Failure → Prop where
  /-- Nothing satisfies its key. -/
  | noBinding (hc : r.candidate q.key q.context q.fromEnd = .ok none) :
      Fails r q (.noBinding q.key q.context.path.trace q.context.source)
  /-- Its type is an injectable class, with a scope that no component in reach owns. -/
  | unresolvableScope {cls : Classifier} {scope : TypeExpr} (hq : q.key.qualifier = none)
      (hcls : r.model.classOf q.key.type = some cls)
      (hi : Role.isInjectClass r.model r.options cls = true)
      (hs : Role.scope? r.options (cls.annotations r.model) = some scope)
      (ho : r.catalogue.ownerOf? scope = none) :
      Fails r q (.unresolvableScope q.key.type scope q.context.path.trace q.context.source)
  /-- What is selected for it is being resolved already. -/
  | cycle {candidate : Candidate} {s : Subject}
      (hc : r.candidate q.key q.context q.fromEnd = .ok (some candidate))
      (ht : .enter s ∈ candidate.tasks q.key q.context)
      (hp : s.element.id ∈ q.context.path.elements.map (·.id)) :
      Fails r q (.cycle q.context.path.trace s.element)

/-- A step fails by itself, or with a request it asks. -/
theorem fails_or_asks {e : Failure} (h : r.step answer q = .error e) :
    r.Fails q e ∨ ∃ s q', r.Asks q s q' ∧ answer q' = .error e := by
  rcases step_eq_error_iff.1 h with hc | ⟨hc, rfl⟩ | ⟨candidate, done, t, rest, hc, hl, _, ht⟩
  · obtain ⟨missing, rfl, hmissing⟩ := missing_of_candidate hc
    obtain ⟨_, _, hq, hctor⟩ := Catalogue.resolve_eq_error hmissing
    obtain ⟨htype, cls, hcls, hi, _, hs, ho⟩ := Catalogue.constructorBinding_eq_error hctor
    rw [htype]
    exact .inl (.unresolvableScope hq hcls hi hs ho)
  · exact .inl (.noBinding hc)
  · have hmem : t ∈ candidate.tasks q.key q.context := mem_of_split hl
    cases t with
    | ask q' => exact .inr ⟨none, q', .onward hc hmem, ht⟩
    | enter s =>
      rcases visit_eq_error_iff.1 ht with ⟨he, rfl⟩ | ⟨context, met, q', later, he, hn, _, hq⟩
      · exact .inl (.cycle hc hmem (Context.enter?_eq_none_iff.1 he))
      · have hneed : q' ∈ r.needs context s := mem_of_split hn
        exact .inr ⟨some s, q', .inside hc hmem he hneed, hq⟩

end Resolver

end Wiring
