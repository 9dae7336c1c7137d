import Wiring.Proofs.Resolve.Termination

/-!
# Where resolution stops in a cycle

The one attempt that ends resolution with a cycle: the subjects being resolved, and the subject
that is to be entered and found on the path. Everything before the attempt was answered, so there
is at most one such attempt, and there is one exactly when resolution fails with a cycle. The
failure shows the subjects being resolved and the subject attempted.
-/

namespace Wiring

/-- The first element of a list that fails a test splits the list in one way. -/
theorem split_unique {α : Type} {P : α → Prop} {l before before' after after' : List α} {a a' : α}
    (h : l = before ++ a :: after) (h' : l = before' ++ a' :: after') (hb : ∀ b ∈ before, P b)
    (hb' : ∀ b ∈ before', P b) (ha : ¬ P a) (ha' : ¬ P a') :
    before = before' ∧ a = a' ∧ after = after' := by
  subst h
  induction before generalizing before' with
  | nil =>
    cases before' with
    | nil =>
      cases h'
      exact ⟨rfl, rfl, rfl⟩
    | cons b before' =>
      cases h'
      exact absurd (hb' a (List.mem_cons_self ..)) ha
  | cons b before ih =>
    cases before' with
    | nil =>
      cases h'
      exact absurd (hb a' (List.mem_cons_self ..)) ha'
    | cons b' before' =>
      obtain ⟨hhead, htail⟩ := List.cons.inj h'
      obtain ⟨hbefore, hrest⟩ := ih (fun x hx => hb x (List.mem_cons_of_mem _ hx))
        (fun x hx => hb' x (List.mem_cons_of_mem _ hx)) htail
      rw [hhead, hbefore]
      exact ⟨rfl, hrest⟩

namespace Resolver

/-- With the subjects of a trail being resolved, resolution of a request stops at the attempt to
enter `s`, when the subjects of `stopped` are being resolved. -/
inductive StopsAt (r : Resolver) : (trail : List Subject) → Request → (stopped : List Subject) →
    (s : Subject) → Prop where
  /-- The subject of the request is on the path. -/
  | here {trail q candidate done s rest}
      (hc : r.candidate q.key q.context q.fromEnd = .ok (some candidate))
      (ht : candidate.tasks q.key q.context = done ++ .enter s :: rest)
      (hd : ∀ u ∈ done, ∃ plan, r.perform r.answer q.context u = .ok plan)
      (he : q.context.enter? s.element = none) : StopsAt r trail q trail s
  /-- It stops at something that the subject of the request needs. -/
  | inside {trail q candidate done t rest context met q' later stopped s}
      (hc : r.candidate q.key q.context q.fromEnd = .ok (some candidate))
      (ht : candidate.tasks q.key q.context = done ++ .enter t :: rest)
      (hd : ∀ u ∈ done, ∃ plan, r.perform r.answer q.context u = .ok plan)
      (he : q.context.enter? t.element = some context)
      (hn : r.needs context t = met ++ q' :: later)
      (hm : ∀ p ∈ met, ∃ plan, r.answer p = .ok plan)
      (hs : StopsAt r (t :: trail) q' stopped s) : StopsAt r trail q stopped s
  /-- It stops at the request that is asked in the place of this one. -/
  | onward {trail q candidate done q' rest stopped s}
      (hc : r.candidate q.key q.context q.fromEnd = .ok (some candidate))
      (ht : candidate.tasks q.key q.context = done ++ .ask q' :: rest)
      (hd : ∀ u ∈ done, ∃ plan, r.perform r.answer q.context u = .ok plan)
      (hs : StopsAt r trail q' stopped s) : StopsAt r trail q stopped s

/-- A trail is what a path holds. -/
def OnPath (trail : List Subject) (context : Context) : Prop :=
  context.path.elements = trail.map (·.element)

/-- A trail shows what the trace of its path shows. -/
theorem OnPath.trace {trail : List Subject} {context : Context} (h : OnPath trail context) :
    context.path.trace = trail.map fun s => s.element.trace := by
  rw [ResolutionPath.trace, h, List.map_map]
  rfl

/-- Something entered is put on the trail. -/
theorem OnPath.enter {trail : List Subject} {context context' : Context} {s : Subject}
    (h : OnPath trail context) (he : context.enter? s.element = some context') :
    OnPath (s :: trail) context' := by
  rw [OnPath, (Context.enter?_eq_some he).2.1, h]
  rfl

/-- What a subject needs is asked for on the same trail. -/
theorem OnPath.needs {r : Resolver} {trail : List Subject} {context : Context} {s : Subject}
    {q : Request} (h : OnPath trail context) (hn : q ∈ r.needs context s) :
    OnPath trail q.context := by
  rw [OnPath, path_of_mem_needs hn]
  exact h

/-- A request asked in the place of another is made on the same path. -/
theorem path_of_ask_mem_tasks {key : Key} {c : Context} {candidate : Candidate} {q' : Request}
    (h : .ask q' ∈ candidate.tasks key c) : q'.context.path = c.path := by
  cases candidate with
  | cached =>
    cases List.mem_singleton.1 h
    rfl
  | lazy =>
    cases List.mem_singleton.1 h
    rfl
  | container =>
    obtain ⟨p, _, hp⟩ := List.mem_map.1 h
    cases hp
  | provides => cases List.mem_singleton.1 h
  | construct => cases List.mem_singleton.1 h
  | function => cases List.mem_singleton.1 h
  | namedFunction => cases List.mem_singleton.1 h
  | arg => exact absurd h List.not_mem_nil

/-- What the task that resolution stops at comes to. -/
inductive StopsIn (r : Resolver) (trail : List Subject) (context : Context) :
    Task → List Subject → Subject → Prop where
  | here {s} (he : context.enter? s.element = none) : StopsIn r trail context (.enter s) trail s
  | inside {t context' met q' later stopped s} (he : context.enter? t.element = some context')
      (hn : r.needs context' t = met ++ q' :: later)
      (hm : ∀ p ∈ met, ∃ plan, r.answer p = .ok plan) (hp : OnPath (t :: trail) q'.context)
      (hq : q' ∈ r.needs context' t) (hs : StopsAt r (t :: trail) q' stopped s) :
      StopsIn r trail context (.enter t) stopped s
  | onward {q' stopped s} (hp : OnPath trail q'.context) (hs : StopsAt r trail q' stopped s) :
      StopsIn r trail context (.ask q') stopped s

section Component

variable {m : Model} {o : Options} {c : Classifier} {trail stopped : List Subject} {q : Request}
  {s : Subject}

/-- Where resolution stops, it fails with a cycle that shows the subjects being resolved. -/
theorem StopsAt.answer (hc : c ∈ m.classifiers)
    (h : (Component.resolver m o c).StopsAt trail q stopped s) (hp : OnPath trail q.context) :
    (Component.resolver m o c).answer q
      = .error (.cycle (stopped.map fun t => t.element.trace) s.element) := by
  induction h with
  | here hcand ht hd he =>
    rw [answer_eq_step hc, step_eq_error_iff]
    refine .inr (.inr ⟨_, _, _, _, hcand, ht, hd, ?_⟩)
    rw [← hp.trace]
    exact visit_eq_error_iff.2 (.inl ⟨he, rfl⟩)
  | @inside trail q candidate done t rest context met q' later stopped s hcand ht hd he hn hm hs
      ih =>
    have hmem : q' ∈ (Component.resolver m o c).needs context t := mem_of_split hn
    rw [answer_eq_step hc, step_eq_error_iff]
    refine .inr (.inr ⟨_, _, _, _, hcand, ht, hd, ?_⟩)
    exact visit_eq_error_iff.2
      (.inr ⟨context, met, q', later, he, hn, hm, ih ((hp.enter he).needs hmem)⟩)
  | @onward trail q candidate done q' rest stopped s hcand ht hd hs ih =>
    have hmem : .ask q' ∈ candidate.tasks q.key q.context := mem_of_split ht
    rw [answer_eq_step hc, step_eq_error_iff]
    refine .inr (.inr ⟨_, _, _, _, hcand, ht, hd, ih ?_⟩)
    rw [OnPath, path_of_ask_mem_tasks hmem]
    exact hp

/-- Resolution that fails with a cycle stops somewhere. -/
theorem stopsAt_of_cycle (hc : c ∈ m.classifiers) {trace : List String} {e : Element}
    (h : (Component.resolver m o c).answer q = .error (.cycle trace e))
    (hp : OnPath trail q.context) :
    ∃ stopped s, (Component.resolver m o c).StopsAt trail q stopped s ∧
      trace = (stopped.map fun t => t.element.trace) ∧ e = s.element := by
  induction acc_asks (o := o) hc q generalizing trail with
  | intro q _ ih =>
    rw [answer_eq_step hc, step_eq_error_iff] at h
    rcases h with hcand | ⟨_, he⟩ | ⟨candidate, done, t, rest, hcand, ht, hd, ht'⟩
    · obtain ⟨_, he, _⟩ := missing_of_candidate hcand
      cases he
    · cases he
    · have hmem : t ∈ candidate.tasks q.key q.context := mem_of_split ht
      cases t with
      | ask q' =>
        have hp' : OnPath trail q'.context := by
          rw [OnPath, path_of_ask_mem_tasks hmem]
          exact hp
        obtain ⟨stopped, s, hs, htrace, he⟩ := ih q' ⟨none, .onward hcand hmem⟩ ht' hp'
        exact ⟨stopped, s, .onward hcand ht hd hs, htrace, he⟩
      | enter s =>
        rcases visit_eq_error_iff.1 ht' with ⟨he, hf⟩ | ⟨context, met, q', later, he, hn, hm, hq⟩
        · cases hf
          exact ⟨trail, s, .here hcand ht hd he, hp.trace, rfl⟩
        · have hneed : q' ∈ (Component.resolver m o c).needs context s := mem_of_split hn
          obtain ⟨stopped, s', hs, htrace, he'⟩ := ih q' ⟨some s, .inside hcand hmem he hneed⟩ hq
            ((hp.enter he).needs hneed)
          exact ⟨stopped, s', .inside hcand ht hd he hn hm hs, htrace, he'⟩

/-- A request stops in the first of its tasks that fails. -/
theorem StopsAt.first_task (hc : c ∈ m.classifiers)
    (h : (Component.resolver m o c).StopsAt trail q stopped s) (hp : OnPath trail q.context) :
    ∃ candidate done t rest,
      (Component.resolver m o c).candidate q.key q.context q.fromEnd = .ok (some candidate) ∧
      candidate.tasks q.key q.context = done ++ t :: rest ∧
      (∀ u ∈ done, ∃ plan, (Component.resolver m o c).perform
        (Component.resolver m o c).answer q.context u = .ok plan) ∧
      (¬ ∃ plan, (Component.resolver m o c).perform
        (Component.resolver m o c).answer q.context t = .ok plan) ∧
      (Component.resolver m o c).StopsIn trail q.context t stopped s := by
  cases h with
  | @here _ _ candidate done _ rest hcand ht hd he =>
    refine ⟨candidate, done, _, rest, hcand, ht, hd, ?_, .here he⟩
    rintro ⟨plan, hplan⟩
    obtain ⟨context, _, henter, _⟩ := visit_eq_ok_iff.1 hplan
    rw [he] at henter
    cases henter
  | @inside _ _ candidate done t rest context met q' later _ _ hcand ht hd he hn hm hs =>
    have hmem : q' ∈ (Component.resolver m o c).needs context t := mem_of_split hn
    have hpath := (hp.enter he).needs hmem
    refine ⟨candidate, done, _, rest, hcand, ht, hd, ?_, .inside he hn hm hpath hmem hs⟩
    rintro ⟨plan, hplan⟩
    have herror := visit_eq_error_iff.2
      (.inr ⟨context, met, q', later, he, hn, hm, hs.answer hc hpath⟩)
    rw [perform, herror] at hplan
    cases hplan
  | @onward _ _ candidate done q' rest _ _ hcand ht hd hs =>
    have hmem : .ask q' ∈ candidate.tasks q.key q.context := mem_of_split ht
    have hpath : OnPath trail q'.context := by
      rw [OnPath, path_of_ask_mem_tasks hmem]
      exact hp
    refine ⟨candidate, done, _, rest, hcand, ht, hd, ?_, .onward hpath hs⟩
    rintro ⟨plan, hplan⟩
    rw [perform, hs.answer hc hpath] at hplan
    cases hplan

/-- Resolution stops in one place. -/
theorem StopsAt.unique (hc : c ∈ m.classifiers) {stopped' : List Subject} {s' : Subject}
    (h : (Component.resolver m o c).StopsAt trail q stopped s)
    (h' : (Component.resolver m o c).StopsAt trail q stopped' s') (hp : OnPath trail q.context) :
    stopped = stopped' ∧ s = s' := by
  induction acc_asks (o := o) hc q generalizing trail with
  | intro q _ ih =>
    obtain ⟨candidate, done, t, rest, hcand, ht, hd, hn, hs⟩ := h.first_task hc hp
    obtain ⟨candidate', done', t', rest', hcand', ht', hd', hn', hs'⟩ := h'.first_task hc hp
    rw [hcand] at hcand'
    cases hcand'
    obtain ⟨_, rfl, _⟩ := split_unique ht ht' hd hd' hn hn'
    have hmem : t ∈ candidate.tasks q.key q.context := mem_of_split ht
    cases hs with
    | here he =>
      cases hs' with
      | here => exact ⟨rfl, rfl⟩
      | inside he' =>
        rw [he] at he'
        cases he'
    | onward hpath hs =>
      cases hs' with
      | onward _ hs' => exact ih _ ⟨none, .onward hcand hmem⟩ hs hs' hpath
    | @inside t context met q' later _ _ he hneeds hm hpath hq hs =>
      cases hs' with
      | here he' =>
        rw [he] at he'
        cases he'
      | @inside _ context' met' q'' later' _ _ he' hneeds' hm' hpath' _ hs' =>
        rw [he] at he'
        cases he'
        have hfail : ∀ {p stopped s}, (Component.resolver m o c).StopsAt (t :: trail) p stopped s →
            OnPath (t :: trail) p.context →
            ¬ ∃ plan, (Component.resolver m o c).answer p = .ok plan := by
          rintro p stopped s hstops hon ⟨plan, hplan⟩
          rw [hstops.answer hc hon] at hplan
          cases hplan
        obtain ⟨_, rfl, _⟩ := split_unique hneeds hneeds' hm hm' (hfail hs hpath)
          (hfail hs' hpath')
        exact ih q' ⟨some t, .inside hcand hmem he hq⟩ hs hs' hpath

end Component

end Resolver

end Wiring
