import Wiring.Proofs.Catalogue.Outline
import Wiring.Proofs.Resolve.Task

/-!
# Resolution in outline

Two resolvers whose catalogues have one outline, over programs that agree in the few things that
resolution looks up in a program, go through the same steps: they answer every request with the same
plan or the same failure, up to the text of elements and the signatures of the members that are
called.
-/

namespace Wiring

namespace Plan

mutual

/-- A plan up to the text of elements: what is called stays known by the place of its
declaration. -/
def shape : Plan → Plan
  | call a f as => call a f.shape (shapeList as)
  | extensionCall a f r as => extensionCall a f.shape (shape r) (shapeList as)
  | cached a o k p => cached a o.outline k (shape p)
  | construct c as => construct c (shapeList as)
  | container b as => container b (shapeList as)
  | function ps p => function ps (shape p)
  | namedFunction f ps as => namedFunction f.shape ps (shapeList as)
  | arg n => arg n
  | lazy p => lazy (shape p)

/-- Plans in a list up to the text of elements. -/
def shapeList : List Plan → List Plan
  | [] => []
  | p :: ps => shape p :: shapeList ps

end

/-- Plans one after the other have their shapes one by one. -/
@[simp] theorem shapeList_eq_map (ps : List Plan) : shapeList ps = ps.map shape := by
  induction ps with
  | nil => rfl
  | cons p ps ih => rw [shapeList, ih, List.map_cons]

/-- The first plans of lists of one shape have one shape. -/
theorem headD_of_shape {plans plans' : List Plan} (h : plans.map shape = plans'.map shape) :
    (plans.headD default).shape = (plans'.headD default).shape := by
  cases plans with
  | nil =>
    cases plans' with
    | nil => rfl
    | cons p' plans' => cases h
  | cons p plans =>
    cases plans' with
    | nil => cases h
    | cons p' plans' => exact (List.cons.inj h).1

end Plan

/-- A failure up to the text of elements. -/
def Failure.shape : Failure → Failure
  | invalidComponent message e => .invalidComponent message e.shape
  | noBinding key trace e => .noBinding key (trace.map fun _ => "") e.shape
  | cycle trace e => .cycle (trace.map fun _ => "") e.shape
  | unresolvableScope type scope trace e =>
    .unresolvableScope type scope (trace.map fun _ => "") e.shape
  | lazyCycle trace e => .lazyCycle (trace.map fun _ => "") e.shape

section Outcomes

variable {α β γ δ : Type}

/-- An outcome up to the text of elements, its value seen through `g`. -/
def outcome (g : α → β) : Except Failure α → Except Failure β
  | .ok a => .ok (g a)
  | .error e => .error e.shape

/-- Outcomes look alike when both are failures that do or both are values that do. -/
theorem outcome_cases {k : α → γ} {x x' : Except Failure α} (h : outcome k x = outcome k x') :
    (∃ e e', x = .error e ∧ x' = .error e' ∧ e.shape = e'.shape)
      ∨ ∃ a a', x = .ok a ∧ x' = .ok a' ∧ k a = k a' := by
  cases x with
  | error e =>
    cases x' with
    | error e' => exact .inl ⟨e, e', rfl, rfl, Except.error.inj h⟩
    | ok a' => cases h
  | ok a =>
    cases x' with
    | error e' => cases h
    | ok a' => exact .inr ⟨a, a', rfl, rfl, Except.ok.inj h⟩

/-- Outcomes that agree still do when something is computed from them. -/
theorem outcome_map {k : α → γ} {h : β → δ} {x x' : Except Failure α} {g g' : α → β}
    (hx : outcome k x = outcome k x') (hg : ∀ a a', k a = k a' → h (g a) = h (g' a')) :
    outcome h (do let a ← x; return g a) = outcome h (do let a ← x'; return g' a) := by
  rcases outcome_cases hx with ⟨e, e', rfl, rfl, he⟩ | ⟨a, a', rfl, rfl, ha⟩
  · exact congrArg Except.error he
  · exact congrArg Except.ok (hg a a' ha)

/-- Traversals of lists whose elements look alike one by one have outcomes that look alike. -/
theorem outcome_mapM (k k' : α → γ) {h : β → δ} {f f' : α → Except Failure β}
    (hf : ∀ a a', k a = k' a' → outcome h (f a) = outcome h (f' a')) :
    ∀ {l l' : List α}, l.map k = l'.map k' →
      outcome (List.map h) (l.mapM f) = outcome (List.map h) (l'.mapM f') := by
  intro l
  induction l with
  | nil =>
    intro l' hl
    rw [List.map_nil, eq_comm, List.map_eq_nil_iff] at hl
    rw [hl, List.mapM_nil, List.mapM_nil]
  | cons a l ih =>
    intro l' hl
    cases l' with
    | nil => cases hl
    | cons a' l' =>
      obtain ⟨ha, hrest⟩ := List.cons.inj hl
      rw [List.mapM_cons, List.mapM_cons]
      rcases outcome_cases (hf a a' ha) with ⟨e, e', hfa, hfa', he⟩ | ⟨b, b', hfa, hfa', hb⟩
      · rw [hfa, hfa']
        exact congrArg Except.error he
      · rw [hfa, hfa']
        refine outcome_map (ih hrest) fun bs bs' hbs => ?_
        rw [List.map_cons, List.map_cons, hb, hbs]

end Outcomes

/-- A context with the elements on its path in outline. -/
def Context.outline (c : Context) : Context :=
  { c with path := ⟨c.path.elements.map (·.outline)⟩, source := c.source.outline }

/-- A request with its context in outline. -/
def Request.outline (q : Request) : Request := { q with context := q.context.outline }

/-- A candidate in outline. -/
def Candidate.outline : Candidate → Candidate
  | provides p => .provides p.outline
  | cached owner => .cached owner.outline
  | construct k => .construct k
  | container builder parts => .container builder (parts.map (·.outline))
  | function e types result => .function e types result
  | namedFunction f types => .namedFunction f types
  | arg name => .arg name
  | lazy inner => .lazy inner

/-- A subject in outline. -/
def Subject.outline : Subject → Subject
  | member p => .member p.outline
  | constructor k => .constructor k
  | lambda type types result => .lambda type types result
  | function f types => .function f types

/-- A task in outline. -/
def Task.outline : Task → Task
  | ask q => .ask q.outline
  | enter s => .enter s.outline

namespace Context

variable {c c' : Context} {e e' : Element}

/-- Contexts of one outline have traces of one length. -/
theorem trace_of_outline (h : c.outline = c'.outline) :
    (c.path.trace.map fun _ => "") = c'.path.trace.map fun _ => "" := by
  have htrace : ∀ c : Context, (c.path.trace.map fun _ => "") = c.outline.path.trace := by
    intro c
    rw [ResolutionPath.trace, ResolutionPath.trace, outline, List.map_map, List.map_map]
    rfl
  rw [htrace, htrace, h]

/-- Contexts of one outline have sources of one shape. -/
theorem source_of_outline (h : c.outline = c'.outline) : c.source.shape = c'.source.shape :=
  congrArg (fun c => c.source.shape) h

/-- An element is entered in outline as it is in full. -/
theorem enter?_outline (c : Context) (e : Element) :
    c.outline.enter? e.outline = (c.enter? e).map (·.outline) := by
  have hcontains : c.outline.path.contains e.outline = c.path.contains e := by
    rw [ResolutionPath.contains, outline, List.any_map]
    rfl
  rw [enter?, enter?, ResolutionPath.enter?, ResolutionPath.enter?, hcontains]
  split <;> rfl

/-- The outline of a context may be taken before a component is gone into or after. -/
theorem withParentScope_outline (c : Context) (accessor : Option String) :
    c.outline.withParentScope accessor = (c.withParentScope accessor).outline := by
  obtain ⟨path, source, args, skipScoped, skipProvider, parentScope⟩ := c
  cases accessor with
  | none => rfl
  | some name => cases parentScope <;> rfl

end Context

namespace Subject

/-- Subjects of one outline have elements of one outline. -/
theorem element_of_outline {s s' : Subject} (h : s.outline = s'.outline) :
    s.element.outline = s'.element.outline := by
  have helement : ∀ s : Subject, s.element.outline = s.outline.element.outline := by
    intro s
    cases s <;> rfl
  rw [helement s, h, ← helement s']

/-- Subjects that look alike have plans that look alike when what they need has. -/
theorem plan_of_outline {s s' : Subject} (h : s.outline = s'.outline) (parentScope : Option String)
    {plans plans' : List Plan} (hplans : plans.map Plan.shape = plans'.map Plan.shape) :
    (s.plan parentScope plans).shape = (s'.plan parentScope plans').shape := by
  have hhead := Plan.headD_of_shape hplans
  cases s with
  | member p =>
    cases s' with
    | member p' =>
      have hp := Subject.member.inj h
      have hcallable : p.callable.shape = p'.callable.shape :=
        (congrArg (fun p : Provider => p.callable.shape) hp :)
      have hreceiver : p.callable.receiver = p'.callable.receiver :=
        (congrArg (fun p : Provider => p.callable.receiver) hp :)
      have haccessor : p.accessor = p'.accessor := (congrArg Provider.accessor hp :)
      rw [plan, plan, hreceiver, haccessor]
      cases p'.callable.receiver with
      | none => simp only [Plan.shape, Plan.shapeList_eq_map, hcallable, hplans]
      | some t =>
        simp only [Plan.shape, Plan.shapeList_eq_map, hcallable, hhead, List.map_tail, hplans]
    | _ => cases h
  | constructor k =>
    cases s' with
    | constructor k' =>
      cases h
      simp only [plan, Plan.shape, Plan.shapeList_eq_map, hplans]
    | _ => cases h
  | lambda type types result =>
    cases s' with
    | lambda type' types' result' =>
      cases h
      simp only [plan, Plan.shape, hhead]
    | _ => cases h
  | function f types =>
    cases s' with
    | function f' types' =>
      cases h
      simp only [plan, Plan.shape, Plan.shapeList_eq_map, hplans]
    | _ => cases h

end Subject

namespace Candidate

/-- The tasks of an outline are the outlines of the tasks. -/
theorem tasks_outline (key : Key) (c : Context) (candidate : Candidate) :
    candidate.outline.tasks key c.outline = (candidate.tasks key c).map (·.outline) := by
  cases candidate with
  | container builder parts =>
    simp only [outline, tasks, List.map_map]
    rfl
  | _ => rfl

/-- Candidates that look alike have plans that look alike when their tasks have. -/
theorem plan_of_outline {candidate candidate' : Candidate}
    (h : candidate.outline = candidate'.outline) (key : Key) {plans plans' : List Plan}
    (hplans : plans.map Plan.shape = plans'.map Plan.shape) :
    (candidate.plan key plans).shape = (candidate'.plan key plans').shape := by
  have hhead := Plan.headD_of_shape hplans
  cases candidate with
  | cached owner =>
    cases candidate' with
    | cached owner' =>
      have ho := Candidate.cached.inj h
      have haccessor : owner.accessor = owner'.accessor := (congrArg ScopeOwner.accessor ho :)
      have hcomponent : owner.component.outline = owner'.component.outline :=
        (congrArg ScopeOwner.component ho :)
      simp only [plan, Plan.shape, haccessor, hcomponent, hhead]
    | _ => cases h
  | container builder parts =>
    cases candidate' with
    | container builder' parts' =>
      obtain ⟨rfl, _⟩ := Candidate.container.inj h
      simp only [plan, Plan.shape, Plan.shapeList_eq_map, hplans]
    | _ => cases h
  | arg name =>
    cases candidate' with
    | arg name' =>
      cases h
      rfl
    | _ => cases h
  | lazy inner =>
    cases candidate' with
    | lazy inner' => simp only [plan, Plan.shape, hhead]
    | _ => cases h
  -- The other candidates set one task, whose plan is theirs.
  | provides p =>
    cases candidate' with
    | provides p' => exact hhead
    | _ => cases h
  | construct k =>
    cases candidate' with
    | construct k' => exact hhead
    | _ => cases h
  | function e types result =>
    cases candidate' with
    | function e' types' result' => exact hhead
    | _ => cases h
  | namedFunction f types =>
    cases candidate' with
    | namedFunction f' types' => exact hhead
    | _ => cases h

end Candidate

namespace Resolver

section Requests

variable (r : Resolver) (c : Context)

/-- The requests for parameters in an outline are the outlines of the requests. -/
theorem paramRequests_outline (ps : List Param) :
    r.paramRequests c.outline ps = (r.paramRequests c ps).map (·.outline) := by
  induction ps with
  | nil => rfl
  | cons p ps ih =>
    rw [paramRequests, ih]
    rfl

/-- A subject needs in outline what it needs in full. -/
theorem needs_outline (s : Subject) :
    r.needs c.outline s.outline = (r.needs c s).map (·.outline) := by
  cases s with
  | member p =>
    have hreceiver : p.outline.callable.receiver = p.callable.receiver := rfl
    rw [Subject.outline, needs, needs, hreceiver]
    cases p.callable.receiver with
    | none => exact paramRequests_outline r c p.callable.params
    | some t =>
      dsimp only
      have hscope : c.outline.withParentScope
            (p.outline.accessor.map (relativeAccessor c.outline.parentScope))
          = (c.withParentScope (p.accessor.map (relativeAccessor c.parentScope))).outline :=
        Context.withParentScope_outline c _
      rw [hscope, List.map_cons]
      exact congrArg (List.cons _) (paramRequests_outline r _ p.callable.params)
  | constructor k => exact paramRequests_outline r c k.params
  | lambda type types result => rfl
  | function f types => exact paramRequests_outline r (c.withArgs (.ofTypes types)) f.params

end Requests

/-- Two resolvers that resolution cannot tell apart: their catalogues have one outline, and their
programs agree on constructors, functions and assignable types. -/
structure Alike (r r' : Resolver) : Prop where
  options : r'.options = r.options
  catalogue : r'.catalogue.outline = r.catalogue.outline
  constructs : ∀ (c : Catalogue) (t : TypeExpr),
    c.constructorBinding r'.model r'.options t = c.constructorBinding r.model r.options t
  functions : ∀ package name,
    r'.model.functionsNamed package name = r.model.functionsNamed package name
  assignable : ∀ target source,
    r'.model.isAssignable target source = r.model.isAssignable target source

namespace Alike

variable {r r' : Resolver} {c c' : Context} {s s' : Subject}

/-- Resolvers that are alike find the same by the form of a type. -/
theorem intrinsic_eq (h : r.Alike r') (key : Key) : r'.intrinsic key = r.intrinsic key := by
  have hnamed : ∀ t, r'.namedFunction? t = r.namedFunction? t := by
    intro t
    rw [namedFunction?, namedFunction?, h.functions]
  rw [intrinsic, intrinsic]
  simp only [hnamed]

/-- Resolvers that are alike look up bindings of one outline. -/
theorem resolve_outline (h : r.Alike r') (key : Key) (skipOwn : Bool) :
    (r.catalogue.resolve r.model r.options key skipOwn).map (Option.map (·.outline))
      = (r'.catalogue.resolve r'.model r'.options key skipOwn).map (Option.map (·.outline)) := by
  rw [← Catalogue.resolve_outline, ← Catalogue.resolve_outline, h.catalogue, Catalogue.resolve,
    Catalogue.resolve, h.constructs]

/-- The outline of a binding makes the outline of its candidate. -/
theorem ofBinding_outline (key : Key) (c : Context) (b : Binding) :
    ofBinding key c.outline b.outline = (ofBinding key c b).outline := by
  have hskip : c.outline.skipScoped = c.skipScoped := rfl
  simp only [ofBinding, hskip]
  cases b with
  | constructor k scope => cases scope <;> cases c.skipScoped == some key.type <;> rfl
  | provider p =>
    obtain ⟨f, accessor, scope⟩ := p
    cases scope <;> cases c.skipScoped == some key.type <;> rfl
  | container k =>
    obtain ⟨builder, parts, scope⟩ := k
    cases scope <;> cases c.skipScoped == some key.type <;> rfl

/-- Both resolvers find candidates that look alike. -/
theorem find (h : r.Alike r') (key : Key) (hc : c.outline = c'.outline) :
    outcome (Option.map (·.outline)) (r.find key c)
      = outcome (Option.map (·.outline)) (r'.find key c') := by
  have hresolve := h.resolve_outline key (c.skipProvider == some key.type)
  have hskip : c'.skipProvider = c.skipProvider := (congrArg Context.skipProvider hc.symm :)
  rw [Resolver.find, Resolver.find, hskip]
  cases hr : r.catalogue.resolve r.model r.options key (c.skipProvider == some key.type) with
  | error e =>
    cases hr' : r'.catalogue.resolve r'.model r'.options key
        (c.skipProvider == some key.type) with
    | error e' =>
      rw [hr, hr'] at hresolve
      cases hresolve
      simp only [outcome, Failure.shape, Context.trace_of_outline hc,
        Context.source_of_outline hc]
    | ok b' =>
      rw [hr, hr'] at hresolve
      cases hresolve
  | ok b =>
    cases hr' : r'.catalogue.resolve r'.model r'.options key
        (c.skipProvider == some key.type) with
    | error e' =>
      rw [hr, hr'] at hresolve
      cases hresolve
    | ok b' =>
      rw [hr, hr'] at hresolve
      have hb := Except.ok.inj hresolve
      cases b with
      | none =>
        cases b' with
        | none =>
          dsimp only
          rw [h.intrinsic_eq]
        | some b' => cases hb
      | some b =>
        cases b' with
        | none => cases hb
        | some b' =>
          simp only [outcome, Option.map_some, ← ofBinding_outline, hc, Option.some.inj hb]

/-- Resolvers that are alike have candidates of one outline. -/
theorem candidate (h : r.Alike r') (key : Key) (hc : c.outline = c'.outline)
    (fromEnd : Option Nat) :
    outcome (Option.map (·.outline)) (r.candidate key c fromEnd)
      = outcome (Option.map (·.outline)) (r'.candidate key c' fromEnd) := by
  have hargs : c'.args = c.args := (congrArg Context.args hc.symm :)
  have harg : r'.argAt? key c' = r.argAt? key c := by
    funext place
    rw [argAt?, argAt?, hargs]
    simp only [h.assignable]
  rw [Resolver.candidate, Resolver.candidate, harg]
  cases fromEnd.bind (r.argAt? key c) with
  | some name => rfl
  | none => exact h.find key hc

/-- Subjects of one outline need the same, up to outlines. -/
theorem needs (h : r.Alike r') (hc : c.outline = c'.outline) (hs : s.outline = s'.outline) :
    (r.needs c s).map (·.outline) = (r'.needs c' s').map (·.outline) := by
  have hparams : ∀ (c : Context) (ps : List Param),
      r'.paramRequests c ps = r.paramRequests c ps := by
    intro c ps
    induction ps with
    | nil => rfl
    | cons p ps ih => rw [paramRequests, paramRequests, ih, paramKey, paramKey, h.options]
  have hneeds : ∀ (c : Context) (s : Subject), r'.needs c s = r.needs c s := by
    intro c s
    cases s <;> simp only [Resolver.needs, hparams, h.options]
  rw [← needs_outline, ← needs_outline, hc, hs, hneeds]

section Steps

variable {answer answer' : Request → Except Failure Plan}

/-- Visits of subjects that look alike, over answers that look alike, look alike. -/
theorem visit (h : r.Alike r') (hanswer : ∀ q q', q.outline = q'.outline →
      outcome Plan.shape (answer q) = outcome Plan.shape (answer' q'))
    (hc : c.outline = c'.outline) (hs : s.outline = s'.outline) :
    outcome Plan.shape (r.visit answer c s) = outcome Plan.shape (r'.visit answer' c' s') := by
  have helement := Subject.element_of_outline hs
  have henter : (c.enter? s.element).map (·.outline) = (c'.enter? s'.element).map (·.outline) := by
    rw [← Context.enter?_outline, ← Context.enter?_outline, hc, helement]
  rw [Resolver.visit, Resolver.visit, Context.entering_eq, Context.entering_eq]
  cases he : c.enter? s.element with
  | none =>
    cases he' : c'.enter? s'.element with
    | none =>
      have hshape : s.element.shape = s'.element.shape :=
        (congrArg Element.shape helement :)
      simp only [outcome, Failure.shape, Context.trace_of_outline hc, hshape]
    | some inner' =>
      rw [he, he'] at henter
      cases henter
  | some inner =>
    cases he' : c'.enter? s'.element with
    | none =>
      rw [he, he'] at henter
      cases henter
    | some inner' =>
      rw [he, he'] at henter
      have hinner := Option.some.inj henter
      have hscope : inner.parentScope = inner'.parentScope :=
        (congrArg Context.parentScope hinner :)
      refine outcome_map (outcome_mapM _ _ hanswer (h.needs hinner hs))
        fun plans plans' hplans => ?_
      rw [hscope]
      exact Subject.plan_of_outline hs _ hplans

/-- Tasks of one outline give plans of one shape, if requests do. -/
theorem perform (h : r.Alike r') (hanswer : ∀ q q', q.outline = q'.outline →
      outcome Plan.shape (answer q) = outcome Plan.shape (answer' q'))
    (hc : c.outline = c'.outline) {t t' : Task} (ht : t.outline = t'.outline) :
    outcome Plan.shape (r.perform answer c t) = outcome Plan.shape (r'.perform answer' c' t') := by
  cases t with
  | ask q =>
    cases t' with
    | ask q' => exact hanswer q q' (Task.ask.inj ht)
    | enter s' => cases ht
  | enter s =>
    cases t' with
    | ask q' => cases ht
    | enter s' => exact h.visit hanswer hc (Task.enter.inj ht)

/-- Steps for requests that look alike, over answers that look alike, look alike. -/
theorem step (h : r.Alike r') (hanswer : ∀ q q', q.outline = q'.outline →
      outcome Plan.shape (answer q) = outcome Plan.shape (answer' q'))
    {q q' : Request} (hq : q.outline = q'.outline) :
    outcome Plan.shape (r.step answer q) = outcome Plan.shape (r'.step answer' q') := by
  have hc : q.context.outline = q'.context.outline := (congrArg Request.context hq :)
  have hkey : q.key = q'.key := (congrArg Request.key hq :)
  have hplace : q.fromEnd = q'.fromEnd := (congrArg Request.fromEnd hq :)
  rcases outcome_cases (h.candidate q'.key hc q'.fromEnd) with
    ⟨e, e', hf, hf', he⟩ | ⟨found, found', hf, hf', hfound⟩
  · rw [Resolver.step, Resolver.step, hkey, hplace, hf, hf']
    exact congrArg Except.error he
  · cases found with
    | none =>
      cases found' with
      | none =>
        rw [Resolver.step, Resolver.step, hkey, hplace, hf, hf']
        refine congrArg Except.error ?_
        simp only [Failure.shape, Context.trace_of_outline hc, Context.source_of_outline hc]
      | some candidate' => cases hfound
    | some candidate =>
      cases found' with
      | none => cases hfound
      | some candidate' =>
        have hcandidate : candidate.outline = candidate'.outline := Option.some.inj hfound
        rw [← hkey, ← hplace] at hf
        rw [step_eq hf, step_eq hf', hkey]
        refine outcome_map (outcome_mapM _ _ (fun t t' ht => h.perform hanswer hc ht) ?_)
          fun plans plans' hplans => Candidate.plan_of_outline hcandidate q'.key hplans
        rw [← Candidate.tasks_outline, ← Candidate.tasks_outline, hcandidate, hc]

end Steps

/-- Up to any depth, requests that look alike have outcomes that look alike. -/
theorem provideWithin (h : r.Alike r') : ∀ (depth : Nat) (q q' : Request),
    q.outline = q'.outline → outcome Plan.shape (r.provideWithin depth q)
      = outcome Plan.shape (r'.provideWithin depth q') := by
  intro depth
  induction depth with
  | zero =>
    intro q q' hq
    have hc : q.context.outline = q'.context.outline := (congrArg Request.context hq :)
    simp only [Resolver.provideWithin, outcome, Failure.shape, Context.trace_of_outline hc,
      Context.source_of_outline hc]
  | succ depth ih =>
    intro q q' hq
    exact h.step ih hq

end Alike

end Resolver

end Wiring
