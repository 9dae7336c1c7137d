import Wiring.Plan.Text
import Wiring.Proofs.Resolve.Asks
import Wiring.Proofs.Sketch

/-!
# Plans and paths

What the path that led to a request has to do with its plan. Resolution looks at the path when it
enters an element, which must not be on it, and when it shows where a failure happened. So a plan
that is found on one path is found on every other path too, unless an element that it enters is on
the other path and not on the first, which ends resolution in a cycle. Paths decide whether there
is a plan and never which one.
-/

namespace Wiring

/-- The context at another place of resolution. -/
def Context.moved (c : Context) (path : ResolutionPath) (source : Element) : Context :=
  { c with path, source }

/-- The request at another place of resolution. -/
def Request.moved (q : Request) (path : ResolutionPath) (source : Element) : Request :=
  { q with context := q.context.moved path source }

/-- The task at another place of resolution. -/
def Task.moved (path : ResolutionPath) (source : Element) : Task → Task
  | ask q => .ask (q.moved path source)
  | enter s => .enter s

/-- What the outcome on the path `p'` may be when the one on the path `p` is the value `a`: the same
value, or a cycle at an element that is on `p'` and not on `p`. -/
inductive Follows {α : Type} (p p' : ResolutionPath) (a : α) : Except Failure α → Prop where
  | same : Follows p p' a (.ok a)
  | blocked {trace} {e : Element} (hp' : e.id ∈ p'.elements.map (·.id))
      (hp : e.id ∉ p.elements.map (·.id)) : Follows p p' a (.error (.cycle trace e))

namespace Follows

variable {α β : Type} {p p' : ResolutionPath} {a : α} {x : Except Failure α}

/-- What is computed from an outcome follows as the outcome does. -/
theorem map (h : Follows p p' a x) (g : α → β) :
    Follows p p' (g a) (do let a ← x; return g a) := by
  cases h with
  | same => exact .same
  | blocked hp' hp => exact .blocked hp' hp

/-- A traversal follows when each of its elements does, since it stops at the first that fails. -/
theorem mapM {f f' : α → Except Failure β} {g : α → α} {l : List α} {bs : List β}
    (h : ∀ a ∈ l, ∀ b, f a = .ok b → Follows p p' b (f' (g a))) (hl : l.mapM f = .ok bs) :
    Follows p p' bs ((l.map g).mapM f') := by
  induction mapM_eq_ok_iff.1 hl with
  | nil => exact .same
  | @cons a b l bs ha hrest ih =>
    have htail := ih (fun a' ha' => h a' (List.mem_cons_of_mem _ ha')) (mapM_eq_ok_iff.2 hrest)
    have hfirst := h a (List.mem_cons_self ..) b ha
    rw [List.map_cons, List.mapM_cons]
    generalize f' (g a) = x at hfirst ⊢
    cases hfirst with
    | same => exact htail.map (b :: ·)
    | blocked hp' hp => exact .blocked hp' hp

/-- An element that has been entered on both paths is no reason for a cycle on one of them only. -/
theorem of_entered {e : Element} (h : Follows ⟨e :: p.elements⟩ ⟨e :: p'.elements⟩ a x) :
    Follows p p' a x := by
  cases h with
  | same => exact .same
  | blocked hp' hp =>
    rw [List.map_cons, List.mem_cons, not_or] at hp
    exact .blocked ((List.mem_cons.1 hp').resolve_left hp.1) hp.2

end Follows

section Moved

variable (path : ResolutionPath) (source : Element)

/-- A context may be moved before a component is gone into or after. -/
theorem Context.withParentScope_moved (c : Context) (accessor : Option String) :
    (c.moved path source).withParentScope accessor
      = (c.withParentScope accessor).moved path source := by
  obtain ⟨_, _, args, skipScoped, skipProvider, parentScope⟩ := c
  cases accessor with
  | none => rfl
  | some name => cases parentScope <;> rfl

/-- The tasks in a context that is moved are the tasks, moved. -/
theorem Candidate.tasks_moved (key : Key) (c : Context) (candidate : Candidate) :
    candidate.tasks key (c.moved path source)
      = (candidate.tasks key c).map (Task.moved path source) := by
  cases candidate with
  | container builder parts =>
    rw [tasks, tasks, List.map_map]
    rfl
  | _ => rfl

namespace Resolver

variable (r : Resolver)

/-- The requests for parameters in a context that is moved are the requests, moved. -/
theorem paramRequests_moved (c : Context) (ps : List Param) :
    r.paramRequests (c.moved path source) ps
      = (r.paramRequests c ps).map (·.moved path source) := by
  induction ps with
  | nil => rfl
  | cons p ps ih =>
    rw [paramRequests, ih]
    rfl

/-- What a subject needs in a context that is moved is what it needs, moved. -/
theorem needs_moved (c : Context) (s : Subject) :
    r.needs (c.moved path source) s = (r.needs c s).map (·.moved path source) := by
  cases s with
  | member p =>
    rw [needs, needs]
    cases p.callable.receiver with
    | none => exact r.paramRequests_moved path source c p.callable.params
    | some type =>
      have hscope : (c.moved path source).parentScope = c.parentScope := rfl
      dsimp only
      rw [hscope, Context.withParentScope_moved, paramRequests_moved]
      rfl
  | constructor k => exact r.paramRequests_moved path source c k.params
  | lambda type types result => rfl
  | function f types =>
    exact r.paramRequests_moved path source (c.withArgs (.ofTypes types)) f.params

/-- The candidate that is found for a key does not depend on the path. -/
theorem candidate_moved {key : Key} {c : Context} {fromEnd : Option Nat}
    {found : Option Candidate} (h : r.candidate key c fromEnd = .ok found) :
    r.candidate key (c.moved path source) fromEnd = .ok found := by
  have harg : r.argAt? key (c.moved path source) = r.argAt? key c := rfl
  have hskip : (c.moved path source).skipProvider = c.skipProvider := rfl
  rw [candidate] at h ⊢
  rw [harg]
  cases ha : fromEnd.bind (r.argAt? key c) with
  | some name =>
    rw [ha] at h
    exact h
  | none =>
    rw [ha] at h
    dsimp only at h ⊢
    rw [find] at h ⊢
    rw [hskip]
    cases hr : r.catalogue.resolve r.model r.options key (c.skipProvider == some key.type) with
    | error e =>
      rw [hr] at h
      cases h
    | ok b =>
      rw [hr] at h
      cases b with
      | none => exact h
      | some b => exact h

end Resolver

end Moved

namespace Resolver

variable {r : Resolver} {answer answer' : Request → Except Failure Plan} {c : Context}
  {path : ResolutionPath} {source : Element} {plan : Plan}

/-- A visit follows when what the subject needs does. -/
theorem follows_visit (hanswer : ∀ {q plan} (path source), answer q = .ok plan →
      Follows q.context.path path plan (answer' (q.moved path source)))
    {s : Subject} (h : r.visit answer c s = .ok plan) :
    Follows c.path path plan (r.visit answer' (c.moved path source) s) := by
  obtain ⟨inner, plans, he, hplans, rfl⟩ := visit_eq_ok_iff.1 h
  obtain ⟨hfresh, hpath, hinner⟩ := Context.enter?_eq_some he
  have hpath : inner.path = ⟨s.element :: c.path.elements⟩ := congrArg ResolutionPath.mk hpath
  rw [visit, Context.entering_eq]
  cases hp : (c.moved path source).enter? s.element with
  | none => exact .blocked (Context.enter?_eq_none_iff.1 hp) hfresh
  | some inner' =>
    obtain ⟨_, hpath', hinner'⟩ := Context.enter?_eq_some hp
    have hpath' : inner'.path = ⟨s.element :: path.elements⟩ := congrArg ResolutionPath.mk hpath'
    have hmoved : inner' = inner.moved inner'.path s.element := by
      rw [hinner', hinner]
      rfl
    have hneeds : Follows inner.path inner'.path plans ((r.needs inner' s).mapM answer') := by
      rw [hmoved, needs_moved]
      refine .mapM (fun q hq b hb => ?_) (mapM_eq_ok_iff.2 hplans)
      rw [← path_of_mem_needs hq]
      exact hanswer inner'.path s.element hb
    have hscope : inner'.parentScope = inner.parentScope := by rw [hmoved, Context.moved]
    rw [hpath, hpath'] at hneeds
    dsimp only
    rw [hscope]
    exact hneeds.of_entered.map fun plans => s.plan inner.parentScope plans

/-- A step follows when the answers to its requests do. -/
theorem follows_step (hanswer : ∀ {q plan} (path source), answer q = .ok plan →
      Follows q.context.path path plan (answer' (q.moved path source)))
    {q : Request} (h : r.step answer q = .ok plan) :
    Follows q.context.path path plan (r.step answer' (q.moved path source)) := by
  obtain ⟨candidate, plans, hc, hplans, rfl⟩ := step_eq_ok_iff.1 h
  have hmoved := r.candidate_moved path source hc
  rw [step_eq (q := q.moved path source) hmoved]
  have htasks : Follows q.context.path path plans
      ((candidate.tasks q.key (q.context.moved path source)).mapM
        (r.perform answer' (q.context.moved path source))) := by
    rw [Candidate.tasks_moved]
    refine .mapM (fun t ht plan hplan => ?_) (mapM_eq_ok_iff.2 hplans)
    cases t with
    | enter s => exact follows_visit hanswer hplan
    | ask q' =>
      have hpath : q'.context.path = q.context.path :=
        congrArg ResolutionPath.mk (Asks.onward hc ht).carries.1
      rw [← hpath]
      exact hanswer path source hplan
  exact htasks.map fun plans => candidate.plan q.key plans

/-- Resolution on another path follows, up to any bound on depth. -/
theorem follows_provideWithin (depth : Nat) {q : Request} {plan : Plan} (path : ResolutionPath)
    (source : Element) (h : r.provideWithin depth q = .ok plan) :
    Follows q.context.path path plan (r.provideWithin depth (q.moved path source)) := by
  induction depth generalizing q plan path source with
  | zero => cases h
  | succ depth ih => exact follows_step (fun path source => ih path source) h

/-- What is found for a key on other paths than the one on which `plan` is found, everything else
being the same: on a path with no other elements the same plan, on any path that or nothing, and
nothing only for a cycle at an element that is on that path and not on the first. -/
structure FoundAlike (r : Resolver) (key : Key) (c : Context) (plan : Plan) : Prop where
  contained : ∀ path source, path.elements.map (·.id) ⊆ c.path.elements.map (·.id) →
    r.provide key (c.moved path source) = .ok plan
  agrees : ∀ path source plan', r.provide key (c.moved path source) = .ok plan' → plan' = plan
  blocked : ∀ path source failure, r.provide key (c.moved path source) = .error failure →
    ∃ trace e, failure = .cycle trace e ∧ e.id ∈ path.elements.map (·.id) ∧
      e.id ∉ c.path.elements.map (·.id)

/-- A plan does not depend on the path that led to it. -/
theorem foundAlike_of_provide {key : Key} (h : r.provide key c = .ok plan) :
    FoundAlike r key c plan := by
  have hfollows : ∀ path source,
      Follows c.path path plan (r.provide key (c.moved path source)) := fun path source =>
    follows_provideWithin (r.depthBound key) (q := ⟨key, c, none⟩) path source h
  constructor
  case contained =>
    intro path source hall
    specialize hfollows path source
    generalize r.provide key (c.moved path source) = outcome at hfollows ⊢
    cases hfollows with
    | same => rfl
    | blocked hon hnot => exact absurd (hall hon) hnot
  case agrees =>
    intro path source plan' h'
    specialize hfollows path source
    rw [h'] at hfollows
    cases hfollows
    rfl
  case blocked =>
    intro path source failure h'
    specialize hfollows path source
    rw [h'] at hfollows
    cases hfollows with
    | blocked hon hnot => exact ⟨_, _, rfl, hon, hnot⟩

/-- A mill, whose bread is baked from flour. -/
def mill : ClassDecl :=
  Sketch.component "Mill" [] [] [Sketch.requirement "bread" (Sketch.type "Bread") []]

/-- The program of the mill. -/
def millProgram : Model :=
  Sketch.program [mill,
    Sketch.injectable "Bread" [] [Sketch.param "flour" (Sketch.type "Flour") []],
    Sketch.injectable "Flour" [] []]

/-- What is resolved in the mill. -/
def millResolver : Resolver := Component.resolver millProgram {} ⟨0, mill, false⟩

/-- Where the mill itself has been entered. -/
def millContext : Context :=
  { path := ⟨[Classifier.element ⟨0, mill, false⟩]⟩, source := Classifier.element ⟨0, mill, false⟩ }

/-- Where the flour is being made already, a cycle is all that is found. -/
theorem foundAlike_mill : ∃ plan flour trace,
    millResolver.provide ⟨Sketch.type "Bread", none⟩ millContext = .ok plan ∧
      plan.displayText = "Constructor(app.Bread, Constructor(app.Flour))" ∧
      flour.id = ⟨.constructor, "app.Flour.<init>"⟩ ∧
      millResolver.provide ⟨Sketch.type "Bread", none⟩ (millContext.moved ⟨[flour]⟩ flour)
        = .error (.cycle trace flour) ∧
      FoundAlike millResolver ⟨Sketch.type "Bread", none⟩ millContext plan := by
  obtain ⟨plan, flour, trace, hplan, htext, hid, hcycle⟩ : ∃ plan flour trace,
      millResolver.provide ⟨Sketch.type "Bread", none⟩ millContext = .ok plan ∧
        plan.displayText = "Constructor(app.Bread, Constructor(app.Flour))" ∧
        flour.id = ⟨.constructor, "app.Flour.<init>"⟩ ∧
        millResolver.provide ⟨Sketch.type "Bread", none⟩ (millContext.moved ⟨[flour]⟩ flour)
          = .error (.cycle trace flour) :=
    ⟨_, .make .constructor "app.Flour.<init>" "app.Flour()" none, _, rfl, rfl, rfl, rfl⟩
  exact ⟨plan, flour, trace, hplan, htext, hid, hcycle, foundAlike_of_provide hplan⟩

end Resolver

end Wiring
