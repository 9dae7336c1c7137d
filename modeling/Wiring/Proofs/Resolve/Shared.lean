import Wiring.Proofs.Resolve.Asks

/-!
# Resolution on a shared path

Resolution as it runs on one path that all requests share: an element is put on the path when it is
entered, and taken off again however that ends. Every computation of this kind leaves the path as
it found it, with success and with a failure alike, so resolution on the shared path has the same
outcome as resolution that hands each request a path of its own.
-/

namespace Wiring

/-- A computation that reads and changes one path, and that may fail. A failure leaves the path as
it is at that moment. -/
abbrev PathM := ExceptT Failure (StateM ResolutionPath)

namespace PathM

variable {α β : Type} {path : ResolutionPath}

/-- Go on with an element on the path, and take it off again however that ends; a cycle when it is
there already. -/
def entering (e : Element) (next : PathM α) : PathM α := do
  let path ← get
  match path.enter? e with
  | none => throw (.cycle path.trace e)
  | some inner =>
    set inner
    try next finally modify ResolutionPath.leave

/-- On the path, the computation has the outcome, and the path is afterwards what it was before. -/
def Keeps (x : PathM α) (path : ResolutionPath) (outcome : Except Failure α) : Prop :=
  x.run.run path = (outcome, path)

namespace Keeps

/-- A value leaves the path as it is. -/
theorem pure (a : α) : Keeps (Pure.pure a) path (.ok a) := rfl

/-- A failure leaves the path as it is. -/
theorem throw (e : Failure) : Keeps (MonadExcept.throw e : PathM α) path (.error e) := rfl

/-- What comes after a success starts on the path as it was. -/
theorem bind {x : PathM α} {f : α → PathM β} {outcome : Except Failure α}
    {g : α → Except Failure β} (hx : Keeps x path outcome)
    (hf : ∀ a, outcome = .ok a → Keeps (f a) path (g a)) :
    Keeps (x >>= f) path (outcome >>= g) := by
  rw [Keeps, ExceptT.run_bind, StateT.run_bind, hx]
  cases outcome with
  | error e => rfl
  | ok a => exact hf a rfl

/-- What reads the path reads the one it is run on. -/
theorem get {f : ResolutionPath → PathM β} {outcome : Except Failure β}
    (h : Keeps (f path) path outcome) : Keeps (MonadState.get >>= f) path outcome := h

/-- A list is gone through on one path as on paths of its own, if each of its elements is. -/
theorem mapM {f : α → PathM β} {g : α → Except Failure β} {l : List α}
    (h : ∀ a ∈ l, Keeps (f a) path (g a)) : Keeps (l.mapM f) path (l.mapM g) := by
  induction l with
  | nil => exact .pure []
  | cons a l ih =>
    rw [List.mapM_cons, List.mapM_cons]
    refine .bind (h a (List.mem_cons_self ..)) fun b _ => ?_
    exact .bind (ih fun a' ha' => h a' (List.mem_cons_of_mem _ ha')) fun bs _ => .pure (b :: bs)

/-- What is done in the end changes the path alone. -/
theorem run_finally {x : PathM α} {outcome : Except Failure α} (h : Keeps x path outcome)
    (f : ResolutionPath → ResolutionPath) :
    (tryFinally x (modify f)).run.run path = (outcome, f path) := by
  have hrun : x path = (outcome, path) := h
  simp only [tryFinally, tryFinally', ExceptT.run, StateT.run, Functor.map, ExceptT.map,
    ExceptT.mk, Bind.bind, StateT.bind, hrun]
  cases outcome <;> rfl

/-- Entering keeps the path when what is done inside keeps the longer one. -/
theorem entering {c : Context} {e : Element} {next : PathM α} {g : Context → Except Failure α}
    (h : ∀ inner, c.path.enter? e = some inner →
      Keeps next inner (g { c with path := inner, source := e })) :
    Keeps (PathM.entering e next) c.path (c.entering e g) := by
  refine .get ?_
  rw [Context.entering]
  cases hp : c.path.enter? e with
  | none => exact .throw _
  | some inner =>
    have hrun := (h inner hp).run_finally ResolutionPath.leave
    rw [ResolutionPath.leave_of_enter? hp] at hrun
    exact hrun

end Keeps

end PathM

namespace Resolver

section PathM

variable (r : Resolver) (answer : Request → PathM Plan)

/-- Enter a subject on the shared path and answer what it needs. -/
def visitShared (c : Context) (s : Subject) : PathM Plan :=
  .entering s.element do
    let c := { c with path := ← get, source := s.element }
    let plans ← (r.needs c s).mapM answer
    return s.plan c.parentScope plans

/-- Do a task on the shared path. -/
def performShared (c : Context) : Task → PathM Plan
  | .ask q => answer q
  | .enter s => r.visitShared answer c s

/-- One step of resolution on the shared path. -/
def stepShared (q : Request) : PathM Plan := do
  let c := { q.context with path := ← get }
  match r.candidate q.key c q.fromEnd with
  | .error e => throw e
  | .ok none => throw (.noBinding q.key c.path.trace c.source)
  | .ok (some candidate) =>
    let plans ← (candidate.tasks q.key c).mapM (r.performShared answer c)
    return candidate.plan q.key plans

/-- Resolution on the shared path, up to a depth of requests. -/
def provideShared : Nat → Request → PathM Plan
  | 0, q => do throw (.lazyCycle (← get).trace q.context.source)
  | depth + 1, q => r.stepShared (provideShared depth) q

end PathM

variable {r : Resolver} {answer : Request → Except Failure Plan} {shared : Request → PathM Plan}

/-- Visiting a subject on a shared path has the outcome it has by itself. -/
theorem keeps_visitShared (h : ∀ q, (shared q).Keeps q.context.path (answer q)) (c : Context)
    (s : Subject) : (r.visitShared shared c s).Keeps c.path (r.visit answer c s) := by
  refine .entering fun inner _ => .get (.bind (.mapM fun q hq => ?_) fun plans _ => .pure _)
  have hpath : q.context.path = inner := path_of_mem_needs hq
  rw [← hpath]
  exact h q

/-- A step leaves the shared path as it was when the answers to its requests do. -/
theorem keeps_stepShared (h : ∀ q, (shared q).Keeps q.context.path (answer q)) (q : Request) :
    (r.stepShared shared q).Keeps q.context.path (r.step answer q) := by
  refine .get ?_
  dsimp only
  cases hc : r.candidate q.key q.context q.fromEnd with
  | error e =>
    rw [step, hc]
    exact .throw e
  | ok found =>
    cases found with
    | none =>
      rw [step, hc]
      exact .throw _
    | some candidate =>
      rw [step_eq hc]
      refine .bind (.mapM fun t ht => ?_) fun plans _ => .pure _
      cases t with
      | enter s => exact keeps_visitShared h q.context s
      | ask q' =>
        have hpath : q'.context.path = q.context.path :=
          congrArg ResolutionPath.mk (Asks.onward hc ht).carries.1
        rw [← hpath]
        exact h q'

/-- Resolution on the shared path has the outcome of resolution, and the path is afterwards what it
was before. -/
theorem keeps_provideShared (depth : Nat) (q : Request) :
    (r.provideShared depth q).Keeps q.context.path (r.provideWithin depth q) := by
  induction depth generalizing q with
  | zero => exact .get (.throw _)
  | succ depth ih => exact keeps_stepShared ih q

end Resolver

end Wiring
