import Wiring.Proofs.Resolve.Termination
import Wiring.Proofs.Sketch

/-!
# The path at every moment of resolution

Resolution on one path that all requests share, with a record of its moments: whenever a request is
made, an element has been put on the path, or one has been taken off again, the path as it then is
and the context in hand are written down. The record shows what the outcome alone does not. At
every moment the context in hand was made for the path as it is, its source is the element on top,
and no element is on the path twice; in the end the path is what it was, however resolution ended.
-/

namespace Wiring

/-- A moment of resolution. -/
structure Moment where
  /-- The shared path, as it is at this moment. -/
  path : ResolutionPath
  /-- The context in hand, with the path for which it was made. -/
  context : Context

/-- A shared path, and the moments it has been through. -/
structure Recording where
  path : ResolutionPath
  moments : List Moment := []

/-- A computation on a shared path that is recorded, and that may fail. A failure leaves the path
and the record as they are at that moment. -/
abbrev RecordM := ExceptT Failure (StateM Recording)

/-- What a moment has to do with the context in which resolution was started. -/
structure Context.Leads (c : Context) (w : Moment) : Prop where
  /-- The context in hand was made for the path as it is. -/
  current : w.context.path = w.path
  /-- Elements have been put on the path, and the last of them is the source of the context in hand;
  where there are none it has the source of the first context. -/
  source : ∃ entered, w.path.elements = entered ++ c.path.elements ∧
    w.context.source = entered.headD c.source
  /-- No element has been put on the path twice. -/
  distinct : (c.path.elements.map (·.id)).Nodup → (w.path.elements.map (·.id)).Nodup

namespace Context.Leads

variable {c c' : Context} {w : Moment} {e : Element}

/-- Every context leads to itself. -/
protected theorem refl (c : Context) : c.Leads ⟨c.path, c⟩ where
  current := rfl
  source := ⟨[], rfl, rfl⟩
  distinct := id

/-- What a context leads to leads on. -/
protected theorem trans (h : c.Leads ⟨c'.path, c'⟩) (h' : c'.Leads w) : c.Leads w where
  current := h'.current
  source := by
    obtain ⟨entered, hpath, hsource⟩ := h.source
    obtain ⟨entered', hpath', hsource'⟩ := h'.source
    refine ⟨entered' ++ entered, ?_, ?_⟩
    · rw [hpath', hpath, List.append_assoc]
    · rw [hsource', hsource]
      cases entered' <;> rfl
  distinct hc := h'.distinct (h.distinct hc)

/-- The element that is entered becomes the source. -/
theorem enter? (h : c.enter? e = some c') : c.Leads ⟨c'.path, c'⟩ := by
  obtain ⟨hfresh, hpath, hcontext⟩ := Context.enter?_eq_some h
  refine ⟨rfl, ⟨[e], hpath, congrArg Context.source hcontext⟩, fun hc => ?_⟩
  rw [hpath, List.map_cons, List.nodup_cons]
  exact ⟨hfresh, hc⟩

/-- What a subject needs is asked for where the subject was entered. -/
theorem of_mem_needs {r : Resolver} {s : Subject} {q : Request} (h : q ∈ r.needs c s) :
    c.Leads ⟨q.context.path, q.context⟩ := by
  obtain ⟨scope, hcontext⟩ := Resolver.context_of_mem_needs h
  rw [hcontext]
  exact ⟨rfl, ⟨[], rfl, rfl⟩, id⟩

/-- What is asked for in the place of a request is asked for where that was. -/
theorem of_asks {r : Resolver} {q q' : Request} (h : r.Asks q none q') :
    q.context.Leads ⟨q'.context.path, q'.context⟩ := by
  rcases h.onward_cases with ⟨_, _, _, _, _, rfl⟩ | ⟨_, _, _, rfl⟩ <;>
    exact ⟨rfl, ⟨[], rfl, rfl⟩, id⟩

end Context.Leads

namespace RecordM

variable {α β : Type} {good : Moment → Prop} {path : ResolutionPath}

/-- The path as it is. -/
def current : RecordM ResolutionPath := do return (← get).path

/-- Write down the path as it is and the context in hand. -/
def note (c : Context) : RecordM Unit :=
  modify fun s => { s with moments := s.moments ++ [⟨s.path, c⟩] }

/-- Go on with an element on the path and a context made for it, and take the element off again
however that ends; a cycle when it is there already. -/
def entering (c : Context) (e : Element) (next : Context → RecordM α) : RecordM α := do
  let path ← current
  match path.enter? e with
  | none => throw (.cycle path.trace e)
  | some inner =>
    let nested := { c with path := inner, source := e }
    modify fun s => { s with path := inner }
    note nested
    try next nested
    finally
      modify fun s => { s with path := s.path.leave }
      note c

/-- On the path, the computation has the outcome, and the path is afterwards what it was before; it
goes through good moments only. -/
def Keeps (good : Moment → Prop) (x : RecordM α) (path : ResolutionPath)
    (outcome : Except Failure α) : Prop :=
  ∀ before, ∃ moments, x.run.run ⟨path, before⟩ = (outcome, ⟨path, before ++ moments⟩) ∧
    ∀ w ∈ moments, good w

namespace Keeps

/-- A value keeps the path. -/
theorem pure (a : α) : Keeps good (Pure.pure a) path (.ok a) :=
  fun before => ⟨[], by rw [List.append_nil]; rfl, fun _ hw => absurd hw List.not_mem_nil⟩

/-- A failure keeps the path. -/
theorem throw (e : Failure) : Keeps good (MonadExcept.throw e : RecordM α) path (.error e) :=
  fun before => ⟨[], by rw [List.append_nil]; rfl, fun _ hw => absurd hw List.not_mem_nil⟩

/-- Moments that are good in one sense are good in any wider one. -/
theorem mono {good' : Moment → Prop} {x : RecordM α} {outcome : Except Failure α}
    (h : Keeps good x path outcome) (hgood : ∀ w, good w → good' w) :
    Keeps good' x path outcome := by
  intro before
  obtain ⟨moments, hrun, hall⟩ := h before
  exact ⟨moments, hrun, fun w hw => hgood w (hall w hw)⟩

/-- What comes after a success starts on the path as it was. -/
theorem bind {x : RecordM α} {f : α → RecordM β} {outcome : Except Failure α}
    {g : α → Except Failure β} (hx : Keeps good x path outcome)
    (hf : ∀ a, outcome = .ok a → Keeps good (f a) path (g a)) :
    Keeps good (x >>= f) path (outcome >>= g) := by
  intro before
  obtain ⟨moments, hrun, hall⟩ := hx before
  rw [ExceptT.run_bind, StateT.run_bind, hrun]
  cases outcome with
  | error e => exact ⟨moments, rfl, hall⟩
  | ok a =>
    obtain ⟨later, hlater, hall'⟩ := hf a rfl (before ++ moments)
    refine ⟨moments ++ later, ?_, fun w hw => (List.mem_append.1 hw).elim (hall w) (hall' w)⟩
    rw [← List.append_assoc]
    exact hlater

/-- A moment that is written down has to be good. -/
theorem note {c : Context} {x : RecordM α} {outcome : Except Failure α} (hc : good ⟨path, c⟩)
    (hx : Keeps good x path outcome) :
    Keeps good (do RecordM.note c; x) path outcome := by
  intro before
  obtain ⟨moments, hrun, hall⟩ := hx (before ++ [⟨path, c⟩])
  refine ⟨⟨path, c⟩ :: moments, ?_, List.forall_mem_cons.2 ⟨hc, hall⟩⟩
  rw [List.append_cons]
  exact hrun

/-- What reads the path reads the one it is run on. -/
theorem current {f : ResolutionPath → RecordM β} {outcome : Except Failure β}
    (h : Keeps good (f path) path outcome) :
    Keeps good (do let p ← RecordM.current; f p) path outcome := h

/-- A list is gone through with the path kept if each of its elements is. -/
theorem mapM {f : α → RecordM β} {g : α → Except Failure β} {l : List α}
    (h : ∀ a ∈ l, Keeps good (f a) path (g a)) : Keeps good (l.mapM f) path (l.mapM g) := by
  induction l with
  | nil => exact .pure []
  | cons a l ih =>
    rw [List.mapM_cons, List.mapM_cons]
    refine .bind (h a (List.mem_cons_self ..)) fun b _ => ?_
    exact .bind (ih fun a' ha' => h a' (List.mem_cons_of_mem _ ha')) fun bs _ => .pure (b :: bs)

/-- What is done in the end, after a success and after a failure alike. -/
theorem run_finally {x : RecordM α} {s s' : Recording} {outcome : Except Failure α}
    (h : x.run.run s = (outcome, s')) (f : Recording → Recording) (c : Context) :
    (tryFinally x (do modify f; RecordM.note c)).run.run s
      = (outcome, { f s' with moments := (f s').moments ++ [⟨(f s').path, c⟩] }) := by
  have hrun : x s = (outcome, s') := h
  simp only [tryFinally, tryFinally', ExceptT.run, StateT.run, Functor.map, ExceptT.map,
    ExceptT.mk, Bind.bind, StateT.bind, hrun]
  cases outcome <;> rfl

/-- Entering keeps the path when what is done inside keeps the longer one. -/
theorem entering {c : Context} {e : Element} {next : Context → RecordM α}
    {g : Context → Except Failure α} (hc : good ⟨c.path, c⟩)
    (h : ∀ nested, c.enter? e = some nested → good ⟨nested.path, nested⟩ ∧
      Keeps good (next nested) nested.path (g nested)) :
    Keeps good (RecordM.entering c e next) c.path (c.entering e g) := by
  intro before
  have hrun : (RecordM.entering c e next).run.run ⟨c.path, before⟩
      = match c.path.enter? e with
        | none => (.error (.cycle c.path.trace e), ⟨c.path, before⟩)
        | some inner => (tryFinally (next { c with path := inner, source := e }) (do
            modify fun s => { s with path := s.path.leave }
            RecordM.note c)).run.run
              ⟨inner, before ++ [⟨inner, { c with path := inner, source := e }⟩]⟩ := by
    change ((match c.path.enter? e with
      | none => MonadExcept.throw (.cycle c.path.trace e)
      | some inner => _ : RecordM α)).run.run ⟨c.path, before⟩ = _
    cases c.path.enter? e <;> rfl
  rw [hrun, Context.entering]
  cases hp : c.path.enter? e with
  | none => exact ⟨[], by rw [List.append_nil], fun _ hw => absurd hw List.not_mem_nil⟩
  | some inner =>
    obtain ⟨hnested, hkeeps⟩ := h { c with path := inner, source := e } (by
      rw [Context.enter?, hp, Option.map_some])
    obtain ⟨moments, hinside, hall⟩ :=
      hkeeps (before ++ [⟨inner, { c with path := inner, source := e }⟩])
    have hdone := run_finally hinside (fun s => { s with path := s.path.leave }) c
    dsimp only at hdone ⊢
    rw [ResolutionPath.leave_of_enter? hp] at hdone
    refine ⟨⟨inner, { c with path := inner, source := e }⟩ :: moments ++ [⟨c.path, c⟩], ?_, ?_⟩
    · rw [hdone, List.append_assoc, List.append_assoc]
      rfl
    · intro w hw
      rcases List.mem_append.1 hw with hw | hw
      · rcases List.mem_cons.1 hw with rfl | hw
        · exact hnested
        · exact hall w hw
      · rw [List.mem_singleton.1 hw]
        exact hc

end Keeps

end RecordM

namespace Resolver

section RecordM

variable (r : Resolver) (answer : Request → RecordM Plan)

/-- Enter a subject on the shared path and answer what it needs. -/
def visitRecorded (c : Context) (s : Subject) : RecordM Plan :=
  .entering c s.element fun c => do
    let plans ← (r.needs c s).mapM answer
    return s.plan c.parentScope plans

/-- Do a task on the shared path. -/
def performRecorded (c : Context) : Task → RecordM Plan
  | .ask q => answer q
  | .enter s => r.visitRecorded answer c s

/-- One step of resolution on the shared path. -/
def stepRecorded (q : Request) : RecordM Plan := do
  RecordM.note q.context
  let c := { q.context with path := ← RecordM.current }
  match r.candidate q.key c q.fromEnd with
  | .error e => throw e
  | .ok none => throw (.noBinding q.key c.path.trace c.source)
  | .ok (some candidate) =>
    let plans ← (candidate.tasks q.key c).mapM (r.performRecorded answer c)
    return candidate.plan q.key plans

/-- Resolution on the shared path, up to a depth of requests. -/
def provideRecorded : Nat → Request → RecordM Plan
  | 0, q => do throw (.lazyCycle (← RecordM.current).trace q.context.source)
  | depth + 1, q => r.stepRecorded (provideRecorded depth) q

/-- The outcome of resolution on the shared path, with the path in the end and what was recorded. -/
def recording (depth : Nat) (q : Request) : Except Failure Plan × Recording :=
  (r.provideRecorded depth q).run.run { path := q.context.path }

end RecordM

variable {r : Resolver} {answer : Request → Except Failure Plan}
  {recorded : Request → RecordM Plan}

/-- Requests below a context lead on from it. -/
theorem leads_of_keeps (h : ∀ q, (recorded q).Keeps q.context.Leads q.context.path (answer q))
    {c : Context} {q : Request} (hq : c.Leads ⟨q.context.path, q.context⟩) :
    (recorded q).Keeps c.Leads q.context.path (answer q) :=
  (h q).mono fun _ hw => hq.trans hw

/-- Visiting a subject on the record has the outcome it has by itself, and goes through moments that
its context leads to. -/
theorem keeps_visitRecorded
    (h : ∀ q, (recorded q).Keeps q.context.Leads q.context.path (answer q)) (c : Context)
    (s : Subject) : (r.visitRecorded recorded c s).Keeps c.Leads c.path (r.visit answer c s) := by
  refine .entering (.refl c) fun nested hnested => ?_
  have hleads := Context.Leads.enter? hnested
  refine ⟨hleads, .bind (.mapM fun q hq => ?_) fun plans _ => .pure _⟩
  have hkeeps := leads_of_keeps h (hleads.trans (.of_mem_needs hq))
  rwa [path_of_mem_needs hq] at hkeeps

/-- A step keeps the shared path when the answers to its requests do. -/
theorem keeps_stepRecorded
    (h : ∀ q, (recorded q).Keeps q.context.Leads q.context.path (answer q)) (q : Request) :
    (r.stepRecorded recorded q).Keeps q.context.Leads q.context.path (r.step answer q) := by
  refine .note (.refl q.context) (.current ?_)
  dsimp only
  cases hc : r.candidate q.key q.context q.fromEnd with
  | error e =>
    rw [step, hc]
    exact .throw e
  | ok found =>
    cases found with
    | none =>
      rw [step, hc]
      exact .throw _
    | some candidate =>
      rw [step_eq hc]
      refine .bind (.mapM fun t ht => ?_) fun plans _ => .pure _
      cases t with
      | enter s => exact keeps_visitRecorded h q.context s
      | ask q' =>
        have hasks : r.Asks q none q' := .onward hc ht
        have hpath : q'.context.path = q.context.path :=
          congrArg ResolutionPath.mk hasks.carries.1
        rw [← hpath]
        exact leads_of_keeps h (.of_asks hasks)

/-- Resolution on the shared path has the outcome of resolution, and goes through moments that its
context leads to. -/
theorem keeps_provideRecorded (depth : Nat) (q : Request) :
    (r.provideRecorded depth q).Keeps q.context.Leads q.context.path (r.provideWithin depth q) := by
  induction depth generalizing q with
  | zero => exact .current (.throw _)
  | succ depth ih => exact keeps_stepRecorded ih q

/-- Resolution gives the path back as it found it, and everything that is done on the way is done
with the path that it was meant for. -/
structure RestoresPath (r : Resolver) (key : Key) (c : Context) : Prop where
  /-- The outcome is that of resolution. -/
  outcome : (r.recording (r.depthBound key) ⟨key, c, none⟩).1 = r.provide key c
  /-- Whatever the outcome, the path is in the end what it was. -/
  restored : (r.recording (r.depthBound key) ⟨key, c, none⟩).2.path = c.path
  /-- At every moment the context in hand was made for the path as it is. -/
  current : ∀ w ∈ (r.recording (r.depthBound key) ⟨key, c, none⟩).2.moments,
    w.context.path = w.path
  /-- At every moment, elements have been put on the path, and the last of them is the source of the
  context in hand; where there are none it has the source of the first context. -/
  source : ∀ w ∈ (r.recording (r.depthBound key) ⟨key, c, none⟩).2.moments,
    ∃ entered, w.path.elements = entered ++ c.path.elements ∧
      w.context.source = entered.headD c.source
  /-- On a path without repetitions there is never one. -/
  distinct : (c.path.elements.map (·.id)).Nodup →
    ∀ w ∈ (r.recording (r.depthBound key) ⟨key, c, none⟩).2.moments,
      (w.path.elements.map (·.id)).Nodup
  /-- The outcome is never that of a cycle which could be broken. -/
  unbroken : ∀ trace e, r.provide key c ≠ .error (.lazyCycle trace e)
  /-- The bound on depth is not felt. -/
  unbounded : ∀ depth, r.depthBound key ≤ depth →
    r.provideWithin depth ⟨key, c, none⟩ = r.provide key c

/-- Resolution in a component restores the path, for every key, in every context and on every
path. -/
theorem restoresPath (m : Model) (o : Options) (component : Classifier)
    (hc : component ∈ m.classifiers) (key : Key) (c : Context) :
    RestoresPath (Component.resolver m o component) key c := by
  obtain ⟨moments, hrun, hall⟩ := keeps_provideRecorded
    (r := Component.resolver m o component) ((Component.resolver m o component).depthBound key)
    ⟨key, c, none⟩ []
  have hrecording : (Component.resolver m o component).recording
      ((Component.resolver m o component).depthBound key) ⟨key, c, none⟩
        = ((Component.resolver m o component).provide key c, ⟨c.path, moments⟩) := hrun
  constructor
  case outcome => rw [hrecording]
  case restored => rw [hrecording]
  case current =>
    rw [hrecording]
    exact fun w hw => (hall w hw).current
  case source =>
    rw [hrecording]
    exact fun w hw => (hall w hw).source
  case distinct =>
    rw [hrecording]
    exact fun hnodup w hw => (hall w hw).distinct hnodup
  case unbroken => exact answer_ne_lazyCycle hc ⟨key, c, none⟩
  case unbounded =>
    intro depth hdepth
    have hrank := rank_lt_depthBound m o component ⟨key, c, none⟩
    exact provideWithin_eq_answer hc (m.ids_sublist_enterable key.type)
      (m.type_sublist_enterable key.type) (Nat.lt_of_lt_of_le hrank hdepth)

/-- A kitchen that asks for a stew. -/
def kitchen : ClassDecl :=
  Sketch.component "Kitchen" [] [] [Sketch.requirement "stew" (Sketch.type "Stew") []]

/-- The program of the kitchen. The pot of the stew needs a fire, and the stew itself. -/
def kitchenProgram : Model :=
  Sketch.program [kitchen,
    Sketch.injectable "Stew" [] [Sketch.param "pot" (Sketch.type "Pot") []],
    Sketch.injectable "Pot" [] [Sketch.param "fire" (Sketch.type "Fire") [],
      Sketch.param "stew" (Sketch.type "Stew") []],
    Sketch.injectable "Fire" [] []]

/-- What is resolved in the kitchen. -/
def kitchenResolver : Resolver := Component.resolver kitchenProgram {} ⟨0, kitchen, false⟩

/-- Where the kitchen itself has been entered. -/
def kitchenContext : Context :=
  { path := ⟨[Classifier.element ⟨0, kitchen, false⟩]⟩
    source := Classifier.element ⟨0, kitchen, false⟩ }

/-- The path grows and shrinks before resolution fails, and is what it was after that. -/
theorem restoresPath_kitchen : ⟨0, kitchen, false⟩ ∈ kitchenProgram.classifiers ∧
    (kitchenResolver.recording (kitchenResolver.depthBound ⟨Sketch.type "Stew", none⟩)
      ⟨⟨Sketch.type "Stew", none⟩, kitchenContext, none⟩).2.moments.map (·.path.depth)
        = [1, 2, 2, 3, 3, 4, 3, 3, 2, 1] ∧
    RestoresPath kitchenResolver ⟨Sketch.type "Stew", none⟩ kitchenContext := by
  have hc : ⟨0, kitchen, false⟩ ∈ kitchenProgram.classifiers := Model.mem_classifiers.2 ⟨rfl, rfl⟩
  exact ⟨hc, by decide +kernel,
    restoresPath kitchenProgram {} ⟨0, kitchen, false⟩ hc ⟨Sketch.type "Stew", none⟩ kitchenContext⟩

end Resolver

end Wiring
