import Wiring.Proofs.Catalogue.Relocation
import Wiring.Proofs.Resolve.Termination

/-!
# Resolution among classes at other places

A request says nothing about places, and neither does a failure. Where the classes of a program
stand at other places, a request that names known classes alone finds the same candidate, which
asks the same requests, so it has the same answer: the same failure, or the same plan with the
classes in it at their other places.
-/

namespace Wiring

namespace Plan

mutual

/-- A plan with the classes in it at other places. -/
def relocate (place : Nat → Nat) : Plan → Plan
  | call a f as => call a (f.relocate place) (relocateList place as)
  | extensionCall a f r as =>
    extensionCall a (f.relocate place) (relocate place r) (relocateList place as)
  | cached a o k p => cached a (o.relocate place) k (relocate place p)
  | construct c as => construct (c.relocate place) (relocateList place as)
  | container b as => container b (relocateList place as)
  | function ps p => function ps (relocate place p)
  | namedFunction f ps as => namedFunction f ps (relocateList place as)
  | arg n => arg n
  | lazy p => lazy (relocate place p)

/-- Plans in a list with the classes in them at other places. -/
def relocateList (place : Nat → Nat) : List Plan → List Plan
  | [] => []
  | p :: ps => relocate place p :: relocateList place ps

end

/-- Plans one after the other are moved one by one. -/
@[simp] theorem relocateList_eq_map (place : Nat → Nat) (ps : List Plan) :
    relocateList place ps = ps.map (relocate place) := by
  induction ps with
  | nil => rfl
  | cons p ps ih => rw [relocateList, ih, List.map_cons]

/-- The first of plans that are moved is the first plan, moved. -/
theorem headD_relocate (place : Nat → Nat) {plans : List Plan} (h : plans ≠ []) :
    (plans.map (relocate place)).headD default = (plans.headD default).relocate place := by
  obtain ⟨p, ps, rfl⟩ := List.exists_cons_of_ne_nil h
  rfl

end Plan

/-- A candidate with the classes in it at other places. -/
def Candidate.relocate (place : Nat → Nat) : Candidate → Candidate
  | provides p => .provides (p.relabel (.places place))
  | cached owner => .cached (owner.relabel (.places place))
  | construct k => .construct (k.relocate place)
  | container builder parts => .container builder (parts.map (·.relabel (.places place)))
  | function e types result => .function e types result
  | namedFunction f types => .namedFunction f types
  | arg name => .arg name
  | lazy inner => .lazy inner

/-- A subject with the classes in it at other places. -/
def Subject.relocate (place : Nat → Nat) : Subject → Subject
  | member p => .member (p.relabel (.places place))
  | constructor k => .constructor (k.relocate place)
  | lambda type types result => .lambda type types result
  | function f types => .function f types

/-- A task with the classes in it at other places. -/
def Task.relocate (place : Nat → Nat) : Task → Task
  | ask q => .ask q
  | enter s => .enter (s.relocate place)

/-- A request for a type, with parameters at hand, whose types stand for the same classes in both
programs. -/
structure Request.SeenAlike (m m' : Model) (place : Nat → Nat) (q : Request) : Prop where
  key : m.SeenAlike m' place q.key.type
  args : ∀ a ∈ q.context.args, m.SeenAlike m' place a.1

section Traversal

variable {α α' β β' ε : Type}

/-- A traversal of images has the images of the results, when that goes for each element. -/
theorem mapM_map_eq {f : α → Except ε β} {f' : α' → Except ε β'} {g : α → α'} {h : β → β'} :
    ∀ {l : List α}, (∀ a ∈ l, f' (g a) = (f a).map h) →
      (l.map g).mapM f' = (l.mapM f).map (List.map h) := by
  intro l
  induction l with
  | nil =>
    intro _
    rfl
  | cons a l ih =>
    intro hf
    obtain ⟨ha, hl⟩ := List.forall_mem_cons.1 hf
    rw [List.map_cons, List.mapM_cons, List.mapM_cons, ha, ih hl]
    cases f a with
    | error e => rfl
    | ok b => cases l.mapM f <;> rfl

end Traversal

namespace Subject

/-- A subject that is moved keeps its element. -/
theorem element_relocate (place : Nat → Nat) (s : Subject) :
    (s.relocate place).element = s.element := by
  cases s <;> rfl

/-- The plan of a subject at another place is put together from the same plans at their other
places. -/
theorem plan_relocate (place : Nat → Nat) (parentScope : Option String) {r : Resolver}
    {c : Context} {plans : List Plan} {s : Subject} (hplans : r.needs c s ≠ [] → plans ≠ []) :
    (s.relocate place).plan parentScope (plans.map (·.relocate place))
      = (s.plan parentScope plans).relocate place := by
  cases s with
  | member p =>
    have hreceiver : (p.relabel (.places place)).callable.receiver = p.callable.receiver := rfl
    rw [relocate, plan, plan, hreceiver]
    cases hr : p.callable.receiver with
    | none =>
      rw [Plan.relocate, Plan.relocateList_eq_map]
      rfl
    | some t =>
      have hne : plans ≠ [] := hplans (by simp only [Resolver.needs, hr, ne_eq, reduceCtorEq,
        not_false_eq_true])
      dsimp only
      rw [Plan.relocate, Plan.relocateList_eq_map, Plan.headD_relocate place hne, List.map_tail]
      rfl
  | constructor k =>
    rw [relocate, plan, plan, Plan.relocate, Plan.relocateList_eq_map]
  | lambda type types result =>
    rw [relocate, plan, plan, Plan.relocate,
      Plan.headD_relocate place (hplans (List.cons_ne_nil _ _))]
  | function f types =>
    rw [relocate, plan, plan, Plan.relocate, Plan.relocateList_eq_map]

end Subject

namespace Candidate

/-- The tasks of a candidate that is moved are its tasks, moved. -/
theorem tasks_relocate (place : Nat → Nat) (key : Key) (c : Context) (candidate : Candidate) :
    (candidate.relocate place).tasks key c = (candidate.tasks key c).map (·.relocate place) := by
  cases candidate with
  | container builder parts =>
    rw [relocate, tasks, tasks, List.map_map, List.map_map]
    rfl
  | _ => rfl

/-- A candidate that is moved makes of plans that are moved its plan, moved. -/
theorem plan_relocate (place : Nat → Nat) {key : Key} {c : Context} {plans : List Plan}
    {candidate : Candidate} (hplans : candidate.tasks key c ≠ [] → plans ≠ []) :
    (candidate.relocate place).plan key (plans.map (·.relocate place))
      = (candidate.plan key plans).relocate place := by
  cases candidate with
  | cached owner =>
    rw [relocate, plan, plan, Plan.relocate,
      Plan.headD_relocate place (hplans (List.cons_ne_nil _ _))]
    rfl
  | container builder parts => rw [relocate, plan, plan, Plan.relocate, Plan.relocateList_eq_map]
  | arg name => rfl
  | lazy inner =>
    rw [relocate, plan, plan, Plan.relocate,
      Plan.headD_relocate place (hplans (List.cons_ne_nil _ _))]
  -- The other candidates set one task, whose plan is theirs.
  | provides p => exact Plan.headD_relocate place (hplans (List.cons_ne_nil _ _))
  | construct k => exact Plan.headD_relocate place (hplans (List.cons_ne_nil _ _))
  | function e types result => exact Plan.headD_relocate place (hplans (List.cons_ne_nil _ _))
  | namedFunction f types => exact Plan.headD_relocate place (hplans (List.cons_ne_nil _ _))

end Candidate

namespace Resolver

variable {m m' : Model} {place : Nat → Nat} {o : Options} {c : Classifier} {q q' : Request}

section Requests

/-- Whatever a known request asks for is known. -/
theorem Asks.seenAlike (h : m.Relocates m' place) (hc : c ∈ m.classifiers) {s : Option Subject}
    (hasks : (Component.resolver m o c).Asks q s q') (hq : q.SeenAlike m m' place) :
    q'.SeenAlike m m' place := by
  cases s with
  | none =>
    rcases hasks.onward_cases with ⟨_, _, _, _, _, rfl⟩ | ⟨inner, _, hinner, rfl⟩
    · exact ⟨hq.key, hq.args⟩
    · exact ⟨hq.key.of_mem_arguments (List.mem_of_mem_head? hinner), hq.args⟩
  | some s =>
    cases hasks with
    | inside hcandidate ht he hn =>
      refine ⟨?_, ?_⟩
      · have hneeded := type_mem_needed hn
        cases declared_of_enter_mem_tasks hc hcandidate ht with
        | member hf =>
          obtain ⟨_, hparams, hreceiver⟩ := Model.mem_written_of_mem_callables hf
          rcases List.mem_append.1 hneeded with hmem | hmem
          · exact h.written _ (hreceiver _ (Option.mem_toList.1 hmem))
          · obtain ⟨p, hp, htype⟩ := List.mem_map.1 hmem
            rw [← htype]
            exact h.written _ (hparams p hp)
        | constructor hd hk =>
          obtain ⟨p, hp, htype⟩ := List.mem_map.1 hneeded
          rw [← htype]
          exact h.written _ (Model.mem_written_of_constructor? hd hk hp)
        | lambda hs =>
          rw [List.mem_singleton.1 hneeded]
          exact hq.key.of_mem_arguments (TypeExpr.mem_arguments_of_signature? hs)
        | function hf =>
          obtain ⟨p, hp, htype⟩ := List.mem_map.1 hneeded
          rw [← htype]
          exact h.written _ (Model.mem_written_of_mem_functions hf hp)
      · obtain ⟨scope, hcontext⟩ := context_of_mem_needs hn
        obtain ⟨_, _, hentered⟩ := Context.enter?_eq_some he
        rw [hcontext, hentered]
        dsimp only
        cases hs : s.lambda? with
        | none => exact hq.args
        | some params =>
          -- The parameters of a lambda are arguments of the type that is asked for.
          obtain ⟨types, result, hsignature, rfl⟩ :=
            signature_of_enter_mem_tasks hcandidate ht hs
          intro a ha
          obtain ⟨⟨t, i⟩, ht, rfl⟩ := List.mem_map.1 ha
          have htypes : t ∈ types := List.mem_of_getElem? (List.mk_mem_zipIdx_iff_getElem?.1 ht)
          refine hq.key.of_mem_arguments ?_
          rw [TypeExpr.arguments_of_signature? hsignature]
          exact List.mem_append_left _ htypes

end Requests

end Resolver

namespace Model.Relocates

open Resolver Component

variable {m m' : Model} {place : Nat → Nat} {o : Options} {c : Classifier} {q : Request}

/-- What is found by the form of a type is moved with the classes. -/
theorem intrinsic_eq (h : m.Relocates m' place) (key : Key) :
    (resolver m' o (c.relocate place)).intrinsic key
      = ((resolver m o c).intrinsic key).map (·.relocate place) := by
  have hnamed : ∀ t, (resolver m' o (c.relocate place)).namedFunction? t
      = (resolver m o c).namedFunction? t := by
    intro t
    rw [namedFunction?, namedFunction?, resolver, resolver, h.functionsNamed_eq]
  rw [Resolver.intrinsic, Resolver.intrinsic]
  simp only [hnamed]
  cases key.type.signature? with
  | some signature => cases (resolver m o c).namedFunction? key.type <;> rfl
  | none =>
    dsimp only
    split
    · cases key.type.resolved.arguments.head? <;> rfl
    · rfl

/-- The candidate of a binding is moved with the binding. -/
theorem ofBinding_eq (place : Nat → Nat) (key : Key) (context : Context) (b : Binding) :
    ofBinding key context (b.relabel (.places place))
      = (ofBinding key context b).relocate place := by
  simp only [ofBinding]
  cases b with
  | constructor k scope => cases scope <;> cases context.skipScoped == some key.type <;> rfl
  | provider p =>
    obtain ⟨f, accessor, scope⟩ := p
    cases scope <;> cases context.skipScoped == some key.type <;> rfl
  | container k =>
    obtain ⟨builder, parts, scope⟩ := k
    cases scope <;> cases context.skipScoped == some key.type <;> rfl

/-- A known request finds the same candidate. -/
theorem candidate_eq (h : m.Relocates m' place) (hc : c ∈ m.classifiers)
    (hq : q.SeenAlike m m' place) :
    (resolver m' o (c.relocate place)).candidate q.key q.context q.fromEnd
      = ((resolver m o c).candidate q.key q.context q.fromEnd).map
          (Option.map (·.relocate place)) := by
  have harg : ∀ i, (resolver m' o (c.relocate place)).argAt? q.key q.context i
      = (resolver m o c).argAt? q.key q.context i := by
    intro i
    rw [argAt?, argAt?]
    cases ha : q.context.args.reverse[i]? with
    | none => rfl
    | some a =>
      have hmem : a ∈ q.context.args := List.mem_reverse.1 (List.mem_of_getElem? ha)
      have hassignable : (resolver m' o (c.relocate place)).model.isAssignable q.key.type a.1
          = (resolver m o c).model.isAssignable q.key.type a.1 :=
        h.isAssignable_eq q.key.type (hq.args a hmem)
      simp only [hassignable]
  have hfind : (resolver m' o (c.relocate place)).find q.key q.context
      = ((resolver m o c).find q.key q.context).map (Option.map (·.relocate place)) := by
    have hresolve := h.resolve_eq (o := o) (Catalogue.collect m o c) hq.key
      (q.context.skipProvider == some q.key.type)
    rw [← h.collect_eq hc] at hresolve
    rw [Resolver.find, Resolver.find, resolver, resolver]
    dsimp only
    rw [hresolve]
    rcases (Catalogue.collect m o c).resolve m o q.key
      (q.context.skipProvider == some q.key.type) with e | _ | b
    · rfl
    · exact congrArg Except.ok (h.intrinsic_eq q.key)
    · exact congrArg (Except.ok ∘ some) (ofBinding_eq place q.key q.context b)
  have hargs : (resolver m' o (c.relocate place)).argAt? q.key q.context
      = (resolver m o c).argAt? q.key q.context := funext harg
  rw [candidate, candidate, hargs, hfind]
  cases q.fromEnd.bind ((resolver m o c).argAt? q.key q.context) <;> rfl

/-- A subject that is moved needs what it needed. -/
theorem needs_eq (place : Nat → Nat) (context : Context) (s : Subject) :
    (resolver m' o (c.relocate place)).needs context (s.relocate place)
      = (resolver m o c).needs context s := by
  have hparams : ∀ (context : Context) (ps : List Param),
      (resolver m' o (c.relocate place)).paramRequests context ps
        = (resolver m o c).paramRequests context ps := by
    intro context ps
    induction ps with
    | nil => rfl
    | cons p ps ih =>
      rw [paramRequests, paramRequests, ih]
      rfl
  cases s with
  | member p =>
    have hreceiver : (p.relabel (.places place)).callable.receiver = p.callable.receiver := rfl
    rw [Subject.relocate, needs, needs, hreceiver, hparams]
    cases p.callable.receiver with
    | none => rfl
    | some t =>
      dsimp only
      rw [hparams]
      rfl
  | constructor k => exact hparams context k.params
  | lambda type types result => rfl
  | function f types => exact hparams (context.withArgs (.ofTypes types)) f.params

section Steps

variable {answer answer' : Request → Except Failure Plan}

/-- Something that is gone through gives something. -/
theorem ne_nil_of_mapM {α β ε : Type} {f : α → Except ε β} {l : List α} {bs : List β}
    (h : l.mapM f = .ok bs) : l ≠ [] → bs ≠ [] := by
  intro hne hnil
  have hlength := (mapM_eq_ok_iff.1 h).length_eq
  rw [hnil, List.length_nil, List.length_eq_zero_iff] at hlength
  exact hne hlength

/-- A visit has the same outcome, when what the subject needs has the same answers. -/
theorem visit_eq {context : Context} {s : Subject}
    (hanswer : ∀ inner q, context.enter? s.element = some inner →
      q ∈ (resolver m o c).needs inner s → answer' q = (answer q).map (·.relocate place)) :
    (resolver m' o (c.relocate place)).visit answer' context (s.relocate place)
      = ((resolver m o c).visit answer context s).map (·.relocate place) := by
  rw [visit, visit, Context.entering_eq, Context.entering_eq, Subject.element_relocate]
  cases he : context.enter? s.element with
  | none => rfl
  | some inner =>
    have hmap := mapM_map_eq (g := id) (fun q hq => hanswer inner q he hq)
    rw [List.map_id] at hmap
    dsimp only
    rw [needs_eq, hmap]
    cases hplans : ((resolver m o c).needs inner s).mapM answer with
    | error e => rfl
    | ok plans =>
      exact congrArg Except.ok (Subject.plan_relocate place _ (ne_nil_of_mapM hplans))

/-- A step of a known request has the same outcome, when what it asks for has the same answers. -/
theorem step_eq (h : m.Relocates m' place) (hc : c ∈ m.classifiers)
    (hq : q.SeenAlike m m' place)
    (hanswer : ∀ s q', (resolver m o c).Asks q s q' →
      answer' q' = (answer q').map (·.relocate place)) :
    (resolver m' o (c.relocate place)).step answer' q
      = ((resolver m o c).step answer q).map (·.relocate place) := by
  have hcandidate := h.candidate_eq (o := o) hc hq
  cases hfound : (resolver m o c).candidate q.key q.context q.fromEnd with
  | error e =>
    rw [hfound] at hcandidate
    rw [step, step, hfound, hcandidate]
    rfl
  | ok found =>
    rw [hfound] at hcandidate
    cases found with
    | none =>
      rw [step, step, hfound, hcandidate]
      rfl
    | some candidate =>
      have htasks : ∀ t ∈ candidate.tasks q.key q.context,
          (resolver m' o (c.relocate place)).perform answer' q.context (t.relocate place)
            = ((resolver m o c).perform answer q.context t).map (·.relocate place) := by
        intro t ht
        cases t with
        | ask q' => exact hanswer none q' (.onward hfound ht)
        | enter s =>
          exact visit_eq fun inner q' he hn => hanswer (some s) q' (.inside hfound ht he hn)
      rw [Resolver.step_eq hfound, Resolver.step_eq hcandidate, Candidate.tasks_relocate,
        mapM_map_eq htasks]
      cases hplans : (candidate.tasks q.key q.context).mapM
          ((resolver m o c).perform answer q.context) with
      | error e => rfl
      | ok plans => exact congrArg Except.ok (Candidate.plan_relocate place (ne_nil_of_mapM hplans))

end Steps

/-- A known request has the same answer, its classes at their other places. -/
theorem answer_eq (h : m.Relocates m' place) (hc : c ∈ m.classifiers)
    (hq : q.SeenAlike m m' place) : (resolver m' o (c.relocate place)).answer q
      = ((resolver m o c).answer q).map (·.relocate place) := by
  -- By induction on the requests that are asked: their chains are finite in the first program.
  induction acc_asks (o := o) hc q with
  | intro q _ ih =>
    rw [answer_eq_step hc, answer_eq_step (h.mem_classifiers hc)]
    exact h.step_eq hc hq fun s q' hasks => ih q' ⟨s, hasks⟩ (hasks.seenAlike h hc hq)

end Model.Relocates

end Wiring
