import Wiring.Proofs.Component.Caches

/-!
# Nothing is nested inside itself

On a way down a plan no member, constructor or function is called twice, and none of them is the
requirement that the plan is for. A cache, a collection and a lazy value put nothing on the path of
resolution, so the way down a plan and the path are compared by what they enter: what is called on a
way down is not on the path of the request that the plan answers. So the binding whose cache entry
is being filled is not built again below, under any key.
-/

namespace Wiring

namespace Plan

/-- The element that a plan calls by itself. -/
def element? : Plan → Option Element
  | call _ f _ => some f.element
  | extensionCall _ f _ _ => some f.element
  | construct k _ => some k.element
  | namedFunction f _ _ => some f.element
  | _ => none

/-- A way down a plan from its root to a leaf. -/
inductive Branch : Plan → List Plan → Prop where
  | leaf {plan : Plan} (h : plan.children = []) : Branch plan [plan]
  | down {plan child : Plan} {branch : List Plan} (hchild : child ∈ plan.children)
      (h : Branch child branch) : Branch plan (plan :: branch)

/-- The identities of what is called on a way down. -/
def called (branch : List Plan) : List ElementId :=
  (branch.filterMap element?).map (·.id)

/-- A part that calls nothing adds nothing to what is called on a branch. -/
theorem called_cons_none {plan : Plan} (h : plan.element? = none) (branch : List Plan) :
    called (plan :: branch) = called branch := by
  rw [called, List.filterMap_cons_none h, called]

/-- A part that calls something adds it to what is called on a branch. -/
theorem called_cons_some {plan : Plan} {e : Element} (h : plan.element? = some e)
    (branch : List Plan) : called (plan :: branch) = e.id :: called branch := by
  rw [called, List.filterMap_cons_some h, List.map_cons, called]

end Plan

namespace Resolver

variable {r : Resolver} {answer : Request → Except Failure Plan} {q q' : Request} {plan : Plan}
  {branch : List Plan} {path : ResolutionPath}

/-- What is called on a way down is called once, and is not on the path. -/
structure Clear (path : ResolutionPath) (branch : List Plan) : Prop where
  once : (Plan.called branch).Nodup
  fresh : ∀ i ∈ Plan.called branch, i ∉ path.elements.map (·.id)

namespace Clear

/-- Nothing is called on an empty branch. -/
theorem nil : Clear path [] := ⟨.nil, fun _ h => absurd h List.not_mem_nil⟩

/-- A plan that calls nothing by itself stands on the path of what is below it. -/
theorem through (h : Clear path branch) (he : plan.element? = none) :
    Clear path (plan :: branch) := by
  have hcalled := Plan.called_cons_none he branch
  constructor
  · rw [hcalled]
    exact h.once
  · rw [hcalled]
    exact h.fresh

/-- What is below an element that was entered is clear of it, so it may be called above. -/
theorem entered {e : Element} (h : Clear ⟨e :: path.elements⟩ branch)
    (hfresh : e.id ∉ path.elements.map (·.id))
    (he : plan.element? = none ∨ plan.element? = some e) : Clear path (plan :: branch) := by
  have hrest : ∀ i ∈ Plan.called branch, i ≠ e.id ∧ i ∉ path.elements.map (·.id) := by
    intro i hi
    have hnot := h.fresh i hi
    rw [List.map_cons, List.mem_cons, not_or] at hnot
    exact hnot
  rcases he with he | he
  · exact through ⟨h.once, fun i hi => (hrest i hi).2⟩ he
  · have hcalled := Plan.called_cons_some he branch
    constructor
    · rw [hcalled]
      exact List.nodup_cons.2 ⟨fun hmem => (hrest e.id hmem).1 rfl, h.once⟩
    · intro i hi
      rw [hcalled] at hi
      rcases List.mem_cons.1 hi with rfl | hi
      · exact hfresh
      · exact (hrest i hi).2

end Clear

/-- The plan of a subject calls the element of the subject; that of a lambda calls nothing. -/
theorem element?_subject_plan (scope : Option String) (plans : List Plan) (s : Subject) :
    (s.plan scope plans).element? = none ∨ (s.plan scope plans).element? = some s.element := by
  cases s with
  | member p =>
    rw [Subject.plan]
    cases p.callable.receiver <;> exact .inr rfl
  | constructor k => exact .inr rfl
  | lambda type types result => exact .inl rfl
  | function f types => exact .inr rfl

/-- The ways down the plan of a subject are clear of the path when those below it are. -/
theorem clear_of_visit {c : Context} {s : Subject} (hv : r.visit answer c s = .ok plan)
    (hneeds : ∀ context, c.enter? s.element = some context → ∀ q ∈ r.needs context s,
      ∀ inner rest, answer q = .ok inner → inner.Branch rest → Clear q.context.path rest)
    (hb : plan.Branch branch) : Clear c.path branch := by
  obtain ⟨context, plans, he, hplans, rfl⟩ := visit_eq_ok_iff.1 hv
  obtain ⟨hfresh, hpath, _⟩ := Context.enter?_eq_some he
  have helement := element?_subject_plan context.parentScope plans s
  cases hb with
  | leaf => exact Clear.entered .nil hfresh helement
  | @down _ child rest hchild hrest =>
    rw [children_subject_plan hplans] at hchild
    obtain ⟨q', hq', ha⟩ := mem_of_mapM_eq_ok (mapM_eq_ok_iff.2 hplans) hchild
    have hclear := hneeds context he q' hq' child rest ha hrest
    have hpath : q'.context.path = ⟨s.element :: c.path.elements⟩ := by
      rw [path_of_mem_needs hq', ← hpath]
    rw [hpath] at hclear
    exact hclear.entered hfresh helement

section Component

variable {m : Model} {o : Options} {c : Classifier} {part : Plan} {filled : Option Key}
  {parent : Option Plan} {b b' : Binding}

/-- What is called on a way down the plan that answers a request is called once, and is not on the
path of the request. -/
theorem clear_of_answer (hc : c ∈ m.classifiers) (q : Request) :
    ∀ plan branch, (Component.resolver m o c).answer q = .ok plan → plan.Branch branch →
      Clear q.context.path branch := by
  -- By induction on what is asked: an element that is entered is on the path of all below it.
  induction acc_asks (o := o) hc q with
  | intro q _ ih =>
    intro plan branch ha hb
    rw [answer_eq_step hc] at ha
    have hvisit : ∀ {candidate : Candidate} {s : Subject} {p : Plan} {rest : List Plan},
        (Component.resolver m o c).candidate q.key q.context q.fromEnd = .ok (some candidate) →
        .enter s ∈ candidate.tasks q.key q.context →
        (Component.resolver m o c).visit (Component.resolver m o c).answer q.context s = .ok p →
        p.Branch rest → Clear q.context.path rest := fun hcand ht hv =>
      clear_of_visit hv fun _ he q' hq' inner rest => ih q' ⟨_, .inside hcand ht he hq'⟩ inner rest
    cases stepped_of_step ha with
    | arg =>
      cases hb with
      | leaf => exact Clear.nil.through rfl
      | down hchild => exact absurd hchild List.not_mem_nil
    | @cached owner inner hcand hin =>
      cases hb with
      | down hchild hrest =>
        rw [List.mem_singleton.1 hchild] at hrest
        have hasks : (Component.resolver m o c).Asks q none
            ⟨q.key, q.context.withoutScoped q.key.type, none⟩ :=
          .onward hcand (List.mem_singleton.2 rfl)
        exact (ih _ ⟨none, hasks⟩ _ _ hin hrest).through rfl
      | leaf h => cases h
    | @lazy key inner hcand hin =>
      cases hb with
      | down hchild hrest =>
        rw [List.mem_singleton.1 hchild] at hrest
        have hasks : (Component.resolver m o c).Asks q none ⟨key, q.context, none⟩ :=
          .onward hcand (List.mem_singleton.2 rfl)
        exact (ih _ ⟨none, hasks⟩ _ _ hin hrest).through rfl
      | leaf h => cases h
    | visited hcand ht hv => exact hvisit hcand (ht ▸ List.mem_singleton.2 rfl) hv hb
    | container hcand hv =>
      cases hb with
      | leaf => exact Clear.nil.through rfl
      | down hchild hrest =>
        obtain ⟨p, hp, hpart⟩ := mem_of_mapM_eq_ok (mapM_eq_ok_iff.2 hv) hchild
        exact (hvisit hcand (List.mem_map.2 ⟨p, hp, rfl⟩) hpart hrest).through rfl

/-- A node below the request that fills the entry of a binding has a subject of the binding on its
path. -/
theorem PlanNode.subject_on_path (hf : (Component.resolver m o c).Finds q.key q.context q.fromEnd b)
    (h : PlanNode (Component.resolver m o c) q.entry q' part filled parent) :
    (q' = q.entry ∧ parent = none)
      ∨ ∃ s ∈ b.subjects, s.element.id ∈ q'.context.path.elements.map (·.id) := by
  induction h with
  | root => exact .inl ⟨rfl, rfl⟩
  | asked _ hq _ ih =>
    rw [hq.carries.1, List.map_append]
    rcases ih with ⟨rfl, _⟩ | ⟨s, hs, hon⟩
    · obtain ⟨t, ht, rfl⟩ := hf.entry.entered rfl hq
      exact .inr ⟨t, ht, List.mem_append.2 (.inl (List.mem_singleton.2 rfl))⟩
    · exact .inr ⟨s, hs, List.mem_append.2 (.inr hon)⟩

/-- What fills the entry of a cache is not taken from a cache. -/
theorem isCached_of_entry (hc : c ∈ m.classifiers)
    (ha : (Component.resolver m o c).answer q.entry = .ok part) : part.isCached = false := by
  rw [answer_eq_step hc] at ha
  rcases cached_of_step ha with ⟨hu, _⟩ | ⟨owner, _, hcand, _⟩
  · exact hu
  · obtain ⟨_, _, _, hne⟩ := finds_of_cached hcand
    exact absurd rfl hne

/-- Where the value of a binding is found, none of the subjects of the binding is on the path. -/
theorem Finds.fresh_of_answer (hc : c ∈ m.classifiers)
    (hf : (Component.resolver m o c).Finds q.key q.context q.fromEnd b)
    (ha : (Component.resolver m o c).answer q = .ok plan) {s : Subject} (hs : s ∈ b.subjects) :
    s.element.id ∉ q.context.path.elements.map (·.id) := by
  rw [answer_eq_step hc] at ha
  have hcand := hf.candidate
  rcases ofBinding_cases q.key q.context b with ⟨he, _⟩ | ⟨owner, _, he, _⟩
  · rw [he] at hcand
    exact fresh_of_unscoped hcand ha hs
  · rw [he] at hcand
    rcases cached_of_step ha with ⟨_, hnot⟩ | ⟨_, inner, _, hin, _⟩
    · exact absurd hcand (hnot owner)
    · rw [answer_eq_step hc] at hin
      exact hf.entry.fresh rfl hin hs

end Component

end Resolver

namespace Catalogue

open Collect

variable {m : Model} {o : Options} {c : Classifier} {key key' : Key} {b b' : Binding}

/-- Bindings that are the same enter the same elements. -/
theorem exists_subject_of_same (hc : c ∈ m.classifiers) (h : Binds m o (collect m o c) key b)
    (h' : Binds m o (collect m o c) key' b') (hsame : b.Same b') {s : Subject}
    (hs : s ∈ b.subjects) : ∃ s' ∈ b'.subjects, s'.element.id = s.element.id := by
  cases b with
  | constructor k scope =>
    cases b' with
    | constructor k' scope' =>
      obtain rfl := List.mem_singleton.1 hs
      refine ⟨_, List.mem_singleton.2 rfl, ?_⟩
      cases h with
      | constructed _ hcls _ hk =>
        cases h' with
        | constructed _ hcls' _ hk' =>
          obtain ⟨hindex, hid⟩ := Model.constructor_of_mem_classifiers hk
          obtain ⟨hindex', hid'⟩ := Model.constructor_of_mem_classifiers hk'
          have hplace := hindex.symm.trans (Eq.trans hsame hindex')
          obtain rfl := Model.eq_of_index (Model.mem_classifiers_of_classOf hcls)
            (Model.mem_classifiers_of_classOf hcls') hplace
          exact hid'.trans hid.symm
    | _ => exact hsame.elim
  | provider p =>
    cases b' with
    | provider p' =>
      obtain rfl := List.mem_singleton.1 hs
      refine ⟨_, List.mem_singleton.2 rfl, ?_⟩
      have hcallable := Model.eq_of_origin_callables (h.of_provider hc).1 (h'.of_provider hc).1
        hsame.1
      rw [Subject.element, Subject.element, hcallable]
    | _ => exact hsame.elim
  | container k =>
    cases b' with
    | container k' =>
      obtain ⟨p, hp, rfl⟩ := List.mem_map.1 hs
      obtain ⟨p', hp', horigin⟩ := hsame.exists_part hp
      have hcallable := Model.eq_of_origin_callables (h'.of_part hc hp').1 (h.of_part hc hp).1
        horigin
      refine ⟨.member p', List.mem_map.2 ⟨p', hp', rfl⟩, ?_⟩
      rw [Subject.element, Subject.element, hcallable]
    | _ => exact hsame.elim

end Catalogue

namespace Component

/-- No binding is nested inside itself in the plans of a component. -/
structure NothingNested (m : Model) (o : Options) (c : Classifier) : Prop where
  /-- On a way down the plan of a requirement, what is called is called once, and is not the
  requirement. -/
  once : ∀ p ∈ (plan m o c).providers, ∀ branch, p.plan.Branch branch →
    (p.callable.element.id :: Plan.called branch).Nodup
  /-- What is taken from a cache, below what fills the entry of a cache, is of another binding. -/
  entries : ∀ q whole filled parent b q' part filled' parent' b',
    Node m o c q whole filled parent → whole.isCached = true →
    (resolver m o c).Finds q.key q.context q.fromEnd b →
    (resolver m o c).PlanNode q.entry q' part filled' parent' → part.isCached = true →
    (resolver m o c).Finds q'.key q'.context q'.fromEnd b' → ¬ b.Same b'
  /-- Whatever is built there, other than what fills the entry, is of another binding too. -/
  built : ∀ (q : Request) b q' part filled' above b',
    (resolver m o c).Finds q.key q.context q.fromEnd b →
    (resolver m o c).PlanNode q.entry q' part filled' (some above) →
    (resolver m o c).Finds q'.key q'.context q'.fromEnd b' → ¬ b.Same b'
  /-- A plan that takes its value from a cache, anywhere inside another one, is such a node. -/
  covered : ∀ p ∈ (plan m o c).providers, ∀ accessor owner name inner,
    (Plan.cached accessor owner name inner).Within p.plan → ∀ part, part.Within inner →
    part.isCached = true → ∃ q filled parent b q' filled' parent' b',
      Node m o c q (.cached accessor owner name inner) filled parent ∧
      (resolver m o c).Finds q.key q.context q.fromEnd b ∧
      (resolver m o c).PlanNode q.entry q' part filled' parent' ∧
      (resolver m o c).Finds q'.key q'.context q'.fromEnd b'

variable {m : Model} {o : Options} {c : Classifier} {q q' : Request} {b b' : Binding}

/-- The binding that is built while its entry is being filled is not met again below. -/
theorem not_same_of_on_path (hc : c ∈ m.classifiers)
    (hf : (resolver m o c).Finds q.key q.context q.fromEnd b)
    (hf' : (resolver m o c).Finds q'.key q'.context q'.fromEnd b') {part : Plan}
    (ha : (resolver m o c).answer q' = .ok part) {s : Subject} (hs : s ∈ b.subjects)
    (hon : s.element.id ∈ q'.context.path.elements.map (·.id)) : ¬ b.Same b' := by
  intro hsame
  obtain ⟨s', hs', hid⟩ := Catalogue.exists_subject_of_same hc
    (Catalogue.binds_of_resolve hf.found) (Catalogue.binds_of_resolve hf'.found) hsame hs
  rw [← hid] at hon
  exact hf'.fresh_of_answer hc ha hs' hon

/-- Nothing is nested inside itself, in all plans of all components. -/
theorem nothingNested (m : Model) (o : Options) (c : Classifier) (hc : c ∈ m.classifiers) :
    NothingNested m o c where
  once p hp branch hb := by
    have hclear := Resolver.clear_of_answer hc _ _ _ (answer_of_mem_providers hp) hb
    refine List.nodup_cons.2 ⟨fun hmem => ?_, hclear.once⟩
    exact hclear.fresh _ hmem (List.mem_singleton.2 rfl)
  entries q whole filled parent b q' part filled' parent' b' _ _ hf hn hcached hf' := by
    rcases hn.subject_on_path hf with ⟨rfl, _⟩ | ⟨s, hs, hon⟩
    · rw [Resolver.isCached_of_entry hc hn.answer_eq] at hcached
      cases hcached
    · exact not_same_of_on_path hc hf hf' hn.answer_eq hs hon
  built q b q' part filled' above b' hf hn hf' := by
    rcases hn.subject_on_path hf with ⟨_, hroot⟩ | ⟨s, hs, hon⟩
    · cases hroot
    · exact not_same_of_on_path hc hf hf' hn.answer_eq hs hon
  covered p hp accessor owner name inner hwhole part hpart hcached := by
    obtain ⟨q, filled, parent, hn⟩ := node_of_within hc hp hwhole rfl
    have hn' := hn
    obtain ⟨p', _, hnode⟩ := hn'
    obtain ⟨b, _, hf, _, _, _, _, hin⟩ := hnode.of_cached hc
    obtain ⟨q', filled', parent', hbelow⟩ := Resolver.exists_cached_of_within hc hin hpart hcached
    rcases Resolver.cached_of_step (hbelow.step_eq hc) with ⟨hu, _⟩ | ⟨owner', _, hcand, _⟩
    · rw [hcached] at hu
      cases hu
    · obtain ⟨b', hf', _⟩ := Resolver.finds_of_cached hcand
      exact ⟨q, filled, parent, b, q', filled', parent', b', hn, hf, hbelow, hf'⟩

/-- A loft that keeps its lamp, and the bulb of the lamp. -/
def loft : ClassDecl :=
  Sketch.component "Loft" ["app.Single"] [] [Sketch.requirement "lamp" (Sketch.type "Lamp") []]

/-- The program of the loft. -/
def loftProgram : Model :=
  Sketch.program [loft,
    Sketch.injectable "Lamp" ["app.Single"] [Sketch.param "bulb" (Sketch.type "Bulb") []],
    Sketch.injectable "Bulb" ["app.Single"] []]

/-- The loft keeps its lamp with the bulb inside, each of them once on the branch. -/
theorem nothingNested_loft : ⟨0, loft, false⟩ ∈ loftProgram.classifiers ∧
    (plan loftProgram {} ⟨0, loft, false⟩).providers.map (·.plan.displayText)
      = ["Scoped(Constructor(app.Lamp, Scoped(Constructor(app.Bulb))))"] ∧
    NothingNested loftProgram {} ⟨0, loft, false⟩ := by
  have hc : ⟨0, loft, false⟩ ∈ loftProgram.classifiers := Model.mem_classifiers.2 ⟨rfl, rfl⟩
  exact ⟨hc, by decide +kernel, nothingNested loftProgram {} ⟨0, loft, false⟩ hc⟩

end Component

end Wiring
