import Mathlib.Data.List.Nodup
import Wiring.Proofs.Component.Requirements
import Wiring.Proofs.Model.Identity
import Wiring.Proofs.Resolve.Stops
import Wiring.Proofs.Sketch

/-!
# Genuine cycles

A cycle is genuine when the very thing that is being resolved is needed again: the same member on
the same component, the constructor of the same class, the same function, or a lambda of the same
type. On the path things are told apart by their identity, which is the written path of a member
or function and the displayed form of a type, so different things may look alike. Planning reports
genuine cycles only exactly when it never stops at a thing that looks like one being resolved and
is another.
-/

namespace Wiring

namespace Subject

/-- What sort of thing a subject is. -/
def kind : Subject → ElementKind
  | member _ => .member
  | constructor _ => .constructor
  | lambda .. => .type
  | function .. => .function

/-- Two subjects are the very same thing. -/
def Same : Subject → Subject → Prop
  | member p, member p' => p.callable.origin = p'.callable.origin ∧ p.accessor = p'.accessor
  | constructor k, constructor k' => k.classIndex = k'.classIndex
  | lambda type _ _, lambda type' _ _ => type = type'
  | function f _, function f' _ => f.origin = f'.origin
  | _, _ => False

/-- Two subjects are different things with one identity. -/
inductive Lookalike : Subject → Subject → Prop where
  /-- Different members with one path text, or one member on different components. -/
  | members {p p' : Provider} (h : p.callable.element.id.path = p'.callable.element.id.path)
      (hne : p.callable.origin ≠ p'.callable.origin ∨ p.accessor ≠ p'.accessor) :
      Lookalike (member p) (member p')
  /-- Different function types that are displayed in one way. -/
  | lambdas {type type' : TypeExpr} {types types' result result'}
      (h : type.displayText = type'.displayText) (hne : type ≠ type') :
      Lookalike (lambda type types result) (lambda type' types' result')
  /-- Different functions with one path text. -/
  | functions {f f' : Callable} {types types'} (h : f.element.id.path = f'.element.id.path)
      (hne : f.origin ≠ f'.origin) : Lookalike (function f types) (function f' types')

/-- A lookalike is never the same thing. -/
theorem Lookalike.not_same {t s : Subject} (h : Lookalike t s) : ¬ t.Same s := by
  cases h with
  | members _ hne =>
    rintro ⟨ho, ha⟩
    rcases hne with hne | hne
    · exact hne ho
    · exact hne ha
  | lambdas _ hne => exact hne
  | functions _ hne => exact hne

variable {m : Model} {key key' : Key} {t s : Subject}

/-- The kind of the identity of a declared subject tells what sort of thing it is. -/
theorem Declared.kind_eq (h : s.Declared m key) : s.element.id.kind = s.kind := by
  cases h with
  | member h => exact Model.kind_of_mem_callables h
  | constructor _ hk => exact congrArg ElementId.kind (Model.constructor_of_mem_classifiers hk).2
  | lambda => rfl
  | function h => exact Model.kind_of_mem_functions h

/-- The same declared things have the same element. -/
theorem Same.element_eq (h : t.Same s) (ht : t.Declared m key) (hs : s.Declared m key') :
    t.element = s.element := by
  cases ht with
  | member ht =>
    cases hs with
    | member hs =>
      have heq := Model.eq_of_origin_callables ht hs h.1
      rw [element, element, heq]
    | _ => cases h
  | constructor hc hk =>
    cases hs with
    | constructor hc' hk' =>
      have hindex := (Model.constructor_of_mem_classifiers hk).1.symm.trans
        (h.trans (Model.constructor_of_mem_classifiers hk').1)
      obtain rfl := Model.eq_of_index hc hc' hindex
      rw [hk] at hk'
      cases hk'
      rfl
    | _ => cases h
  | lambda =>
    cases hs with
    | lambda => exact congrArg Element.ofType h
    | _ => cases h
  | function ht =>
    cases hs with
    | function hs =>
      have heq := Model.eq_of_origin_functions ht hs h
      rw [element, element, heq]
    | _ => cases h

/-- Lookalikes that are declared have one identity. -/
theorem Lookalike.id_eq (h : t.Lookalike s) (ht : t.Declared m key) (hs : s.Declared m key') :
    t.element.id = s.element.id := by
  have hof : t.kind = s.kind ∧ t.element.id.path = s.element.id.path := by
    cases h with
    | members h => exact ⟨rfl, h⟩
    | lambdas h => exact ⟨rfl, h⟩
    | functions h => exact ⟨rfl, h⟩
  have hkind : t.element.id.kind = s.element.id.kind := by rw [ht.kind_eq, hs.kind_eq, hof.1]
  cases hi : t.element.id
  cases hi' : s.element.id
  simp_all

/-- Declared things with one identity are the same thing or lookalikes. -/
theorem same_or_lookalike (hd : m.DistinctNames) (ht : t.Declared m key) (hs : s.Declared m key')
    (h : t.element.id = s.element.id) : t.Same s ∨ Lookalike t s := by
  have hkind := congrArg ElementId.kind h
  rw [ht.kind_eq, hs.kind_eq] at hkind
  have hpath := congrArg ElementId.path h
  cases ht with
  | @member p ht =>
    cases hs with
    | @member p' hs =>
      by_cases ho : p.callable.origin = p'.callable.origin
      · by_cases ha : p.accessor = p'.accessor
        · exact .inl ⟨ho, ha⟩
        · exact .inr (.members hpath (.inr ha))
      · exact .inr (.members hpath (.inl ho))
    | _ => cases hkind
  | constructor hc hk =>
    cases hs with
    | constructor hc' hk' =>
      have heq := hd.eq_of_constructor_id hc hc' hk hk' h
      refine .inl ?_
      rw [Same, (Model.constructor_of_mem_classifiers hk).1,
        (Model.constructor_of_mem_classifiers hk').1, heq]
    | _ => cases hkind
  | lambda =>
    cases hs with
    | lambda =>
      by_cases he : key.type = key'.type
      · exact .inl he
      · exact .inr (.lambdas hpath he)
    | _ => cases hkind
  | @function f _ ht =>
    cases hs with
    | @function f' _ hs =>
      by_cases ho : f.origin = f'.origin
      · exact .inl ho
      · exact .inr (.functions hpath ho)
    | _ => cases hkind

end Subject

namespace Resolver

/-- The subjects of a trail are declared and have distinct identities. -/
structure Entered (m : Model) (trail : List Subject) : Prop where
  declared : ∀ t ∈ trail, ∃ key, t.Declared m key
  nodup : (trail.map fun t => t.element.id).Nodup

variable {m : Model} {o : Options} {c : Classifier} {trail stopped : List Subject} {q : Request}
  {s : Subject}

/-- The identities on the path are those of what is being resolved. -/
theorem OnPath.ids {context : Context} (h : OnPath trail context) :
    context.path.elements.map (·.id) = trail.map fun t => t.element.id := by
  rw [h, List.map_map]
  rfl

/-- Resolution stops at a declared subject whose identity is on the trail. -/
theorem StopsAt.entered (hc : c ∈ m.classifiers)
    (h : (Component.resolver m o c).StopsAt trail q stopped s) (hp : OnPath trail q.context)
    (ht : Entered m trail) :
    Entered m stopped ∧ (∃ key, s.Declared m key) ∧
      s.element.id ∈ stopped.map fun t => t.element.id := by
  induction h with
  | @here trail q candidate done s rest hcand htasks _ he =>
    have hmem : .enter s ∈ candidate.tasks q.key q.context := mem_of_split htasks
    refine ⟨ht, ⟨q.key, declared_of_enter_mem_tasks hc hcand hmem⟩, ?_⟩
    rw [← hp.ids]
    exact Context.enter?_eq_none_iff.1 he
  | @inside trail q candidate done t rest context met q' later stopped s hcand htasks _ he hn _ _
      ih =>
    have hmem : .enter t ∈ candidate.tasks q.key q.context := mem_of_split htasks
    have hneed : q' ∈ (Component.resolver m o c).needs context t := mem_of_split hn
    refine ih ((hp.enter he).needs hneed) ⟨?_, ?_⟩
    · intro u hu
      rcases List.mem_cons.1 hu with rfl | hu
      · exact ⟨q.key, declared_of_enter_mem_tasks hc hcand hmem⟩
      · exact ht.declared u hu
    · rw [List.map_cons, List.nodup_cons, ← hp.ids]
      refine ⟨(Context.enter?_eq_some he).1, ?_⟩
      rw [hp.ids]
      exact ht.nodup
  | @onward trail q candidate done q' rest stopped s _ htasks _ _ ih =>
    have hmem : .ask q' ∈ candidate.tasks q.key q.context := mem_of_split htasks
    refine ih ?_ ht
    rw [OnPath, path_of_ask_mem_tasks hmem]
    exact hp

end Resolver

namespace Component

/-- Planning stops at the attempt to enter `s` when the subjects of `trail` are being resolved: the
requirement it is at comes last in the trail, and the requirements before it are met. -/
inductive StopsAt (m : Model) (o : Options) (c : Classifier) (trail : List Subject) (s : Subject) :
    Prop where
  | requirement {met f rest} (hi : invalid? c = none)
      (hr : (Catalogue.collect m o c).requirementMembers = met ++ f :: rest)
      (hm : ∀ g ∈ met, ∃ plan, (resolver m o c).answer (request (resolver m o c) c g) = .ok plan)
      (hs : (resolver m o c).StopsAt [.member ⟨f, none, none⟩] (request (resolver m o c) c f)
        trail s) : StopsAt m o c trail s

/-- Planning reports a cycle only when it stops at the very thing that is being resolved, and then
it shows the things being resolved and the one attempted. -/
def CyclesAreGenuine (m : Model) (o : Options) (c : Classifier) : Prop :=
  ∀ trace e, (plan m o c).failure = some (.cycle trace e) →
    ∃ trail s, StopsAt m o c trail s ∧ trace = (trail.map fun t => t.element.trace) ∧
      e = s.element ∧ ∃ t ∈ trail, t.Same s

variable {m : Model} {o : Options} {c : Classifier} {trail trail' : List Subject} {s s' : Subject}

/-- A requirement is resolved on the path of itself alone. -/
theorem onPath_request (r : Resolver) (c : Classifier) (f : Callable) :
    Resolver.OnPath [.member ⟨f, none, none⟩] (request r c f).context := rfl

/-- A requirement of a component of the program is declared there. -/
theorem entered_requirement (hc : c ∈ m.classifiers) {f : Callable}
    (hf : f ∈ (Catalogue.collect m o c).requirementMembers) :
    Resolver.Entered m [.member ⟨f, none, none⟩] := by
  obtain ⟨l, hl, key, hoffers, _⟩ := Catalogue.offers_of_mem_requirementMembers hf
  refine ⟨fun t ht => ?_, List.nodup_singleton _⟩
  rw [List.mem_singleton.1 ht]
  exact ⟨key, .member (Catalogue.mem_callables_of_mem_levels hc hl hoffers.member)⟩

/-- Planning stops at a declared subject whose identity is on the trail, which has no other thing
of that identity. -/
theorem StopsAt.entered (hc : c ∈ m.classifiers) (h : StopsAt m o c trail s) :
    Resolver.Entered m trail ∧ (∃ key, s.Declared m key) ∧
      s.element.id ∈ trail.map fun t => t.element.id := by
  cases h with
  | @requirement met f rest _ hr _ hs =>
    have hf : f ∈ (Catalogue.collect m o c).requirementMembers := mem_of_split hr
    exact hs.entered hc (onPath_request _ c f) (entered_requirement hc hf)

/-- Planning stops in one place. -/
theorem StopsAt.unique (hc : c ∈ m.classifiers) (h : StopsAt m o c trail s)
    (h' : StopsAt m o c trail' s') : trail = trail' ∧ s = s' := by
  cases h with
  | @requirement met f rest _ hr hm hs =>
    cases h' with
    | @requirement met' f' rest' _ hr' hm' hs' =>
      have hfail : ∀ {g trail s}, (resolver m o c).StopsAt [.member ⟨g, none, none⟩]
          (request (resolver m o c) c g) trail s →
          ¬ ∃ plan, (resolver m o c).answer (request (resolver m o c) c g) = .ok plan := by
        rintro g trail s hstops ⟨plan, hplan⟩
        rw [hstops.answer hc (onPath_request _ c g)] at hplan
        cases hplan
      obtain ⟨_, rfl, _⟩ := split_unique hr hr' hm hm' (hfail hs) (hfail hs')
      exact hs.unique hc hs' (onPath_request _ c f)

/-- Planning fails with a cycle exactly when it stops somewhere. -/
theorem failure_eq_cycle_iff (hc : c ∈ m.classifiers) {trace : List String} {e : Element} :
    (plan m o c).failure = some (.cycle trace e) ↔ ∃ trail s, StopsAt m o c trail s ∧
      trace = (trail.map fun t => t.element.trace) ∧ e = s.element := by
  rw [failure_eq_some_iff, planRequirements_eq_error_iff]
  constructor
  · rintro (hi | ⟨hi, met, f, rest, hr, hm, hf⟩)
    · obtain ⟨_, he⟩ := exists_of_invalid? hi
      cases he
    · obtain ⟨trail, s, hs, htrace, he⟩ := Resolver.stopsAt_of_cycle hc hf (onPath_request _ c f)
      exact ⟨trail, s, .requirement hi hr hm hs, htrace, he⟩
  · rintro ⟨trail, s, hs, rfl, rfl⟩
    cases hs with
    | @requirement met f rest hi hr hm hs =>
      exact .inr ⟨hi, met, f, rest, hr, hm, hs.answer hc (onPath_request _ c f)⟩

/-- Planning reports genuine cycles only, exactly when it never stops at a lookalike of something
that is being resolved. -/
theorem cyclesAreGenuine_iff (m : Model) (o : Options) (c : Classifier) (hd : m.DistinctNames)
    (hc : c ∈ m.classifiers) : CyclesAreGenuine m o c ↔
      ∀ trail s, StopsAt m o c trail s → ∀ t ∈ trail, ¬ t.Lookalike s := by
  constructor
  · intro h trail s hs t ht hl
    obtain ⟨trail', s', hs', _, _, t', ht', hsame⟩ :=
      h _ _ ((failure_eq_cycle_iff hc).2 ⟨trail, s, hs, rfl, rfl⟩)
    obtain ⟨rfl, rfl⟩ := hs.unique hc hs'
    obtain ⟨hentered, ⟨key, hdeclared⟩, _⟩ := hs.entered hc
    obtain ⟨key', hdeclared'⟩ := hentered.declared t' ht'
    obtain ⟨key'', hdeclared''⟩ := hentered.declared t ht
    have hid : t.element.id = t'.element.id := by
      rw [hl.id_eq hdeclared'' hdeclared, hsame.element_eq hdeclared' hdeclared]
    obtain rfl := List.inj_on_of_nodup_map hentered.nodup ht ht' hid
    exact hl.not_same hsame
  · intro h trace e hf
    obtain ⟨trail, s, hs, htrace, he⟩ := (failure_eq_cycle_iff hc).1 hf
    obtain ⟨hentered, ⟨key, hdeclared⟩, hmem⟩ := hs.entered hc
    obtain ⟨t, ht, hid⟩ := List.mem_map.1 hmem
    obtain ⟨key', hdeclared'⟩ := hentered.declared t ht
    refine ⟨trail, s, hs, htrace, he, t, ht, ?_⟩
    rcases Subject.same_or_lookalike hd hdeclared' hdeclared hid with hsame | hl
    · exact hsame
    · exact absurd hl (h trail s hs t ht)

/-- A component with a class that needs another one, which needs the first. -/
def loop : ClassDecl :=
  Sketch.component "Loop" [] [] [Sketch.requirement "hen" (Sketch.type "Hen") []]

/-- The program of the loop. -/
def loopProgram : Model :=
  Sketch.program [loop, Sketch.injectable "Hen" [] [Sketch.param "egg" (Sketch.type "Egg") []],
    Sketch.injectable "Egg" [] [Sketch.param "hen" (Sketch.type "Hen") []]]

/-- In the loop a cycle is reported, and whether it is genuine depends on what stops it. -/
theorem cyclesAreGenuine_iff_loop : loopProgram.DistinctNames ∧
    ⟨0, loop, false⟩ ∈ loopProgram.classifiers ∧
    (plan loopProgram {} ⟨0, loop, false⟩).failure.map (·.code) = some "E0003" ∧
    (CyclesAreGenuine loopProgram {} ⟨0, loop, false⟩ ↔ ∀ trail s,
      StopsAt loopProgram {} ⟨0, loop, false⟩ trail s → ∀ t ∈ trail, ¬ t.Lookalike s) := by
  have hd : loopProgram.DistinctNames := by
    rw [Model.DistinctNames]
    decide +kernel
  have hc : ⟨0, loop, false⟩ ∈ loopProgram.classifiers := Model.mem_classifiers.2 ⟨rfl, rfl⟩
  exact ⟨hd, hc, by decide +kernel, cyclesAreGenuine_iff loopProgram {} ⟨0, loop, false⟩ hd hc⟩

/-- A genuine cycle shows the thing attempted among those being resolved. -/
theorem trace_mem_of_cyclesAreGenuine (hc : c ∈ m.classifiers) (h : CyclesAreGenuine m o c)
    {trace : List String} {e : Element} (hf : (plan m o c).failure = some (.cycle trace e)) :
    e.trace ∈ trace := by
  obtain ⟨trail, s, hs, rfl, rfl, t, ht, hsame⟩ := h trace e hf
  obtain ⟨hentered, ⟨key, hdeclared⟩, _⟩ := hs.entered hc
  obtain ⟨key', hdeclared'⟩ := hentered.declared t ht
  rw [← hsame.element_eq hdeclared' hdeclared]
  exact List.mem_map.2 ⟨t, ht, rfl⟩

/-- A component with two extensions of one name, on the two classes that stand behind its
interfaces. One of these classes needs the other interface. -/
def binder : ClassDecl :=
  Sketch.component "Binder" [] [] [Sketch.requirement "foo" (Sketch.type "Foo") [],
    Sketch.extension "bind" (Sketch.type "FooImpl") (Sketch.type "Foo") [],
    Sketch.extension "bind" (Sketch.type "BarImpl") (Sketch.type "Bar") []]

/-- The program of the binder. -/
def binderProgram : Model :=
  Sketch.program [binder, Sketch.plain "Foo", Sketch.plain "Bar",
    Sketch.injectable "FooImpl" [] [Sketch.param "bar" (Sketch.type "Bar") []],
    Sketch.injectable "BarImpl" [] []]

/-- The second extension is taken for the first. -/
theorem not_cyclesAreGenuine_binder : binderProgram.DistinctNames ∧
    ⟨0, binder, false⟩ ∈ binderProgram.classifiers ∧
    ¬ CyclesAreGenuine binderProgram {} ⟨0, binder, false⟩ := by
  have hd : binderProgram.DistinctNames := by
    rw [Model.DistinctNames]
    decide +kernel
  have hc : ⟨0, binder, false⟩ ∈ binderProgram.classifiers := Model.mem_classifiers.2 ⟨rfl, rfl⟩
  refine ⟨hd, hc, fun h => ?_⟩
  have hf : (plan binderProgram {} ⟨0, binder, false⟩).failure = some (.cycle
      ["app.FooImpl(bar: app.Bar)", "app.Binder.bind: app.Foo", "app.Binder.foo: app.Foo"]
      (.make .member "app.Binder.bind" "app.Binder.bind: app.Bar" none)) := by
    decide +kernel
  have hmem := trace_mem_of_cyclesAreGenuine hc h hf
  exact absurd hmem (by decide +kernel)

end Component

end Wiring
