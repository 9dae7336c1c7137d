import Wiring.Proofs.Catalogue.Requirements
import Wiring.Proofs.Component.Requirements
import Wiring.Proofs.Sketch

/-!
# Traces of failures

The lines below a failure of resolution. They are a way through the object graph: the last one is a
requirement of the component, and each line before another one is what was selected for something
that the other one needs. At the end of the way is the request that could not be answered. This
holds wherever resolution fails, however much was answered before, since what is being resolved and
the source of a request are both those of the requests that it is asked by.
-/

namespace Wiring

namespace Resolver

variable {m : Model} {o : Options} {c : Classifier} {q : Request}

/-- A request that fails does so at a request that is asked on its behalf. -/
theorem exists_fails (hc : c ∈ m.classifiers) {e : Failure}
    (h : (Component.resolver m o c).answer q = .error e) :
    ∃ trail q', (Component.resolver m o c).AsksThrough q trail q' ∧
      (Component.resolver m o c).Fails q' e := by
  induction acc_asks (o := o) hc q with
  | intro q _ ih =>
    rw [answer_eq_step hc] at h
    rcases fails_or_asks h with hfails | ⟨s, q', hasks, ha⟩
    · exact ⟨[], q, .root, hfails⟩
    · obtain ⟨trail, q'', hthrough, hfails⟩ := ih q' ⟨s, hasks⟩ ha
      exact ⟨_, q'', hthrough.head hasks, hfails⟩

end Resolver

namespace Component

open Resolver

variable {m : Model} {o : Options} {c : Classifier}

/-- The elements on the way from a requirement through the subjects of a trail, the last one
first. -/
def pathFrom (f : Callable) (trail : List Subject) : List Element :=
  trail.map (·.element) ++ [f.element]

/-- A trace is the way from the first requirement that is not met to a request that is asked for
it. -/
structure Traced (m : Model) (o : Options) (c : Classifier) (f : Callable) (trail : List Subject)
    (q : Request) (trace : List String) : Prop where
  /-- The requirements before this one are met. -/
  requirement : ∃ met rest, (Catalogue.collect m o c).requirementMembers = met ++ f :: rest ∧
    ∀ g ∈ met, ∃ plan, (resolver m o c).answer (request (resolver m o c) c g) = .ok plan
  /-- The subjects of the trail are entered one for the other, each for something that the one after
  it needs, and the request is for something that the first one needs. -/
  asked : (resolver m o c).AsksThrough (request (resolver m o c) c f) trail q
  /-- They are the lines of the trace, after which comes the requirement. -/
  lines : trace = (pathFrom f trail).map (·.trace)

/-- The traces of failures are ways through the object graph that end where resolution fails. -/
structure TracesAreWays (m : Model) (o : Options) (c : Classifier) : Prop where
  /-- The element of the first line needs something that has the missing key. -/
  noBinding : ∀ key trace e, (plan m o c).failure = some (.noBinding key trace e) →
    ∃ f trail q, Traced m o c f trail q trace ∧ (pathFrom f trail).head? = some e ∧
      q.key = key ∧ (resolver m o c).candidate q.key q.context q.fromEnd = .ok none
  /-- The element of the first line needs an injectable class whose scope has no owner. -/
  unresolvableScope : ∀ type scope trace e,
    (plan m o c).failure = some (.unresolvableScope type scope trace e) →
    ∃ f trail q cls, Traced m o c f trail q trace ∧ (pathFrom f trail).head? = some e ∧
      q.key = ⟨type, none⟩ ∧ m.classOf type = some cls ∧ Role.isInjectClass m o cls = true ∧
      Role.scope? o (cls.annotations m) = some scope ∧
      (Catalogue.collect m o c).ownerOf? scope = none
  /-- What is selected for something that the element of the first line needs is on the way. -/
  cycle : ∀ trace e, (plan m o c).failure = some (.cycle trace e) →
    ∃ f trail q candidate s, Traced m o c f trail q trace ∧
      (resolver m o c).candidate q.key q.context q.fromEnd = .ok (some candidate) ∧
      .enter s ∈ candidate.tasks q.key q.context ∧ e = s.element ∧
      ∃ e' ∈ pathFrom f trail, e'.id = e.id

/-- A request that is asked for a requirement is made on the way from there, at its last
element. -/
theorem path_of_asked {r : Resolver} {f : Callable} {trail : List Subject} {q : Request}
    (h : r.AsksThrough (request r c f) trail q) :
    q.context.path.elements = pathFrom f trail ∧
      (pathFrom f trail).head? = some q.context.source := by
  refine ⟨h.elements, ?_⟩
  rw [h.source, pathFrom]
  cases trail <;> rfl

/-- Planning of a class that can be a component fails on the way from a requirement. -/
theorem exists_traced (hc : c ∈ m.classifiers) {e : Failure} (h : (plan m o c).failure = some e)
    (hvalid : ∀ message, e ≠ .invalidComponent message c.element) :
    ∃ f trail q, Traced m o c f trail q q.context.path.trace ∧ (resolver m o c).Fails q e ∧
      q.context.path.elements = pathFrom f trail ∧
      (pathFrom f trail).head? = some q.context.source := by
  rcases failure_eq_some_iff.1 h with hi | ⟨_, hplans⟩
  · obtain ⟨message, he⟩ := exists_of_invalid? hi
    exact absurd he (hvalid message)
  · obtain ⟨met, f, rest, hr, hm, ha⟩ := planRequirements_eq_error_iff.1 hplans
    obtain ⟨trail, q, hasked, hfails⟩ := exists_fails hc ha
    obtain ⟨hpath, hsource⟩ := path_of_asked hasked
    refine ⟨f, trail, q, ⟨⟨met, rest, hr, hm⟩, hasked, ?_⟩, hfails, hpath, hsource⟩
    rw [ResolutionPath.trace, hpath]

/-- Traces of failures are ways through the object graph, for all components. -/
theorem tracesAreWays (m : Model) (o : Options) (c : Classifier) (hc : c ∈ m.classifiers) :
    TracesAreWays m o c where
  noBinding key trace e h := by
    obtain ⟨f, trail, q, htraced, hfails, _, hsource⟩ := exists_traced hc h (by simp)
    cases hfails with
    | noBinding hcand => exact ⟨f, trail, q, htraced, hsource, rfl, hcand⟩
  unresolvableScope type scope trace e h := by
    obtain ⟨f, trail, q, htraced, hfails, _, hsource⟩ := exists_traced hc h (by simp)
    cases hfails with
    | unresolvableScope hq hcls hi hs ho =>
      exact ⟨f, trail, q, _, htraced, hsource, by rw [← hq], hcls, hi, hs, ho⟩
  cycle trace e h := by
    obtain ⟨f, trail, q, htraced, hfails, hpath, _⟩ := exists_traced hc h (by simp)
    cases hfails with
    | cycle hcand ht hmem =>
      rw [hpath] at hmem
      obtain ⟨e', he', hid⟩ := List.mem_map.1 hmem
      exact ⟨f, trail, q, _, _, htraced, hcand, ht, rfl, e', he', hid⟩

/-- An inn with two rooms, where the lamp of the second one burns oil that nobody has. -/
def inn : ClassDecl :=
  Sketch.component "Inn" ["app.Single"] [] [
    Sketch.requirement "first" (Sketch.type "Bed") [],
    Sketch.requirement "second" (.function [] (Sketch.type "Room")) []]

/-- The program of the inn. -/
def innProgram : Model :=
  Sketch.program [inn, Sketch.injectable "Bed" [] [],
    Sketch.injectable "Room" ["app.Single"] [Sketch.param "bed" (Sketch.type "Bed") [],
      Sketch.param "lamp" (.known .lazy [Sketch.type "Lamp"]) []],
    Sketch.injectable "Lamp" [] [Sketch.param "oil" (Sketch.type "Oil") []]]

/-- The bed that was found before leaves no line, and neither do the cache and the lazy value. -/
theorem tracesAreWays_inn : ⟨0, inn, false⟩ ∈ innProgram.classifiers ∧
    (plan innProgram {} ⟨0, inn, false⟩).failure.map (fun e => (e.code, e.trace))
      = some ("E0002", ["app.Lamp(oil: app.Oil)",
        "app.Room(bed: app.Bed, lamp: Lazy<app.Lamp>)", "() -> app.Room",
        "app.Inn.second: () -> app.Room"]) ∧
    TracesAreWays innProgram {} ⟨0, inn, false⟩ := by
  have hc : ⟨0, inn, false⟩ ∈ innProgram.classifiers := Model.mem_classifiers.2 ⟨rfl, rfl⟩
  exact ⟨hc, by decide +kernel, tracesAreWays innProgram {} ⟨0, inn, false⟩ hc⟩

end Component

end Wiring
