import Mathlib.Logic.Relation
import Wiring.Proofs.Component.Requirements
import Wiring.Proofs.Sketch

/-!
# Planning terminates

Planning a component comes to an end whatever the program looks like: classes may be their own
ancestors, components each other's parents, and values may need themselves. The walks through
ancestors and parents run out of edges, and every chain of requests runs out of elements to enter
and types to unwrap. The limits that the definitions carry never show in a result.
-/

namespace Wiring.Component

open Annotation (component)

/-- Everything that planning a component recurses through comes to an end by itself. -/
structure PlanningEnds (m : Model) (o : Options) (c : Classifier) : Prop where
  /-- The walk through the ancestors of a class has one outcome, and the chain is what it met. -/
  ancestors : ∀ d : Classifier, ∃ met,
    (∀ ms, Walk.Runs (·.path) (Classifier.superClasses m) [d] [] ms ↔ ms = met) ∧
      d.chain m = Walk.entered met
  /-- So has the walk through the supertypes of a class with their type arguments. -/
  supertypes : ∀ d : Classifier, ∃ met,
    (∀ ms, Walk.Runs (fun n => n.1.index) (fun n => n.1.boundSupers m n.2) [(d, [])] [] ms
      ↔ ms = met) ∧ d.instantiations m = Walk.entered met
  /-- So has the walk through the component and its parents. -/
  parents : ∀ ms, Walk.Runs (fun a => a.component.map (·.path)) (Arrival.onward m)
    [Arrival.start c] [] ms ↔ ms = Arrival.walk m c
  /-- No chain of requests goes on forever. -/
  requests : ∀ q, Acc (fun q' q => ∃ s, (resolver m o c).Asks q s q') q
  /-- The answer to a request is one step over the answers to the requests it asks. -/
  answers : ∀ q, (resolver m o c).answer q = (resolver m o c).step (resolver m o c).answer q
  /-- Below a request for a key, every further request enters an element of a finite universe that
  is not on the path, unwraps a lazy type, or turns to the cache entry of the same key. -/
  progress : ∀ root q q' s,
    Relation.ReflTransGen (fun q q' => ∃ s, (resolver m o c).Asks q s q') root q →
      (resolver m o c).Asks q s q' → q.Progress (m.enterable root.key.type) q'
  /-- The universe has a size known beforehand. -/
  finite : ∀ t, (m.enterable t).length ≤ m.weight + t.size
  /-- The bound on the depth of requests is never what makes planning fail. -/
  unbounded : ∀ trace e, (plan m o c).failure ≠ some (.lazyCycle trace e)

variable {m : Model} {o : Options} {c : Classifier}

/-- A walk that ends has no other outcome. -/
theorem runs_iff {α κ : Type} {key : α → κ} {next : α → List α} {todo : List α}
    {met : List (α × Bool)} (h : Walk.Runs key next todo [] met) (ms : List (α × Bool)) :
    Walk.Runs key next todo [] ms ↔ ms = met := by
  constructor
  · intro hms
    exact hms.unique h
  · rintro rfl
    exact h

/-- The requests below a request stay in its universe. -/
theorem sublist_of_reflTransGen (hc : c ∈ m.classifiers) {root q : Request}
    (h : Relation.ReflTransGen (fun q q' => ∃ s, (resolver m o c).Asks q s q') root q) :
    q.key.type.ids.Sublist (m.enterable root.key.type) := by
  induction h with
  | refl => exact m.type_sublist_enterable root.key.type
  | tail _ hasks ih =>
    obtain ⟨s, hasks⟩ := hasks
    exact (hasks.progress hc (m.ids_sublist_enterable _) ih).2

/-- A component fails with what its class lacks or with the answer to one of its requests, and the
bound on depth is neither. -/
theorem failure_ne_lazyCycle (hc : c ∈ m.classifiers) (trace : List String) (e : Element) :
    (plan m o c).failure ≠ some (.lazyCycle trace e) := by
  intro h
  rcases failure_eq_some_iff.1 h with hi | ⟨_, hp⟩
  · rw [invalid?] at hi
    split at hi
    · cases hi
    · split at hi <;> cases hi
  · obtain ⟨_, f, _, _, _, he⟩ := planRequirements_eq_error_iff.1 hp
    exact Resolver.answer_ne_lazyCycle hc _ trace e he

/-- Planning of any component of any program comes to an end. -/
theorem planningEnds (m : Model) (o : Options) (c : Classifier) (hc : c ∈ m.classifiers) :
    PlanningEnds m o c where
  ancestors d := by
    obtain ⟨met, hruns, hchain⟩ := Classifier.chain_runs m d
    exact ⟨met, runs_iff hruns, hchain⟩
  supertypes d := by
    obtain ⟨met, hruns, hall⟩ := Classifier.instantiations_run m d
    exact ⟨met, runs_iff hruns, hall⟩
  parents := runs_iff (Arrival.walk_runs m c)
  requests := Resolver.acc_asks hc
  answers := Resolver.answer_eq_step hc
  progress root q q' s hbelow hasks :=
    (hasks.progress hc (m.ids_sublist_enterable _) (sublist_of_reflTransGen hc hbelow)).1
  finite := m.length_enterable_le
  unbounded := failure_ne_lazyCycle hc

/-- A component that is its own ancestor and has a parent whose parent it is in turn. It asks for a
value that needs itself through a lazy value in a function. -/
def ring : ClassDecl :=
  { Sketch.component "Ring" [] [Sketch.param "other" (Sketch.type "Other") [component]]
      [Sketch.requirement "node" (Sketch.type "Node") []] with
    superTypes := [Sketch.type "Ring"] }

/-- The program of the ring. -/
def ringProgram : Model :=
  Sketch.program [ring,
    Sketch.component "Other" []
      [Sketch.param "ring" (Sketch.type "Ring") [component]] [],
    Sketch.injectable "Node" [] [Sketch.param "next"
      (.known .lazy [.function [Sketch.type "Ring"] (Sketch.type "Node")]) []]]

/-- Planning the ring ends at the cycle of its node. -/
theorem planningEnds_ring : ⟨0, ring, false⟩ ∈ ringProgram.classifiers ∧
    (plan ringProgram {} ⟨0, ring, false⟩).failure.map (·.trace)
      = some ["(app.Ring) -> app.Node", "app.Node(next: Lazy<(app.Ring) -> app.Node>)",
        "app.Ring.node: app.Node"] ∧
    PlanningEnds ringProgram {} ⟨0, ring, false⟩ := by
  have hc : ⟨0, ring, false⟩ ∈ ringProgram.classifiers := Model.mem_classifiers.2 ⟨rfl, rfl⟩
  exact ⟨hc, by decide +kernel, planningEnds ringProgram {} ⟨0, ring, false⟩ hc⟩

end Wiring.Component
