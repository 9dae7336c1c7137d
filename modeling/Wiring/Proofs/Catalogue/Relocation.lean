import Wiring.Proofs.Catalogue.Relabelling
import Wiring.Proofs.Model.Relocation

/-!
# Catalogues of classes at other places

Where the classes of a program stand at other places, the same is found from a component, and a key
is looked up with the same outcome: what a catalogue holds of a class is its place, and nothing is
decided by that.
-/

namespace Wiring

/-- The labels of a program whose classes stand at other places. Elements do not mention places. -/
def Relabelling.places (place : Nat → Nat) : Relabelling where
  classifier := (·.relocate place)
  constructor := (·.relocate place)
  callable := (·.relocate place)
  element := id
  element_callable _ := rfl
  annotations_callable _ := rfl

/-- Moving declarations changes no report. -/
theorem Diagnostic.relabel_places (place : Nat → Nat) (d : Diagnostic) :
    d.relabel (.places place) = d := by
  rw [relabel, Relabelling.places, Option.map_id]
  rfl

namespace Model.Relocates

open Collect

variable {m m' : Model} {place : Nat → Nat} {o : Options} {c : Classifier}

/-- The same is found at a member. -/
theorem memberFindings_eq (h : m.Relocates m' place) {l : Level} {f : Callable}
    (hl : l.component ∈ m.classifiers) (hf : f ∈ m.callables) :
    memberFindings m' o (l.relabel (.places place)) (f.relocate place)
      = (memberFindings m o l f).map (·.relabel (.places place)) := by
  have hprovides : Role.isProvides (f.relocate place) = Role.isProvides f := rfl
  have hprovider : Role.isProvider (f.relocate place) = Role.isProvider f := rfl
  have hprivate : (f.relocate place).isPrivate = f.isPrivate := rfl
  have hreturns : (f.relocate place).returnsFor m' (l.relabel (.places place)).component
      = f.returnsFor m l.component := h.returnsFor_eq hl hf
  have hproblems : scopeProblems o (l.relabel (.places place)) (f.relocate place)
      = (scopeProblems o l f).map (·.relabel (.places place)) :=
    scopeProblems_relabel (.places place) o l f
  have hcontribution : ∀ t, contribution o (l.relabel (.places place)) (f.relocate place) t
      = (contribution o l f t).relabel (.places place) :=
    contribution_relabel (.places place) o l f
  rw [memberFindings, memberFindings, hprovides, hprovider]
  split
  · rw [providesFindings, providesFindings, hreturns, hprivate, hproblems, hcontribution]
    split
    · rfl
    · split
      · rfl
      · rw [List.map_append, List.map_singleton]
  · split
    · rw [hreturns]
      dsimp only [Level.relabel]
      cases l.accessor <;> rfl
    · rfl

/-- The same is found at the members of a level. -/
theorem levelFindings_eq (h : m.Relocates m' place) {l : Level}
    (hl : l.component ∈ m.classifiers) :
    levelFindings m' o (l.relabel (.places place))
      = (levelFindings m o l).map (·.relabel (.places place)) := by
  have hmembers : (l.relabel (.places place)).component.allMembers m'
      = (l.component.allMembers m).map (·.relocate place) := h.allMembers_eq hl
  rw [levelFindings, levelFindings, hmembers, List.flatMap_map, List.map_flatMap]
  exact List.flatMap_congr fun f hf =>
    h.memberFindings_eq hl (Classifier.mem_callables_of_mem_allMembers hl hf)

/-- A class is found to have the same scopes where it is moved to. -/
theorem findScope_eq (h : m.Relocates m' place) (hc : c ∈ m.classifiers) :
    Role.findScope m' o (c.relocate place)
      = { found := (Role.findScope m o c).found.map fun n => (n.1.relocate place, n.2)
          conflicts :=
            (Role.findScope m o c).conflicts.map fun n => (n.1.relocate place, n.2) } := by
  rw [Role.findScope, Role.findScope, h.scopedAncestors_eq o hc]
  cases Role.scopedAncestors m o c <;> rfl

/-- The same is found at an arrival. -/
theorem arrivalFindings_eq (h : m.Relocates m' place) {a : Arrival}
    (ha : ∀ c, a.component = some c → c ∈ m.classifiers) (isNew : Bool) :
    arrivalFindings m' o (a.relocate place, isNew)
      = (arrivalFindings m o (a, isNew)).map (·.relabel (.places place)) := by
  have hparams : ∀ p : Param,
      (paramProblems p).map (·.relabel (.places place)) = paramProblems p := by
    intro p
    rw [paramProblems]
    split
    · rfl
    · split <;> rfl
  obtain ⟨via, fromStart, component, accessor⟩ := a
  rw [arrivalFindings, arrivalFindings, List.map_append]
  dsimp only [Arrival.relocate]
  refine congrArg₂ (· ++ ·) ?_ ?_
  · cases via with
    | none => rfl
    | some p =>
      cases fromStart with
      | true => exact (hparams p).symm
      | false => rfl
  · cases component with
    | none => rfl
    | some c =>
      have hc : c ∈ m.classifiers := ha c rfl
      have hscope : scopeFindings accessor (Role.findScope m' o (c.relocate place))
          = (scopeFindings accessor (Role.findScope m o c)).map (·.relabel (.places place)) := by
        rw [h.findScope_eq hc, scopeFindings, scopeFindings]
        cases (Role.findScope m o c).found with
        | none => rfl
        | some n =>
          dsimp only [Option.map]
          rw [List.map_append, List.flatMap_map, List.map_flatMap]
          rfl
      have hlevel : levelFindings m' o ⟨c.relocate place, accessor,
            ownerOf accessor (Role.findScope m' o (c.relocate place))⟩
          = (levelFindings m o ⟨c, accessor, ownerOf accessor (Role.findScope m o c)⟩).map
              (·.relabel (.places place)) := by
        rw [← h.levelFindings_eq (l := ⟨c, accessor, ownerOf accessor (Role.findScope m o c)⟩) hc,
          h.findScope_eq hc, ownerOf, Level.relabel, ownerOf, Option.map_map, Option.map_map]
        rfl
      dsimp only [Option.map]
      rw [hscope, hlevel, List.map_append]
      cases isNew <;> rfl

/-- The same is found from a component. -/
theorem findings_eq (h : m.Relocates m' place) (hc : c ∈ m.classifiers) :
    findings m' o (c.relocate place)
      = (findings m o c).map (·.relabel (.places place)) := by
  rw [findings, findings, h.walk_eq hc, List.flatMap_map, List.map_flatMap]
  refine List.flatMap_congr fun n hn => h.arrivalFindings_eq (fun d hd => ?_) n.2
  rcases Arrival.component_of_mem_walk hn hd with rfl | hmem
  · exact hc
  · exact hmem

/-- The catalogue of a component differs in the places of classes alone. -/
theorem collect_eq (h : m.Relocates m' place) (hc : c ∈ m.classifiers) :
    Catalogue.collect m' o (c.relocate place)
      = (Catalogue.collect m o c).relabel (.places place) := by
  rw [Catalogue.collect, Catalogue.collect, Catalogue.relabel_ofFindings, h.findings_eq hc]
  rfl

/-- A type that is seen alike is bound to the same constructor where that is moved to. -/
theorem constructorBinding_eq (h : m.Relocates m' place) (cat : Catalogue) {t : TypeExpr}
    (ht : m.SeenAlike m' place t) : (cat.relabel (.places place)).constructorBinding m' o t
      = (cat.constructorBinding m o t).map (Option.map (·.relabel (.places place))) := by
  rw [Catalogue.constructorBinding, Catalogue.constructorBinding, ht.classOf]
  cases m.classOf t with
  | none => rfl
  | some d =>
    dsimp only [Option.map]
    rw [h.isInjectClass_eq, h.constructor?_eq, h.annotations_eq]
    split
    · cases d.constructor? m with
      | none => rfl
      | some k =>
        dsimp only [Option.map]
        cases Role.scope? o (d.annotations m) with
        | none => rfl
        | some scope =>
          dsimp only
          rw [Catalogue.ownerOf?_relabel]
          cases cat.ownerOf? scope <;> rfl
    · rfl

/-- A key has the same binding. -/
theorem resolve_eq (h : m.Relocates m' place) (cat : Catalogue) {key : Key}
    (hkey : m.SeenAlike m' place key.type) (skipOwn : Bool) :
    (cat.relabel (.places place)).resolve m' o key skipOwn
      = (cat.resolve m o key skipOwn).map (Option.map (·.relabel (.places place))) :=
  Catalogue.resolve_relabel (.places place) cat (h.constructorBinding_eq cat hkey) skipOwn

end Model.Relocates

end Wiring
