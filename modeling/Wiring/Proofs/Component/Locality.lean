import Wiring.Plan.Text
import Wiring.Proofs.Catalogue.Requirements
import Wiring.Proofs.Component.Requirements
import Wiring.Proofs.Resolve.Relocation
import Wiring.Proofs.Sketch

/-!
# Locality of planning

What is declared beside a component and never named by its program has no say in how the component
is planned, and neither has the order of the declarations. Planning refers to classes by their
places, so the outcomes before and after such a change differ in places, and in nothing else.
-/

namespace Wiring

/-- The plan of a requirement with the classes in it at other places. -/
def ProviderPlan.relocate (place : Nat → Nat) (p : ProviderPlan) : ProviderPlan :=
  { p with callable := p.callable.relocate place, plan := p.plan.relocate place }

/-- The outcome of planning a component with the classes in it at other places. The scope, the
failure and the diagnostics say nothing about places. -/
def ComponentPlan.relocate (place : Nat → Nat) (p : ComponentPlan) : ComponentPlan :=
  { p with
    component := p.component.relocate place
    providers := p.providers.map (·.relocate place) }

namespace Plan

variable (place : Nat → Nat)

mutual

/-- A plan at other places builds the same value in the same way. -/
theorem same_relocate : ∀ p : Plan, p.same (p.relocate place) = true
  | call a f as => by
    simp only [relocate, same, sameList_relocate as, Callable.relocate, Element.same, BEq.rfl,
      Bool.and_self]
  | extensionCall a f r as => by
    simp only [relocate, same, same_relocate r, sameList_relocate as, Callable.relocate,
      Element.same, BEq.rfl, Bool.and_self]
  | cached a o k p => by
    have helement : (o.relocate place).element = o.element := rfl
    simp only [relocate, same, same_relocate p, helement, Element.same, BEq.rfl, Bool.and_self]
  | construct c as => by
    simp only [relocate, same, sameList_relocate as, Constructor.relocate, Element.same, BEq.rfl,
      Bool.and_self]
  | container b as => by
    simp only [relocate, same, sameList_relocate as, BEq.rfl, Bool.and_self]
  | function ps p => by simp only [relocate, same, same_relocate p, BEq.rfl, Bool.and_self]
  | namedFunction f ps as => by
    simp only [relocate, same, sameList_relocate as, Element.same, BEq.rfl, Bool.and_self]
  | arg n => by simp only [relocate, same, BEq.rfl]
  | lazy p => by simp only [relocate, same, same_relocate p]

/-- Plans are the same as those they are moved to, one by one. -/
theorem sameList_relocate : ∀ ps : List Plan, sameList ps (relocateList place ps) = true
  | [] => rfl
  | p :: ps => by
    simp only [relocateList, sameList, same_relocate p, sameList_relocate ps, Bool.and_self]

end

end Plan

namespace Model

variable {m : Model} {c : Classifier} {added classes : List ClassDecl}

/-- The program with other classes. -/
def withClasses (m : Model) (classes : List ClassDecl) : Model where
  declarations := { m.declarations with classes }

/-- The place in a second program of the class that has the name of the class at a place. -/
def placeIn (m m' : Model) (index : Nat) : Nat :=
  match m.declarations.classes[index]? with
  | some d => ((m'.classNamed d.qualifiedName).map (·.index)).getD index
  | none => index

/-- A class that is not declared in a program, and that nothing written in it names. -/
structure Unrelated (m : Model) (d : ClassDecl) : Prop where
  undeclared : ∀ e ∈ m.declarations.classes, e.qualifiedName ≠ d.qualifiedName
  unnamed : ∀ t ∈ m.written, t.NamesOnly (· ≠ d.qualifiedName)

/-- Where unrelated classes are added, in whatever order, a class is found under its name at its
new place. -/
theorem classNamed_withClasses (hd : m.DistinctNames) (hadded : ∀ d ∈ added, m.Unrelated d)
    (hclasses : classes.Perm (m.declarations.classes ++ added)) (hc : c ∈ m.classifiers) :
    (m.withClasses classes).classNamed c.path
      = some (c.relocate (m.placeIn (m.withClasses classes))) := by
  have hdecl := (mem_classifiers.1 hc).1
  have hmem := decl_mem_of_mem_classifiers hc
  have hpath := Classifier.path_of_mem_classifiers hc
  cases hfound : (m.withClasses classes).classNamed c.path with
  | none =>
    rw [hpath] at hfound
    exact absurd rfl (classNamed_eq_none_iff.1 hfound _
      (hclasses.mem_iff.2 (List.mem_append_left _ hmem)))
  | some d =>
    obtain ⟨hd', hname⟩ := mem_classifiers_of_classNamed hfound
    rw [hpath] at hname
    have hplace : m.placeIn (m.withClasses classes) c.index = d.index := by
      rw [placeIn, hdecl]
      dsimp only
      rw [← hpath, hfound, Option.map_some, Option.getD_some]
    have hsame : d.decl = c.decl := by
      have hdecl' := hclasses.mem_iff.1 (decl_mem_of_mem_classifiers hd')
      rcases List.mem_append.1 hdecl' with hold | hnew
      · exact List.inj_on_of_nodup_map hd hold hmem hname
      · exact absurd hname.symm ((hadded _ hnew).undeclared _ hmem)
    have hcompanion : d.isCompanion = c.isCompanion :=
      (mem_classifiers.1 hd').2.trans (mem_classifiers.1 hc).2.symm
    rw [Classifier.relocate, hplace, ← hsame, ← hcompanion]

/-- A program whose classes are put in another order among unrelated ones has them at other places,
and what it names is found as before. -/
theorem relocates_withClasses (hd : m.DistinctNames) (hadded : ∀ d ∈ added, m.Unrelated d)
    (hclasses : classes.Perm (m.declarations.classes ++ added)) :
    m.Relocates (m.withClasses classes) (m.placeIn (m.withClasses classes)) where
  annotations := rfl
  functions := rfl
  named c hc := Classifier.classNamed_of_mem_classifiers hd hc
  relocated c hc := classNamed_withClasses hd hadded hclasses hc
  written t ht s hs := by
    dsimp only
    cases hfound : m.classNamed s.resolved.qualifiedName with
    | some c =>
      obtain ⟨hc, hname⟩ := mem_classifiers_of_classNamed hfound
      rw [← hname, ← Classifier.path_of_mem_classifiers hc]
      exact classNamed_withClasses hd hadded hclasses hc
    | none =>
      refine classNamed_eq_none_iff.2 fun d hmem => ?_
      rcases List.mem_append.1 (hclasses.mem_iff.1 hmem) with hold | hnew
      · exact classNamed_eq_none_iff.1 hfound d hold
      · exact ((hadded d hnew).unnamed t ht s hs).symm

end Model

namespace Component

open Model

variable {m m' : Model} {place : Nat → Nat} {o : Options} {c : Classifier} {f : Callable}

/-- A requirement of a component is a member declared in the program. -/
theorem mem_callables_of_mem_requirementMembers (hc : c ∈ m.classifiers)
    (hf : f ∈ (Catalogue.collect m o c).requirementMembers) : f ∈ m.callables := by
  rw [Catalogue.requirementMembers_collect] at hf
  exact Classifier.mem_callables_of_mem_allMembers hc (Collect.mem_askers_iff.1 hf).1

/-- A requirement is planned alike. -/
theorem planRequirement_relocate (h : m.Relocates m' place) (hc : c ∈ m.classifiers)
    (hf : f ∈ m.callables) :
    planRequirement (resolver m' o (c.relocate place)) (c.relocate place) (f.relocate place)
      = (planRequirement (resolver m o c) c f).map (·.relocate place) := by
  have hreturns : (f.relocate place).returnsFor m' (c.relocate place) = f.returnsFor m c :=
    h.returnsFor_eq hc hf
  have hkey : requirementKey (resolver m' o (c.relocate place)) (c.relocate place)
      (f.relocate place) = requirementKey (resolver m o c) c f := congrArg (Key.mk · _) hreturns
  have hrequest : request (resolver m' o (c.relocate place)) (c.relocate place)
      (f.relocate place) = request (resolver m o c) c f := by
    rw [request, request, hkey]
    rfl
  have hseen : (request (resolver m o c) c f).SeenAlike m m' place :=
    ⟨h.seenAlike_returnsFor hc hf, fun a ha => absurd ha List.not_mem_nil⟩
  rw [planRequirement_eq, planRequirement_eq, hrequest, hkey, h.answer_eq hc hseen]
  cases (resolver m o c).answer (request (resolver m o c) c f) <;> rfl

/-- A component whose class stands at another place is planned alike. -/
theorem plan_relocate (h : m.Relocates m' place) (hc : c ∈ m.classifiers) :
    plan m' o (c.relocate place) = (plan m o c).relocate place := by
  have hinvalid : invalid? (c.relocate place) = invalid? c := rfl
  have hdiagnostics : ((Catalogue.collect m o c).relabel (.places place)).diagnostics
      = (Catalogue.collect m o c).diagnostics := by
    rw [Catalogue.relabel]
    simp only [Diagnostic.relabel_places, List.map_id']
  have hscope : ((Catalogue.collect m o c).relabel (.places place)).ownScope?.map (·.scope)
      = (Catalogue.collect m o c).ownScope?.map (·.scope) := by
    rw [Catalogue.ownScope?_relabel, Option.map_map]
    rfl
  have hplans : planRequirements (resolver m' o (c.relocate place)) (c.relocate place)
        ((Catalogue.collect m o c).relabel (.places place)).requirementMembers
      = (planRequirements (resolver m o c) c (Catalogue.collect m o c).requirementMembers).map
          (List.map (·.relocate place)) := by
    rw [planRequirements_eq, planRequirements_eq]
    exact mapM_map_eq fun f hf =>
      planRequirement_relocate h hc (mem_callables_of_mem_requirementMembers hc hf)
  rw [resolver, h.collect_eq hc, resolver] at hplans
  rw [plan, plan, hinvalid]
  cases invalid? c with
  | some failure => rfl
  | none =>
    dsimp only
    rw [h.collect_eq hc, hdiagnostics, hscope, hplans]
    cases planRequirements ⟨m, o, Catalogue.collect m o c⟩ c
      (Catalogue.collect m o c).requirementMembers <;> rfl

/-- Planning a class of a second program has the outcome of planning the class `c` of the first. -/
structure PlannedAlike (m m' : Model) (o : Options) (c c' : Classifier) : Prop where
  /-- The outcomes differ in the places of classes alone. -/
  outcome : plan m' o c' = (plan m o c).relocate (m.placeIn m')
  scope : (plan m' o c').scope = (plan m o c).scope
  failure : (plan m' o c').failure = (plan m o c).failure
  diagnostics : (plan m' o c').diagnostics = (plan m o c).diagnostics
  /-- The same requirements, of the same types, have the same plans. -/
  providers : List.Forall₂ (fun p p' => p.callable.element = p'.callable.element ∧
    p.returns = p'.returns ∧ p.plan.same p'.plan = true) (plan m o c).providers
      (plan m' o c').providers

/-- A component is planned alike wherever the classes of its program stand, and whatever unrelated
classes are declared among them. -/
theorem plannedAlike_withClasses {added classes : List ClassDecl} (hd : m.DistinctNames)
    (hc : c ∈ m.classifiers) (hadded : ∀ d ∈ added, m.Unrelated d)
    (hclasses : classes.Perm (m.declarations.classes ++ added)) :
    ∃ c', (m.withClasses classes).classNamed c.path = some c' ∧
      PlannedAlike m (m.withClasses classes) o c c' := by
  have houtcome := plan_relocate (o := o) (relocates_withClasses hd hadded hclasses) hc
  refine ⟨_, classNamed_withClasses hd hadded hclasses hc, houtcome, ?_, ?_, ?_, ?_⟩
  · rw [houtcome]
    rfl
  · rw [houtcome]
    rfl
  · rw [houtcome]
    rfl
  · rw [houtcome]
    exact List.forall₂_map_right_iff.2
      (List.forall₂_same.2 fun p _ => ⟨rfl, rfl, p.plan.same_relocate _⟩)

/-- A studio with an easel. -/
def studio : ClassDecl :=
  Sketch.component "Studio" ["app.Single"] [] [Sketch.requirement "easel" (Sketch.type "Easel") []]

/-- An easel, which holds a canvas. -/
def easel : ClassDecl :=
  Sketch.injectable "Easel" ["app.Single"] [Sketch.param "canvas" (Sketch.type "Canvas") []]

/-- The program of the studio. -/
def studioProgram : Model := Sketch.program [studio, easel, Sketch.injectable "Canvas" [] []]

/-- A garden, where an easel may be put up. -/
def garden : ClassDecl := { Sketch.plain "Garden" with superTypes := [Sketch.type "Easel"] }

/-- The classes of the studio in another order, with a garden. -/
def studioWithGarden : List ClassDecl :=
  [garden, Sketch.injectable "Canvas" [] [], easel, studio]

/-- The studio is planned alike with and without a garden. -/
theorem plannedAlike_studio : studioProgram.DistinctNames ∧
    ⟨0, studio, false⟩ ∈ studioProgram.classifiers ∧
    (∀ d ∈ [garden], studioProgram.Unrelated d) ∧
    studioWithGarden.Perm (studioProgram.declarations.classes ++ [garden]) ∧
    (plan studioProgram {} ⟨0, studio, false⟩).providers.map (fun p => p.plan.displayText)
      = ["Scoped(Constructor(app.Easel, Constructor(app.Canvas)))"] ∧
    ∃ c', (studioProgram.withClasses studioWithGarden).classNamed "app.Studio" = some c' ∧
      PlannedAlike studioProgram (studioProgram.withClasses studioWithGarden) {}
        ⟨0, studio, false⟩ c' := by
  have hd : studioProgram.DistinctNames := by
    rw [DistinctNames]
    decide +kernel
  have hc : ⟨0, studio, false⟩ ∈ studioProgram.classifiers := mem_classifiers.2 ⟨rfl, rfl⟩
  have hadded : ∀ d ∈ [garden], studioProgram.Unrelated d := by
    intro d hgarden
    rw [List.mem_singleton.1 hgarden]
    exact ⟨by decide +kernel, by decide +kernel⟩
  have hclasses : studioWithGarden.Perm (studioProgram.declarations.classes ++ [garden]) := by
    decide +kernel
  exact ⟨hd, hc, hadded, hclasses, by decide +kernel,
    plannedAlike_withClasses hd hc hadded hclasses⟩

end Component

end Wiring
