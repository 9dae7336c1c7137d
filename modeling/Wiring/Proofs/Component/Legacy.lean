import Wiring.Emit.File
import Wiring.Plan.Text
import Wiring.Proofs.Catalogue.Requirements
import Wiring.Proofs.Component.Requirements
import Wiring.Proofs.Sketch

/-!
# Programs without older annotations

The options may ask for the older marks on constructors, scopes and qualifiers. In a program that
has none of them the switch does nothing: the annotations of every declaration have the roles that
they have without it, so what is collected, planned and generated under two settings of the options
is the same.
-/

namespace Wiring

open Annotation (component)

/-- None of the annotations is an older scope or an older qualifier. -/
structure Annotation.Current (annotations : List Annotation) : Prop where
  scope : typeMarked javaxScope annotations = none
  qualifier : typeMarked javaxQualifier annotations = none

namespace Role

variable {as : List Annotation}

/-- The scope of native annotations does not depend on the options. -/
theorem scope?_eq_of_current (h : Annotation.Current as) (o o' : Options) :
    scope? o as = scope? o' as := by
  have hnative : ∀ o : Options, scope? o as = Annotation.typeMarked Annotation.scope as := by
    intro o
    simp only [scope?, h.scope, Option.none_or, ite_self]
  rw [hnative, hnative]

/-- The qualifier of native annotations does not depend on the options. -/
theorem qualifier?_eq_of_current (h : Annotation.Current as) (o o' : Options) :
    qualifier? o as = qualifier? o' as := by
  have hnative : ∀ o : Options,
      qualifier? o as = Annotation.typeMarked Annotation.qualifier as := by
    intro o
    simp only [qualifier?, h.qualifier, Option.or_none, ite_self]
  rw [hnative, hnative]

end Role

/-- No annotation of a callable or of its parameters is an older scope or qualifier. -/
structure Callable.Current (f : Callable) : Prop where
  self : Annotation.Current f.annotations
  params : ∀ p ∈ f.params, Annotation.Current p.annotations

namespace Model

/-- A program without older annotations: none is on a constructor, and no annotation class is an
older scope or qualifier. -/
structure Current (m : Model) : Prop where
  constructors : ∀ c ∈ m.declarations.classes, ∀ k ∈ c.constructor, ∀ name ∈ k.annotations,
    (TypeExpr.ofQualified name).qualifiedName ≠ Annotation.javaxInject
  scopes : ∀ a ∈ m.declarations.annotations, Annotation.javaxScope ∉ a.carries
  qualifiers : ∀ a ∈ m.declarations.annotations, Annotation.javaxQualifier ∉ a.carries

variable {m : Model}

/-- No annotation is marked by what no annotation class carries. -/
theorem typeMarked_annotationsOf {mark : String}
    (h : ∀ a ∈ m.declarations.annotations, mark ∉ a.carries) (names : List String) :
    Annotation.typeMarked mark (m.annotationsOf names) = none := by
  have hnone : ∀ a ∈ m.annotationsOf names, ¬ a.isMarked mark = true := by
    intro a ha hmarked
    obtain ⟨name, _, rfl⟩ := List.mem_map.1 ha
    unfold Annotation.isMarked annotation at hmarked
    rw [List.contains_iff_mem] at hmarked
    dsimp only at hmarked
    split at hmarked
    · next d hd =>
      exact h d (List.mem_reverse.1 (List.mem_of_find?_eq_some hd)) hmarked
    · exact absurd hmarked List.not_mem_nil
  unfold Annotation.typeMarked Annotation.firstMarked
  rw [List.find?_eq_none.2 hnone, Option.map_none]

namespace Current

variable (h : m.Current)
include h

/-- Annotations named in a program of native ones are native. -/
theorem annotationsOf (names : List String) : Annotation.Current (m.annotationsOf names) :=
  ⟨typeMarked_annotationsOf h.scopes names, typeMarked_annotationsOf h.qualifiers names⟩

/-- The parameters in a program of native annotations have native ones. -/
theorem paramsOf (owner : String) (params : List ParamDecl) :
    ∀ p ∈ m.paramsOf owner params, Annotation.Current p.annotations := by
  intro p hp
  obtain ⟨d, _, rfl⟩ := List.mem_map.1 hp
  exact h.annotationsOf d.annotations

/-- The classes in a program of native annotations have native ones. -/
theorem annotations (c : Classifier) : Annotation.Current (c.annotations m) := by
  rw [Classifier.annotations]
  split
  · exact ⟨rfl, rfl⟩
  · exact h.annotationsOf _

/-- The constructors in a program of native annotations have parameters with native ones. -/
theorem constructor? {c : Classifier} {k : Constructor} (hk : c.constructor? m = some k) :
    ∀ p ∈ k.params, Annotation.Current p.annotations := by
  rw [Classifier.constructor?] at hk
  split at hk
  · cases hk
  · obtain ⟨d, _, rfl⟩ := Option.map_eq_some_iff.1 hk
    exact h.paramsOf _ _

/-- The members of a class in a program of native annotations have native ones. -/
theorem members {c : Classifier} {f : Callable} (hf : f ∈ c.members m) : f.Current := by
  rw [Classifier.members] at hf
  split at hf
  · exact absurd hf List.not_mem_nil
  · obtain ⟨⟨d, index⟩, _, rfl⟩ := List.mem_map.1 hf
    refine ⟨h.annotationsOf _, fun p hp => ?_⟩
    simp only [Classifier.memberAt] at hp
    cases hkind : d.kind with
    | function =>
      rw [hkind] at hp
      exact h.paramsOf _ _ p hp
    | property =>
      rw [hkind] at hp
      exact absurd hp List.not_mem_nil

/-- The members in a program of native annotations have native ones. -/
theorem callables {f : Callable} (hf : f ∈ m.callables) : f.Current := by
  obtain ⟨c, _, hf⟩ := List.mem_flatMap.1 hf
  exact h.members hf

/-- What a class is left with in a program of native annotations has native ones. -/
theorem allMembers {c : Classifier} {f : Callable} (hf : f ∈ c.allMembers m) : f.Current := by
  obtain ⟨a, _, hf⟩ := List.mem_flatMap.1 (Classifier.mem_of_mem_dropOverridden hf)
  exact h.members hf

/-- The functions in a program of native annotations have native ones. -/
theorem functions {f : Callable} (hf : f ∈ m.functions) : f.Current := by
  obtain ⟨⟨d, index⟩, _, rfl⟩ := List.mem_map.1 hf
  exact ⟨h.annotationsOf _, h.paramsOf _ _⟩

/-- Whether a declared class is injectable does not depend on the options. -/
theorem isInjectClass_eq {c : Classifier} (hc : c ∈ m.classifiers) (o o' : Options) :
    Role.isInjectClass m o c = Role.isInjectClass m o' c := by
  rw [Role.isInjectClass, Role.isInjectClass]
  cases hk : c.constructor? m with
  | none => rfl
  | some k =>
    have hnone : Annotation.isAmong Annotation.javaxInject k.annotations = false := by
      rw [Classifier.constructor?] at hk
      split at hk
      · cases hk
      · obtain ⟨d, hd, rfl⟩ := Option.map_eq_some_iff.1 hk
        have hdecl := h.constructors _ (decl_mem_of_mem_classifiers hc) d hd
        simp only [Model.annotationsOf, Annotation.isAmong, List.any_map, List.any_eq_false,
          Function.comp_apply, beq_iff_eq]
        exact hdecl
    simp only [hnone, Bool.and_false]

/-- The scopes of a class do not depend on the options. -/
theorem findScope_eq (c : Classifier) (o o' : Options) :
    Role.findScope m o c = Role.findScope m o' c := by
  have hscoped : Role.scopedAncestors m o c = Role.scopedAncestors m o' c := by
    refine List.filterMap_congr fun a _ => ?_
    rw [Role.scope?_eq_of_current (h.annotations a) o o']
  rw [Role.findScope, Role.findScope, hscoped]

/-- What is found at an arrival does not depend on the options. -/
theorem arrivalFindings_eq (n : Arrival × Bool) (o o' : Options) :
    Collect.arrivalFindings m o n = Collect.arrivalFindings m o' n := by
  have hlevel : ∀ l, Collect.levelFindings m o l = Collect.levelFindings m o' l := by
    intro l
    refine List.flatMap_congr fun f hf => ?_
    have hf := (h.allMembers hf).self
    simp only [Collect.memberFindings, Collect.providesFindings, Collect.scopeProblems,
      Collect.memberScope, Collect.contribution, Role.scope?_eq_of_current hf o o',
      Role.qualifier?_eq_of_current hf o o']
  simp only [Collect.arrivalFindings, h.findScope_eq _ o o', hlevel]

/-- What is collected for a component does not depend on the options. -/
theorem collect_eq (c : Classifier) (o o' : Options) :
    Catalogue.collect m o c = Catalogue.collect m o' c := by
  rw [Catalogue.collect, Catalogue.collect, Collect.findings, Collect.findings,
    List.flatMap_congr fun n _ => h.arrivalFindings_eq n o o']

/-- What a key is bound to does not depend on the options. -/
theorem resolve_eq (cat : Catalogue) (key : Key) (skipOwn : Bool) (o o' : Options) :
    cat.resolve m o key skipOwn = cat.resolve m o' key skipOwn := by
  have hconstructor : cat.constructorBinding m o key.type
      = cat.constructorBinding m o' key.type := by
    rw [Catalogue.constructorBinding, Catalogue.constructorBinding]
    cases hcls : m.classOf key.type with
    | none => rfl
    | some cls =>
      simp only [h.isInjectClass_eq (mem_classifiers_of_classOf hcls) o o',
        Role.scope?_eq_of_current (h.annotations cls) o o']
  rw [Catalogue.resolve, Catalogue.resolve, hconstructor]

end Current

end Model

namespace Resolver

open Component

variable {m : Model} {c : Classifier}

/-- The candidate for a key does not depend on the options. -/
theorem candidate_eq_of_current (h : m.Current) (key : Key) (context : Context)
    (fromEnd : Option Nat) (o o' : Options) :
    (resolver m o c).candidate key context fromEnd
      = (resolver m o' c).candidate key context fromEnd := by
  have hfind : (resolver m o c).find key context = (resolver m o' c).find key context := by
    simp only [Resolver.find, resolver, h.collect_eq c o o', h.resolve_eq _ _ _ o o']
    rfl
  rw [candidate, candidate, hfind]
  rfl

/-- What native parameters are asked for does not depend on the options. -/
theorem paramRequests_eq_of_current {ps : List Param}
    (h : ∀ p ∈ ps, Annotation.Current p.annotations) (context : Context) (o o' : Options) :
    (resolver m o c).paramRequests context ps = (resolver m o' c).paramRequests context ps := by
  induction ps with
  | nil => rfl
  | cons p ps ih =>
    obtain ⟨hp, hps⟩ := List.forall_mem_cons.1 h
    have hkey : (resolver m o c).paramKey p = (resolver m o' c).paramKey p := by
      rw [paramKey, paramKey]
      exact congrArg (Key.mk p.type) (Role.qualifier?_eq_of_current hp o o')
    rw [paramRequests, paramRequests, hkey, ih hps]

/-- What a declared subject needs does not depend on the options. -/
theorem needs_eq_of_current (h : m.Current) {key : Key} {s : Subject} (hs : s.Declared m key)
    (context : Context) (o o' : Options) :
    (resolver m o c).needs context s = (resolver m o' c).needs context s := by
  cases hs with
  | @member p hp =>
    have hf := h.callables hp
    rw [needs, needs]
    cases p.callable.receiver with
    | none => exact paramRequests_eq_of_current hf.params context o o'
    | some type =>
      dsimp only
      rw [paramRequests_eq_of_current hf.params _ o o']
      exact congrArg (fun qualifier => (⟨⟨type, qualifier⟩, _, none⟩ : Request) :: _)
        (Role.qualifier?_eq_of_current hf.self o o')
  | constructor hc hk => exact paramRequests_eq_of_current (h.constructor? hk) context o o'
  | lambda => rfl
  | function hf => exact paramRequests_eq_of_current (h.functions hf).params _ o o'

/-- A step does not depend on the options. -/
theorem step_eq_of_current (h : m.Current) (hc : c ∈ m.classifiers)
    (answer : Request → Except Failure Plan) (q : Request) (o o' : Options) :
    (resolver m o c).step answer q = (resolver m o' c).step answer q := by
  have hcandidate := candidate_eq_of_current (c := c) h q.key q.context q.fromEnd o o'
  cases hfound : (resolver m o c).candidate q.key q.context q.fromEnd with
  | error e =>
    rw [hfound] at hcandidate
    rw [step, step, hfound, ← hcandidate]
    rfl
  | ok found =>
    rw [hfound] at hcandidate
    cases found with
    | none =>
      rw [step, step, hfound, ← hcandidate]
      rfl
    | some candidate =>
      have htasks : ∀ t ∈ candidate.tasks q.key q.context,
          (resolver m o c).perform answer q.context t
            = (resolver m o' c).perform answer q.context t := by
        intro t ht
        cases t with
        | ask q' => rfl
        | enter s =>
          have hs := declared_of_enter_mem_tasks hc hfound ht
          simp only [perform, visit, needs_eq_of_current h hs _ o o']
      rw [step_eq hfound, step_eq hcandidate.symm, mapM_congr htasks]

/-- Resolution does not depend on the options. -/
theorem provideWithin_eq_of_current (h : m.Current) (hc : c ∈ m.classifiers) (o o' : Options)
    (depth : Nat) : ∀ q, (resolver m o c).provideWithin depth q
      = (resolver m o' c).provideWithin depth q := by
  induction depth with
  | zero => exact fun q => rfl
  | succ depth ih =>
    intro q
    rw [provideWithin, provideWithin, step_eq_of_current h hc _ q o o', funext ih]

end Resolver

namespace Component

variable {m : Model} {c : Classifier}

/-- What is planned for a key does not depend on the options. -/
theorem provide_eq_of_current (h : m.Current) (hc : c ∈ m.classifiers) (key : Key)
    (context : Context) (o o' : Options) :
    (resolver m o c).provide key context = (resolver m o' c).provide key context :=
  Resolver.provideWithin_eq_of_current h hc o o' _ _

/-- A component is planned alike under all options. -/
theorem plan_eq_of_current (h : m.Current) (hc : c ∈ m.classifiers) (o o' : Options) :
    plan m o c = plan m o' c := by
  have hrequirements : planRequirements (resolver m o c) c
        (Catalogue.collect m o' c).requirementMembers
      = planRequirements (resolver m o' c) c (Catalogue.collect m o' c).requirementMembers := by
    rw [planRequirements_eq, planRequirements_eq]
    refine mapM_congr fun f hf => ?_
    rw [Catalogue.requirementMembers_collect] at hf
    have hcurrent := (h.allMembers (Collect.mem_askers_iff.1 hf).1).self
    have hkey : requirementKey (resolver m o c) c f = requirementKey (resolver m o' c) c f :=
      congrArg (Key.mk _) (Role.qualifier?_eq_of_current hcurrent o o')
    simp only [planRequirement, hkey, provide_eq_of_current h hc _ _ o o']
  rw [resolver, resolver, h.collect_eq c o o'] at hrequirements
  simp only [plan, h.collect_eq c o o', hrequirements]

/-- The switch for older annotations changes nothing about a component, nor about the program. -/
structure SwitchInert (m : Model) (o : Options) (c : Classifier) : Prop where
  collected : Catalogue.collect m { o with javax := true } c
    = Catalogue.collect m { o with javax := false } c
  resolved : ∀ key skipOwn,
    (Catalogue.collect m { o with javax := true } c).resolve m { o with javax := true } key skipOwn
      = (Catalogue.collect m { o with javax := false } c).resolve m { o with javax := false } key
          skipOwn
  provided : ∀ key context, (resolver m { o with javax := true } c).provide key context
    = (resolver m { o with javax := false } c).provide key context
  planned : plan m { o with javax := true } c = plan m { o with javax := false } c
  generated : Emit.generate m { o with javax := true } c
    = Emit.generate m { o with javax := false } c
  processed : process m { o with javax := true } = process m { o with javax := false }

/-- The files of a component are generated alike, since the switch is read for its plan only. -/
theorem generate_eq_of_current (h : m.Current) (hc : c ∈ m.classifiers) (o : Options)
    (javax javax' : Bool) : Emit.generate m { o with javax := javax } c
      = Emit.generate m { o with javax := javax' } c := by
  rw [Emit.generate, Emit.generate, plan_eq_of_current h hc _ { o with javax := javax' }]
  rfl

/-- A program without older annotations is treated alike with and without the switch for them. -/
theorem switchInert (m : Model) (o : Options) (c : Classifier) (h : m.Current)
    (hc : c ∈ m.classifiers) : SwitchInert m o c where
  collected := h.collect_eq c _ _
  resolved key skipOwn := by
    rw [h.collect_eq c _ { o with javax := false }]
    exact h.resolve_eq _ key skipOwn _ _
  provided key context := provide_eq_of_current h hc key context _ _
  planned := plan_eq_of_current h hc _ _
  generated := generate_eq_of_current h hc o true false
  processed := by
    rw [process, process]
    have hall : (m.classesAnnotated Annotation.component).map
          (Emit.generate m { o with javax := true })
        = (m.classesAnnotated Annotation.component).map
          (Emit.generate m { o with javax := false }) :=
      List.map_congr_left fun d hd =>
        generate_eq_of_current h (Model.mem_classifiers_of_mem_classesAnnotated hd) o true false
    rw [hall]

/-- An orchard that presses cider, with a gate to the well. -/
def orchard : ClassDecl :=
  Sketch.component "Orchard" ["app.Single"]
    [Sketch.param "gate" (Sketch.type "Gate") [component]]
    [Sketch.requirement "cider" (Sketch.type "Cider") ["app.A"],
      Sketch.provider "press" [Sketch.param "apple" (Sketch.type "Apple") []] (Sketch.type "Cider")
        ["app.A", "app.Single"]]

/-- The program of the orchard. -/
def orchardProgram : Model :=
  Sketch.program [orchard,
    Sketch.component "Gate" [] [] [Sketch.provider "well" [] (Sketch.type "Water") []],
    Sketch.injectable "Apple" ["app.Single"] [Sketch.param "water" (Sketch.type "Water") []],
    Sketch.plain "Cider", Sketch.plain "Water"]

/-- Native scopes and qualifiers count, and the switch adds nothing to them. -/
theorem switchInert_orchard : orchardProgram.Current ∧
    ⟨0, orchard, false⟩ ∈ orchardProgram.classifiers ∧
    (plan orchardProgram { javax := true } ⟨0, orchard, false⟩).providers.map (·.plan.displayText)
      = ["Scoped(Provides(press, Scoped(Constructor(app.Apple, Provides(gate.well)))))"] ∧
    SwitchInert orchardProgram {} ⟨0, orchard, false⟩ := by
  have hcurrent : orchardProgram.Current :=
    ⟨by decide +kernel, by decide +kernel, by decide +kernel⟩
  have hc : ⟨0, orchard, false⟩ ∈ orchardProgram.classifiers := Model.mem_classifiers.2 ⟨rfl, rfl⟩
  exact ⟨hcurrent, hc, by decide +kernel, switchInert orchardProgram {} _ hcurrent hc⟩

end Component

end Wiring
