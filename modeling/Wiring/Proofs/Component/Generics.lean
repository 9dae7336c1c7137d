import Wiring.Plan.Text
import Wiring.Proofs.Component.Requirements
import Wiring.Proofs.Resolve.Origins
import Wiring.Proofs.Resolve.Outline
import Wiring.Proofs.Sketch

/-!
# Generic ancestors and their instantiation

Whether a component that inherits from generic classes is planned as if they had been written for
it, each type parameter replaced by what the component supplies along its supertypes. Result types
are replaced wherever the planner looks at them, but parameters, receivers and the question whether
a member asks for anything are read as they are written. Where none of these depends on a type
parameter, and no parent sees a shared ancestor differently, planning cannot tell a generic ancestor
from its copy; a providing member that takes a value of a type parameter is never provided with one.
-/

namespace Wiring

/-- A diagnostic up to the text of its element. -/
def Diagnostic.shape (d : Diagnostic) : Diagnostic :=
  { d with element := d.element.map (·.shape) }

/-- The outline of a diagnostic keeps its shape. -/
theorem Diagnostic.shape_outline (d : Diagnostic) : d.outline.shape = d.shape := by
  rw [shape, outline, Option.map_map]
  rfl

/-- The plan of a requirement up to the text of elements. -/
def ProviderPlan.shape (p : ProviderPlan) : ProviderPlan :=
  { p with callable := p.callable.shape, plan := p.plan.shape }

/-- The outcome of planning a component up to the text of elements and the written signatures of
members. -/
def ComponentPlan.shape (p : ComponentPlan) : ComponentPlan where
  component := p.component.outline
  scope := p.scope
  providers := p.providers.map (·.shape)
  failure := p.failure.map (·.shape)
  diagnostics := p.diagnostics.map (·.shape)

namespace Collect

variable {m : Model} {o : Options} {c d : Classifier}

/-- Type parameters of the ancestors of `c` show nowhere but in result types that `c` and its
parents see alike. -/
structure ResultsOnly (m : Model) (o : Options) (c : Classifier) : Prop where
  /-- The members of a component in reach override each other as they are written. -/
  overrides : ∀ l ∈ levels m o c, l.component.KeepsOverrides m c
  /-- A providing member takes parameters and a receiver of the types that are written. -/
  signatures : ∀ l ∈ levels m o c, ∀ f ∈ l.component.allMembers m,
    Role.isProvides f = true → f.KeepsSignature m c
  /-- An abstract member asks for a value if it does so as it is written. -/
  requirements : ∀ l ∈ levels m o c, ∀ f ∈ l.component.allMembers m,
    Role.isProvider { f with returns := f.returnsFor m c } = Role.isProvider f
  /-- A parent that shares an ancestor with `c` sees the result types that `c` sees. -/
  shared : ∀ l ∈ levels m o c, ∀ f ∈ l.component.allMembers m,
    (f.suppliedBy m c).isSome → f.returnsFor m l.component = f.returnsFor m c

/-- The scope of a copy is found where that of the class is. -/
theorem findScope_instantiated (m : Model) (o : Options) (c d : Classifier) :
    Role.findScope (m.instantiated c) o (d.instantiatedFor m c)
      = { found := (Role.findScope m o d).found.map fun n => (n.1.instantiatedFor m c, n.2)
          conflicts :=
            (Role.findScope m o d).conflicts.map fun n => (n.1.instantiatedFor m c, n.2) } := by
  rw [Role.findScope, Role.findScope, Model.scopedAncestors_instantiated]
  cases Role.scopedAncestors m o d <;> rfl

/-- The same is found about the scopes of a component once its type parameters are replaced. -/
theorem scopeFindings_instantiated (m : Model) (o : Options) (c d : Classifier)
    (accessor : Option String) :
    (scopeFindings accessor (Role.findScope (m.instantiated c) o (d.instantiatedFor m c))).map
        (·.outline)
      = (scopeFindings accessor (Role.findScope m o d)).map (·.outline) := by
  have helement : ∀ a : Classifier, (a.instantiatedFor m c).element = a.element := fun a =>
    Classifier.eq_of_outline m c a fun _ => rfl
  rw [findScope_instantiated]
  cases hfound : (Role.findScope m o d).found with
  | none => simp only [scopeFindings, hfound, Option.map_none]
  | some n =>
    simp only [scopeFindings, hfound, Option.map_some, List.flatMap_map, helement, List.map_append,
      List.map_cons, List.map_nil, Finding.outline, ScopeOwner.outline,
      Classifier.outline_instantiatedFor]

/-- Replacing the type parameters of a component keeps the outline of its level. -/
theorem outline_levelAt_instantiated (m : Model) (o : Options) (c d : Classifier)
    (accessor : Option String) :
    (levelAt (m.instantiated c) o accessor (d.instantiatedFor m c)).outline
      = (levelAt m o accessor d).outline := by
  rw [levelAt, findScope_instantiated, levelAt]
  simp only [Level.outline, Classifier.outline_instantiatedFor, ownerOf, Option.map_map]
  cases (Role.findScope m o d).found with
  | none => rfl
  | some n =>
    simp only [Option.map_some, Function.comp, ScopeOwner.outline,
      Classifier.outline_instantiatedFor]

/-- A member that asks for a value has nothing in its signature that could be replaced. -/
theorem keepsSignature_of_isProvider (hd : d ∈ m.classifiers) {f : Callable}
    (hf : f ∈ d.allMembers m) (h : Role.isProvider f = true) : f.KeepsSignature m c := by
  have hparams : f.params = [] := by
    obtain ⟨e, _, a, i, _, rfl⟩ :=
      Model.exists_of_mem_callables (Classifier.mem_callables_of_mem_allMembers hd hf)
    cases hkind : a.kind with
    | property => simp only [Classifier.memberAt, hkind]
    | function =>
      have hempty : (e.memberAt m i a).kind = .function := hkind
      simp only [Role.isProvider, hempty, Bool.and_eq_true, List.isEmpty_iff] at h
      exact h.1.1.2
  have hreceiver : f.receiver = none := by
    simp only [Role.isProvider, Bool.and_eq_true, Option.isNone_iff_eq_none] at h
    exact h.1.2
  refine ⟨?_, ?_⟩
  · rw [hparams]
    exact fun p hp => absurd hp List.not_mem_nil
  · rw [hreceiver]
    rintro t ⟨⟩

/-- Lists whose elements give the same pairwise give the same as a whole. -/
theorem map_flatMap_of_forall₂ {α β γ : Type} {R : α → α → Prop} {k : β → γ} {g g' : α → List β}
    (hR : ∀ a a', R a a' → (g' a').map k = (g a).map k) {l l' : List α}
    (h : List.Forall₂ R l l') : (l'.flatMap g').map k = (l.flatMap g).map k := by
  induction h with
  | nil => rfl
  | cons ha _ ih =>
    rw [List.flatMap_cons, List.flatMap_cons, List.map_append, List.map_append, ih, hR _ _ ha]

/-- What is found at the members of a level is found at those of its copy. -/
theorem outline_levelFindings_instantiated (hc : m.classNamed c.path = some c)
    (h : ResultsOnly m o c) {accessor : Option String} (hl : levelAt m o accessor d ∈ levels m o c)
    (hd : m.classNamed d.path = some d) :
    (levelFindings (m.instantiated c) o
        (levelAt (m.instantiated c) o accessor (d.instantiatedFor m c))).map (·.outline)
      = (levelFindings m o (levelAt m o accessor d)).map (·.outline) := by
  have hlevel := outline_levelAt_instantiated m o c d accessor
  have hmember : ∀ f f', f ∈ d.allMembers m ∧ Callable.Copied m c f f' →
      (memberFindings (m.instantiated c) o
          (levelAt (m.instantiated c) o accessor (d.instantiatedFor m c)) f').map
            (·.outline)
        = (memberFindings m o (levelAt m o accessor d) f).map (·.outline) := by
    rintro f f' ⟨hf, hcopied⟩
    have hprovides : Role.isProvides f' = Role.isProvides f :=
      (congrArg Role.isProvides hcopied.shape :)
    have hprovider : Role.isProvider f' = Role.isProvider f := by
      rw [hcopied.isProvider_eq, ← Callable.returnsFor_eq_typeFor hc, h.requirements _ hl f hf]
    have hreturns := hcopied.returnsFor_eq hc hd (h.shared _ hl f hf)
    by_cases hkept : f.KeepsSignature m c
    · exact memberFindings_of_outline o hlevel (hcopied.outline hkept) hreturns hprovider
    · -- A member whose signature changes neither provides nor asks for anything.
      have hno : Role.isProvides f = false :=
        Bool.eq_false_iff.2 fun hp => hkept (h.signatures _ hl f hf hp)
      have hno' : Role.isProvider f = false := Bool.eq_false_iff.2 fun hp =>
        hkept (keepsSignature_of_isProvider (Model.mem_classifiers_of_classNamed hd).1 hf hp)
      rw [memberFindings, memberFindings, hprovides, hprovider, hno, hno']
      rfl
  have hmembers : List.Forall₂
      (fun f f' => f ∈ d.allMembers m ∧ Callable.Copied m c f f')
      (d.allMembers m)
      ((d.instantiatedFor m c).allMembers (m.instantiated c)) :=
    (List.forall₂_and_left _ _).2
      ⟨fun f hf => hf, Classifier.copied_allMembers (h.overrides _ hl)⟩
  rw [levelFindings, levelFindings, levelAt_component, levelAt_component]
  exact map_flatMap_of_forall₂ hmember hmembers

/-- What is found at an arrival is found at the arrival at the copy. -/
theorem outline_arrivalFindings_instantiated (hc : m.classNamed c.path = some c)
    (h : ResultsOnly m o c) {a : Arrival} {isNew : Bool} (hn : (a, isNew) ∈ Arrival.walk m c) :
    (arrivalFindings (m.instantiated c) o (a.instantiatedFor m c, isNew)).map (·.outline)
      = (arrivalFindings m o (a, isNew)).map (·.outline) := by
  obtain ⟨via, fromStart, component, accessor⟩ := a
  cases component with
  | none =>
    have hcopy : Arrival.instantiatedFor m ⟨via, fromStart, none, accessor⟩ c
        = ⟨via, fromStart, none, accessor⟩ := rfl
    rw [hcopy, arrivalFindings, arrivalFindings]
  | some d =>
    have hcopy : Arrival.instantiatedFor m ⟨via, fromStart, some d, accessor⟩ c
        = ⟨via, fromStart, some (d.instantiatedFor m c), accessor⟩ := rfl
    have hscope := scopeFindings_instantiated m o c d accessor
    rw [hcopy]
    simp only [arrivalFindings, List.map_append, hscope]
    cases isNew with
    | false => rw [if_neg Bool.false_ne_true, if_neg Bool.false_ne_true]
    | true =>
      have hl : levelAt m o accessor d ∈ levels m o c := mem_levels_iff.2 ⟨_, hn, rfl, rfl⟩
      have hd : m.classNamed d.path = some d := classNamed_of_mem_walk hc hn rfl
      rw [if_pos rfl, if_pos rfl, ← levelAt, ← levelAt,
        outline_levelFindings_instantiated hc h hl hd]

/-- What is found from a copy is found from the class. -/
theorem outline_findings_instantiated (hc : m.classNamed c.path = some c)
    (h : ResultsOnly m o c) :
    (findings (m.instantiated c) o (c.instantiatedFor m c)).map (·.outline)
      = (findings m o c).map (·.outline) := by
  rw [findings, findings, Arrival.walk_instantiated, List.flatMap_map, List.map_flatMap,
    List.map_flatMap]
  exact List.flatMap_congr fun n hn => outline_arrivalFindings_instantiated hc h hn

end Collect

open Collect

namespace Component

variable {m : Model} {o : Options} {c : Classifier}

/-- The catalogue of a copy has the outline of that of the class. -/
theorem outline_collect_instantiated (hc : m.classNamed c.path = some c)
    (h : ResultsOnly m o c) :
    (Catalogue.collect (m.instantiated c) o (c.instantiatedFor m c)).outline
      = (Catalogue.collect m o c).outline := by
  rw [Catalogue.collect, Catalogue.collect, Catalogue.outline_ofFindings,
    Catalogue.outline_ofFindings, outline_findings_instantiated hc h,
    Classifier.outline_instantiatedFor]

/-- Resolution cannot tell a copy from the class. -/
theorem alike_instantiated (hc : m.classNamed c.path = some c) (h : ResultsOnly m o c) :
    (resolver m o c).Alike (resolver (m.instantiated c) o (c.instantiatedFor m c)) where
  options := rfl
  catalogue := outline_collect_instantiated hc h
  constructs cat t := by
    dsimp only [resolver]
    rw [Catalogue.constructorBinding, Catalogue.constructorBinding, Model.classOf_instantiated]
    cases m.classOf t with
    | none => rfl
    | some d =>
      dsimp only [Option.map]
      rw [Model.isInjectClass_instantiated, Classifier.constructor?_instantiatedFor,
        Classifier.annotations_instantiatedFor]
  functions := Model.functionsNamed_instantiated m c
  assignable := Model.isAssignable_instantiated m c

/-- The program with copies answers requests that look alike alike. -/
theorem answer_instantiated (hc : m.classNamed c.path = some c) (h : ResultsOnly m o c)
    {q q' : Request} (hq : q.outline = q'.outline) :
    outcome Plan.shape ((resolver m o c).answer q)
      = outcome Plan.shape
          ((resolver (m.instantiated c) o (c.instantiatedFor m c)).answer q') := by
  have hmem := (Model.mem_classifiers_of_classNamed hc).1
  have hmem' := Model.mem_classifiers_instantiated m c hmem
  -- The two programs have bounds of their own on the depth of requests, and the larger covers both.
  have hdepth := Nat.le_max_left ((resolver m o c).depthBound q.key)
    ((resolver (m.instantiated c) o (c.instantiatedFor m c)).depthBound q'.key)
  have hdepth' := Nat.le_max_right ((resolver m o c).depthBound q.key)
    ((resolver (m.instantiated c) o (c.instantiatedFor m c)).depthBound q'.key)
  rw [← Resolver.provideWithin_eq_answer hmem (m.ids_sublist_enterable q.key.type)
      (m.type_sublist_enterable _)
      (Nat.lt_of_lt_of_le (Resolver.rank_lt_depthBound m o c q) hdepth),
    ← Resolver.provideWithin_eq_answer hmem'
      ((m.instantiated c).ids_sublist_enterable q'.key.type)
      ((m.instantiated c).type_sublist_enterable _)
      (Nat.lt_of_lt_of_le (Resolver.rank_lt_depthBound _ o _ q') hdepth')]
  exact (alike_instantiated hc h).provideWithin _ q q' hq

/-- The key and the member of a requirement. -/
def requirementOf? : Finding → Option (Key × Callable)
  | .requirement key p => some (key, p.callable)
  | _ => none

/-- A member is asked for by the type that the component sees. -/
theorem key_of_requirement {key : Key} {p : Provider}
    (h : Finding.requirement key p ∈ findings m o c) :
    key = requirementKey (resolver m o c) c p.callable := by
  have hfilter : (key, p.callable) ∈ (findings m o c).filterMap requirementOf? :=
    List.mem_filterMap.2 ⟨_, h, rfl⟩
  obtain ⟨l, hl, f, _, x, hadds, hg⟩ := exists_adds_of_mem_filterMap (fun _ => rfl) (fun _ => rfl)
    hfilter
  cases hadds with
  | part => cases hg
  | binding => cases hg
  | requirement _ hk ha =>
    obtain ⟨rfl, hf⟩ := Prod.mk.inj (Option.some.inj hg)
    rw [requirementKey, ← hf, ← component_of_accessor hl ha]
    exact (congrArg₂ Key.mk hk.returns hk.qualifier).symm

/-- The requirements of a component, with their keys, are those found in outline. -/
theorem map_requirementMembers (m : Model) (o : Options) (c : Classifier) :
    (Catalogue.collect m o c).requirementMembers.map
        (fun f => (requirementKey (resolver m o c) c f, f.outline))
      = ((findings m o c).map (·.outline)).filterMap requirementOf? := by
  rw [(Catalogue.describes_collect m o c).requirementMembers, List.map_filterMap,
    List.filterMap_map]
  refine List.filterMap_congr fun x hx => ?_
  cases x with
  | requirement key p =>
    rw [key_of_requirement hx]
    rfl
  | _ => rfl

/-- The requirements of a copy are planned as those of the class. -/
theorem planRequirements_instantiated (hc : m.classNamed c.path = some c)
    (h : ResultsOnly m o c) :
    outcome (List.map ProviderPlan.shape)
        (planRequirements (resolver m o c) c (Catalogue.collect m o c).requirementMembers)
      = outcome (List.map ProviderPlan.shape)
          (planRequirements (resolver (m.instantiated c) o (c.instantiatedFor m c))
            (c.instantiatedFor m c)
            (Catalogue.collect (m.instantiated c) o
              (c.instantiatedFor m c)).requirementMembers) := by
  rw [planRequirements_eq, planRequirements_eq]
  refine outcome_mapM (fun f => (requirementKey (resolver m o c) c f, f.outline))
    (fun f => (requirementKey (resolver (m.instantiated c) o (c.instantiatedFor m c))
      (c.instantiatedFor m c) f, f.outline)) ?_ ?_
  · intro f f' hff
    obtain ⟨hkey, hf⟩ := Prod.mk.inj hff
    have helement : f.element.outline = f'.element.outline := (congrArg Callable.element hf :)
    have hshape : f.shape = f'.shape := (congrArg Callable.shape hf :)
    have hrequest : (request (resolver m o c) c f).outline
        = (request (resolver (m.instantiated c) o (c.instantiatedFor m c))
            (c.instantiatedFor m c) f').outline := by
      simp only [request, Request.outline, Context.outline, List.map_cons, List.map_nil, hkey,
        helement]
    rw [planRequirement_eq, planRequirement_eq]
    refine outcome_map (answer_instantiated hc h hrequest) fun plan plan' hplan => ?_
    simp only [ProviderPlan.shape, hkey, hshape, hplan]
  · rw [map_requirementMembers, map_requirementMembers, outline_findings_instantiated hc h]

/-- Planning a component gives what planning its copy gives in the program in which each generic
ancestor of the component is replaced by a copy with what the component supplies for its type
parameters. -/
def GenericsInstantiate (m : Model) (o : Options) (c : Classifier) : Prop :=
  (plan m o c).shape = (plan (m.instantiated c) o (c.instantiatedFor m c)).shape

/-- A component is planned as its instantiation is, when type parameters of its ancestors show in
result types only. -/
theorem genericsInstantiate (hc : m.classNamed c.path = some c) (h : ResultsOnly m o c) :
    GenericsInstantiate m o c := by
  have hinvalid : invalid? (c.instantiatedFor m c) = invalid? c :=
    Classifier.eq_of_outline m c c fun _ => rfl
  have hcatalogue := outline_collect_instantiated hc h
  have hscope : (Catalogue.collect m o c).ownScope?.map (·.scope)
      = (Catalogue.collect (m.instantiated c) o (c.instantiatedFor m c)).ownScope?.map
          (·.scope) := by
    have hown := congrArg (fun c : Catalogue => c.ownScope?.map (·.scope)) hcatalogue
    simp only [Catalogue.ownScope?_outline, Option.map_map] at hown
    exact hown.symm
  have hdiagnostics : (Catalogue.collect m o c).diagnostics.map (·.shape)
      = (Catalogue.collect (m.instantiated c) o (c.instantiatedFor m c)).diagnostics.map
          (·.shape) := by
    have hall := congrArg (fun c : Catalogue => c.diagnostics.map (·.shape)) hcatalogue
    simp only [Catalogue.outline, List.map_map, Function.comp_def, Diagnostic.shape_outline]
      at hall
    exact hall.symm
  rw [GenericsInstantiate, plan, plan, hinvalid]
  cases invalid? c with
  | some failure => simp [ComponentPlan.shape, Classifier.outline_instantiatedFor]
  | none =>
    dsimp only
    rcases outcome_cases (planRequirements_instantiated hc h) with
      ⟨e, e', hp, hp', he⟩ | ⟨ps, ps', hp, hp', hps⟩
    · rw [resolver] at hp hp'
      rw [hp, hp']
      simp [ComponentPlan.shape, Classifier.outline_instantiatedFor, hscope, hdiagnostics, he]
    · rw [resolver] at hp hp'
      rw [hp, hp']
      simp [ComponentPlan.shape, Classifier.outline_instantiatedFor, hscope, hdiagnostics, hps]

/-- Something that holds a value. -/
def holder : ClassDecl :=
  { package := "app", name := "Holder", isInterface := true, typeParameters := ["U"]
    members := [Sketch.requirement "held" (.ofName "" "U") []] }

/-- A drawer holds what is in it until it is asked for, and provides a box of its own. What is put
in is of no interest to planning. -/
def drawer : ClassDecl :=
  { package := "app", name := "Drawer", isInterface := true, typeParameters := ["T"]
    superTypes := [.declared "app" "Holder" [.known .lazy [.ofName "" "T"]] false]
    members := [
      { name := "put", params := [Sketch.param "item" (.ofName "" "T") []], returns := .unit },
      Sketch.requirement "item" (.ofName "" "T") [],
      Sketch.provider "box" [] (.declared "app" "Box" [.ofName "" "T"] false) []] }

/-- A desk with a drawer of letters. -/
def desk : ClassDecl :=
  { Sketch.component "Desk" [] []
      [Sketch.requirement "box" (.declared "app" "Box" [Sketch.type "Letter"] false) []] with
    superTypes := [.declared "app" "Drawer" [Sketch.type "Letter"] false] }

/-- The program of the desk. -/
def deskProgram : Model :=
  Sketch.program [desk, drawer, holder, Sketch.plain "Box", Sketch.injectable "Letter" [] []]

/-- The desk is planned as if its drawer were one of letters. -/
theorem genericsInstantiate_desk :
    deskProgram.classNamed "app.Desk" = some ⟨0, desk, false⟩ ∧
    ResultsOnly deskProgram {} ⟨0, desk, false⟩ ∧
    (plan deskProgram {} ⟨0, desk, false⟩).providers.map (fun p => p.plan.displayText)
      = ["Provides(box)", "Constructor(app.Letter)", "Lazy(Constructor(app.Letter))"] ∧
    GenericsInstantiate deskProgram {} ⟨0, desk, false⟩ := by
  have hc : deskProgram.classNamed "app.Desk" = some ⟨0, desk, false⟩ := by decide +kernel
  have h : ResultsOnly deskProgram {} ⟨0, desk, false⟩ :=
    ⟨by decide +kernel, by decide +kernel, by decide +kernel, by decide +kernel⟩
  exact ⟨hc, h, by decide +kernel, genericsInstantiate hc h⟩

/-- A purse has coins for its owner. -/
def purse : ClassDecl :=
  { package := "app", name := "Purse", isInterface := true, typeParameters := ["T"]
    members := [Sketch.extension "coin" (.ofName "" "T") (Sketch.type "Coin") []] }

/-- A till that takes coins from the purse of a guest. -/
def till : ClassDecl :=
  { Sketch.component "Till" [] [] [Sketch.requirement "change" (Sketch.type "Coin") []] with
    superTypes := [.declared "app" "Purse" [Sketch.type "Guest"] false] }

/-- The program of the till. -/
def tillProgram : Model :=
  Sketch.program [till, purse, Sketch.injectable "Guest" [] [], Sketch.plain "Coin"]

/-- The till looks for an owner of the purse among the types called `T`, and not for a guest. -/
theorem not_genericsInstantiate_till :
    tillProgram.classNamed "app.Till" = some ⟨0, till, false⟩ ∧
    (plan tillProgram {} ⟨0, till, false⟩).failure.map (·.message)
      = some "Cannot find an @Inject constructor or provider for: T" ∧
    ¬ GenericsInstantiate tillProgram {} ⟨0, till, false⟩ := by
  have hfails : (plan tillProgram {} ⟨0, till, false⟩).failure.map (·.message)
      = some "Cannot find an @Inject constructor or provider for: T" := by decide +kernel
  have hplanned : (plan (tillProgram.instantiated ⟨0, till, false⟩) {}
      (Classifier.instantiatedFor tillProgram ⟨0, till, false⟩ ⟨0, till, false⟩)).failure
        = none := by decide +kernel
  refine ⟨by decide +kernel, hfails, fun h => ?_⟩
  have hfailure : (plan tillProgram {} ⟨0, till, false⟩).failure.map (·.shape) = none := by
    have hcopy := congrArg ComponentPlan.failure h
    simp only [ComponentPlan.shape, hplanned, Option.map_none] at hcopy
    exact hcopy
  rw [Option.map_eq_none_iff.1 hfailure] at hfails
  cases hfails

end Component

end Wiring
