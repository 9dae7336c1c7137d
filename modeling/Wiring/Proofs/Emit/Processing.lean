import Wiring.CommandLine.Run
import Wiring.Proofs.Catalogue.Requirements
import Wiring.Proofs.Component.Parents
import Wiring.Proofs.Emit.Classes
import Wiring.Proofs.Model.Ancestry
import Wiring.Proofs.Sketch

/-!
# Nothing fails in silence

Every component gets its file, whatever becomes of the others, and what goes wrong with a component
is among the diagnostics, so a run ends well only if nothing went wrong. Then every class that is
generated implements what its component asks for. There is one exception that is not reported: the
cache of a component with a scope is a property by the name of `_scoped`, and where the component
asks for a property of that name, its class has two of them.
-/

namespace Wiring

open Collect Component

namespace CommandLine

section Exit

variable {σ : Type} {fs : Files (StateM σ)} {path : String} {s : Settings} {t : σ}

/-- What follows on a run goes on from its value and its state. -/
theorem bind_eq {α β : Type} {x : StateM σ α} {a : α} {t t' : σ} (h : x t = (a, t'))
    (f : α → StateM σ β) : (x >>= f) t = f a t' := by
  change (match x t with | (a, t') => f a t') = f a t'
  rw [h]

/-- A run that has its options and its model, and can write its files, fails exactly if there is an
error to report. -/
theorem exitCode_generate {base : Options} {model : Model} {said : String} {t₁ t₂ t₃ : σ}
    (hoptions : fileOptions fs path s t = (.ok base, t₁))
    (hmodel : loadModel fs path t₁ = (.ok model, t₂))
    (hfiles : writeFiles fs s (process model (s.options base)).files t₂ = ((said, none), t₃)) :
    (generate fs path s t).1.exitCode
      = if Diagnostic.anyError (process model (s.options base)).diagnostics then 1 else 0 := by
  rw [generate, bind_eq hoptions]
  dsimp only
  rw [bind_eq hmodel]
  dsimp only
  rw [bind_eq hfiles]
  dsimp only
  rw [bind_eq (x := reportSource fs path model) rfl]
  split <;> rfl

/-- A run ends well exactly if it has its options and its model, can write its files, and has no
error to report. -/
theorem exitCode_generate_iff : (generate fs path s t).1.exitCode = 0 ↔
    ∃ base t₁ model t₂ said t₃, fileOptions fs path s t = (.ok base, t₁) ∧
      loadModel fs path t₁ = (.ok model, t₂) ∧
      writeFiles fs s (process model (s.options base)).files t₂ = ((said, none), t₃) ∧
      Diagnostic.anyError (process model (s.options base)).diagnostics = false := by
  constructor
  · intro h
    rcases hoptions : fileOptions fs path s t with ⟨base | base, t₁⟩
    · rw [generate, bind_eq hoptions] at h
      exact absurd h Nat.one_ne_zero
    rcases hmodel : loadModel fs path t₁ with ⟨model | model, t₂⟩
    · rw [generate, bind_eq hoptions] at h
      dsimp only at h
      rw [bind_eq hmodel] at h
      exact absurd h Nat.one_ne_zero
    rcases hfiles : writeFiles fs s (process model (s.options base)).files t₂
      with ⟨⟨said, failure | failure⟩, t₃⟩
    · rw [exitCode_generate hoptions hmodel hfiles] at h
      refine ⟨base, t₁, model, t₂, said, t₃, rfl, hmodel, hfiles, ?_⟩
      refine Bool.eq_false_iff.2 fun herror => ?_
      rw [if_pos herror] at h
      exact absurd h Nat.one_ne_zero
    · rw [generate, bind_eq hoptions] at h
      dsimp only at h
      rw [bind_eq hmodel] at h
      dsimp only at h
      rw [bind_eq hfiles] at h
      exact absurd h Nat.one_ne_zero
  · rintro ⟨base, t₁, model, t₂, said, t₃, hoptions, hmodel, hfiles, herror⟩
    rw [exitCode_generate hoptions hmodel hfiles, herror]
    rfl

end Exit

end CommandLine

namespace Emit

variable {m : Model} {o : Options} {c : Classifier} {f g : Callable}

/-- The components of a program, in the order of declaration. -/
def components (m : Model) : List Classifier := m.classesAnnotated Annotation.component

/-- Something is wrong with a component: it fails to plan, an error is found when its bindings are
collected, or it lacks the companion object that the options ask for. -/
def AtFault (m : Model) (o : Options) (c : Classifier) : Prop :=
  (plan m o c).failure ≠ none ∨ (∃ d ∈ (Catalogue.collect m o c).diagnostics, d.isError = true) ∨
    o.companionExtensions = true ∧ c.companion? = none

/-- The class generated for a component implements the component: it overrides each member that the
component asks for exactly once, with the type that the component sees, and no two of its overrides,
none of which has a receiver or parameters, are of one kind and name. -/
structure Implements (m : Model) (o : Options) (c : Classifier) : Prop where
  members : ∃ ds, members (constructorParams m c) (plan m o c)
    = secondaryConstructors (constructorParams m c) ++ ds ∧
      List.Forall₂ Declares (overrides (plan m o c)) ds
  once : ∀ f ∈ askers m c,
    (overrides (plan m o c)).filter (fun v => v.kind = f.kind ∧ v.name = f.name)
      = [requirementOverride f (f.returnsFor m c).sourceText]
  apart : (overrides (plan m o c)).Pairwise fun v w => ¬ (v.kind = w.kind ∧ v.name = w.name)

/-- What goes wrong with a program is told, and otherwise its components are implemented. -/
structure NoSilentFailure (m : Model) (o : Options) : Prop where
  /-- Every component has its file, which depends on no other component. -/
  files : (process m o).files = (components m).map fun c => (generate m o c).file
  /-- There is an error exactly if something is wrong with a component. -/
  errors : Diagnostic.anyError (process m o).diagnostics = true ↔ ∃ c ∈ components m, AtFault m o c
  /-- The exit status of a run that gets to its end says so. -/
  status : ∀ {σ : Type} (fs : Files (StateM σ)) path (s : CommandLine.Settings) t base t₁ t₂ said
      t₃, CommandLine.fileOptions fs path s t = (.ok base, t₁) → s.options base = o →
    CommandLine.loadModel fs path t₁ = (.ok m, t₂) →
    CommandLine.writeFiles fs s (process m o).files t₂ = ((said, none), t₃) →
    ((CommandLine.generate fs path s t).1.exitCode ≠ 0 ↔ ∃ c ∈ components m, AtFault m o c)
  /-- Without an error every component is implemented. -/
  implemented : Diagnostic.anyError (process m o).diagnostics = false →
    ∀ c ∈ components m, Implements m o c

/-- A component with a scope asks for a property that has the name of the cache. -/
def AsksForCache (m : Model) (o : Options) (c : Classifier) : Prop :=
  (plan m o c).scope.isSome = true ∧ ∃ f ∈ askers m c, f.kind = .property ∧ f.name = "_scoped"

/-- A class is at fault exactly if its generation reports an error. -/
theorem anyError_generate_iff :
    Diagnostic.anyError (generate m o c).diagnostics = true ↔ AtFault m o c := by
  have hreceiver : Diagnostic.anyError (receiverProblems o c) = true ↔
      o.companionExtensions = true ∧ c.companion? = none := by
    rw [receiverProblems]
    cases o.companionExtensions <;> cases c.companion? <;> simp [Diagnostic.anyError,
      missingCompanion, Diagnostic.errorAt, Diagnostic.isError]
  have hfailure : Diagnostic.anyError ((plan m o c).failure.toList.map Failure.toDiagnostic) = true
      ↔ (plan m o c).failure ≠ none := by
    cases (plan m o c).failure with
    | none => simp [Diagnostic.anyError]
    | some e => simp [Diagnostic.anyError, Failure.toDiagnostic, Diagnostic.isError]
  have hall : Diagnostic.anyError (generate m o c).diagnostics = true ↔
      (Diagnostic.anyError (plan m o c).diagnostics = true ∨ (plan m o c).failure ≠ none) ∨
        o.companionExtensions = true ∧ c.companion? = none := by
    rw [generate, ComponentPlan.allDiagnostics, Diagnostic.anyError, List.any_append,
      List.any_append, Bool.or_eq_true, Bool.or_eq_true]
    exact or_congr (or_congr Iff.rfl hfailure) hreceiver
  rw [hall, AtFault, ← or_assoc]
  refine or_congr_left ?_
  cases hi : invalid? c with
  | some failure =>
    have hfails : (plan m o c).failure ≠ none := by
      rw [failure_eq_some_iff.2 (.inl hi)]
      exact Option.some_ne_none _
    exact ⟨fun _ => .inl hfails, fun _ => .inr hfails⟩
  | none =>
    rw [diagnostics_plan hi, Diagnostic.anyError, List.any_eq_true]
    exact or_comm

/-- There is an error exactly if something is wrong with a component. -/
theorem anyError_process_iff : Diagnostic.anyError (process m o).diagnostics = true ↔
    ∃ c ∈ components m, AtFault m o c := by
  rw [process, Diagnostic.anyError, List.any_flatMap, List.any_map, List.any_eq_true]
  exact exists_congr fun c => and_congr_right fun _ => anyError_generate_iff

/-- A property has no parameters. -/
theorem params_of_property {d : Classifier} (hf : f ∈ d.members m) (hk : f.kind = .property) :
    f.params = [] := by
  rw [Classifier.members] at hf
  split at hf
  · exact absurd hf List.not_mem_nil
  · obtain ⟨⟨decl, i⟩, _, rfl⟩ := List.mem_map.1 hf
    have hkind : decl.kind = .property := hk
    simp only [Classifier.memberAt, hkind]

/-- What a component asks for has no receiver and no parameters. -/
theorem shape_of_mem_askers (hf : f ∈ askers m c) : f.receiver = none ∧ f.params = [] := by
  obtain ⟨hmem, hprovider⟩ := mem_askers_iff.1 hf
  obtain ⟨d, _, hmember⟩ := List.mem_flatMap.1 (Classifier.mem_of_mem_dropOverridden hmem)
  simp only [Role.isProvider, Bool.and_eq_true] at hprovider
  obtain ⟨⟨⟨_, hparams⟩, hreceiver⟩, _⟩ := hprovider
  refine ⟨Option.isNone_iff_eq_none.1 hreceiver, ?_⟩
  cases hk : f.kind with
  | property => exact params_of_property hmember hk
  | function =>
    rw [hk] at hparams
    exact List.isEmpty_iff.1 hparams

/-- A component does not ask for two members of one kind and name. -/
theorem eq_of_mem_askers (hf : f ∈ askers m c) (hg : g ∈ askers m c) (hk : f.kind = g.kind)
    (hn : f.name = g.name) : f = g := by
  obtain ⟨hreceiver, hparams⟩ := shape_of_mem_askers hf
  obtain ⟨hreceiver', hparams'⟩ := shape_of_mem_askers hg
  refine Classifier.eq_of_mem_dropOverridden (mem_askers_iff.1 hg).1 (mem_askers_iff.1 hf).1 ?_
  rw [Callable.overrides, hk, hn, hreceiver, hreceiver', hparams, hparams']
  simp only [BEq.rfl, Bool.and_self]

/-- A component that is planned overrides its cache, if it has a scope, and what it asks for. -/
theorem overrides_plan (h : (plan m o c).failure = none) : overrides (plan m o c)
    = (if (plan m o c).scope.isSome then [cacheOverride] else [])
      ++ (askers m c).map fun f => requirementOverride f (f.returnsFor m c).sourceText := by
  have hcallables := callables_of_failure h
  rw [Catalogue.requirementMembers_collect] at hcallables
  rw [overrides, ← hcallables, List.map_map]
  refine congrArg _ (List.map_congr_left fun r hr => ?_)
  rw [returns_of_mem_providers hr]
  rfl

/-- Where at most one entry of a list passes a test, one that does is all that is left. -/
theorem filter_eq_singleton {α : Type} {p : α → Bool} {l : List α}
    (hl : l.Pairwise fun a b => ¬ (p a = true ∧ p b = true)) {a : α} (ha : a ∈ l)
    (hp : p a = true) : l.filter p = [a] := by
  obtain ⟨before, after, rfl⟩ := List.append_of_mem ha
  obtain ⟨_, hafter, hacross⟩ := List.pairwise_append.1 hl
  have hbefore : before.filter p = [] := List.filter_eq_nil_iff.2 fun b hb hpb =>
    hacross b hb a (List.mem_cons_self ..) ⟨hpb, hp⟩
  have hrest : after.filter p = [] := List.filter_eq_nil_iff.2 fun b hb hpb =>
    (List.pairwise_cons.1 hafter).1 b hb ⟨hp, hpb⟩
  rw [List.filter_append, hbefore, List.filter_cons_of_pos hp, hrest, List.nil_append]

/-- No two overrides of a component that is planned are of one kind and name, unless it asks for a
property with the name of its cache. -/
theorem pairwise_overrides_iff (h : (plan m o c).failure = none) :
    ((overrides (plan m o c)).Pairwise fun v w => ¬ (v.kind = w.kind ∧ v.name = w.name)) ↔
      ¬ AsksForCache m o c := by
  have hnodup : (askers m c).Nodup := (Classifier.nodup_allMembers m c).filter _
  have hrequired : ((askers m c).map fun f =>
      requirementOverride f (f.returnsFor m c).sourceText).Pairwise
        fun v w => ¬ (v.kind = w.kind ∧ v.name = w.name) :=
    List.pairwise_map.2 (hnodup.pairwise_of_forall_ne fun f hf g hg hne hsame =>
      hne (eq_of_mem_askers hf hg hsame.1 hsame.2))
  rw [overrides_plan h, AsksForCache]
  by_cases hscope : (plan m o c).scope.isSome = true
  · rw [if_pos hscope, List.singleton_append, List.pairwise_cons]
    constructor
    · rintro ⟨hapart, _⟩ ⟨_, f, hf, hk, hn⟩
      exact hapart _ (List.mem_map.2 ⟨f, hf, rfl⟩) ⟨hk.symm, hn.symm⟩
    · refine fun hnot => ⟨fun v hv hsame => hnot ⟨hscope, ?_⟩, hrequired⟩
      obtain ⟨f, hf, rfl⟩ := List.mem_map.1 hv
      exact ⟨f, hf, hsame.1.symm, hsame.2.symm⟩
  · rw [if_neg hscope, List.nil_append]
    exact ⟨fun _ hasks => hscope hasks.1, fun _ => hrequired⟩

/-- A component that is planned is implemented exactly if it does not ask for a property with the
name of its cache. -/
theorem implements_iff (h : (plan m o c).failure = none) :
    Implements m o c ↔ ¬ AsksForCache m o c := by
  rw [← pairwise_overrides_iff h]
  refine ⟨Implements.apart, fun hapart => ⟨members_eq _ _, fun f hf => ?_, hapart⟩⟩
  have hmem : requirementOverride f (f.returnsFor m c).sourceText ∈ overrides (plan m o c) := by
    rw [overrides_plan h]
    exact List.mem_append_right _ (List.mem_map.2 ⟨f, hf, rfl⟩)
  refine filter_eq_singleton (hapart.imp fun hne hsame => hne ?_) hmem (decide_eq_true ⟨rfl, rfl⟩)
  obtain ⟨hk, hn⟩ := of_decide_eq_true hsame.1
  obtain ⟨hk', hn'⟩ := of_decide_eq_true hsame.2
  exact ⟨hk.trans hk'.symm, hn.trans hn'.symm⟩

/-- Nothing fails in silence exactly if no component that is planned without an error asks for a
property with the name of its cache. -/
theorem noSilentFailure_iff : NoSilentFailure m o ↔
    (Diagnostic.anyError (process m o).diagnostics = false →
      ∀ c ∈ components m, ¬ AsksForCache m o c) := by
  have hplanned : Diagnostic.anyError (process m o).diagnostics = false → ∀ c ∈ components m,
      (plan m o c).failure = none := by
    intro hclean c hc
    by_contra hfails
    have herror := anyError_process_iff.2 ⟨c, hc, .inl hfails⟩
    rw [hclean] at herror
    cases herror
  constructor
  · intro h hclean c hc
    exact (implements_iff (hplanned hclean c hc)).1 (h.implemented hclean c hc)
  · intro h
    exact {
      files := by rw [process, List.map_map]; rfl
      errors := anyError_process_iff
      status := by
        intro σ fs path s t base t₁ t₂ said t₃ hoptions ho hmodel hfiles
        subst ho
        rw [CommandLine.exitCode_generate hoptions hmodel hfiles, ← anyError_process_iff]
        cases Diagnostic.anyError (process m (s.options base)).diagnostics <;> simp
      implemented := fun hclean c hc =>
        (implements_iff (hplanned hclean c hc)).2 (h hclean c hc) }

/-- A vault with a scope that asks for something by the name of its cache. -/
def vault : ClassDecl :=
  Sketch.component "Vault" ["app.Single"] [] [Sketch.requirement "_scoped" (Sketch.type "Gem") []]

/-- The program of the vault. -/
def vaultProgram : Model := Sketch.program [vault, Sketch.injectable "Gem" [] []]

/-- The class of the vault has two properties of one name, and nothing is reported. -/
theorem not_noSilentFailure_vault :
    (process vaultProgram {}).diagnostics = [] ∧
    (overrides (plan vaultProgram {} ⟨0, vault, false⟩)).map Override.signature
      = ["override val _scoped: me.tatarka.inject.internal.LazyMap",
        "override val _scoped: app.Gem"] ∧
    ¬ NoSilentFailure vaultProgram {} := by
  refine ⟨by decide +kernel, by decide +kernel, fun h => ?_⟩
  have hapart := (h.implemented (by decide +kernel) ⟨0, vault, false⟩
    (List.mem_of_getElem? (i := 0) rfl)).apart
  obtain ⟨v, w, hoverrides, hk, hn⟩ : ∃ v w,
      overrides (plan vaultProgram {} ⟨0, vault, false⟩) = [v, w] ∧ v.kind = w.kind ∧
        v.name = w.name := ⟨_, _, rfl, rfl, rfl⟩
  rw [hoverrides] at hapart
  exact (List.pairwise_cons.1 hapart).1 w (List.mem_singleton.2 rfl) ⟨hk, hn⟩

end Emit

end Wiring
