import Wiring.Proofs.Catalogue.Paths
import Wiring.Proofs.Component.Caches
import Wiring.Proofs.Emit.Classes
import Wiring.Proofs.Sketch

/-!
# Holders of caches

A value that is cached in a parent is taken from the cache of another generated class, which was
planned by itself. The owner of the scope that is recorded for the value is the first class with a
scope in the chain of the parent, and so it is when the parent is planned: the class generated for
the parent implements the interface of components with a cache, and declares the cache.
-/

namespace Wiring

open Annotation (component)
open Collect

namespace Arrival

/-- Every component but the one at the start of a walk is reached by a parameter. -/
theorem exists_walk_eq_cons (m : Model) (c : Classifier) :
    ∃ rest, walk m c = (start c, true) :: rest ∧ ∀ n ∈ rest, n.1.accessor ≠ none := by
  rw [walk, Walk.meetings, if_neg List.not_mem_nil]
  refine ⟨_, rfl, ?_⟩
  have honward : ∀ a, ∀ b ∈ onward m a, b.accessor ≠ none := by
    intro a b hb
    obtain ⟨_, _, p, _, rfl⟩ := mem_onward_iff.1 hb
    exact Option.some_ne_none _
  refine Walk.forall_mem_meetings (fun a _ => honward a) _ _ _ fun b hb => ?_
  rw [List.append_nil] at hb
  exact honward _ b hb

end Arrival

namespace Catalogue

variable {m : Model} {o : Options} {c d a : Classifier} {key : Key} {b : Binding}
  {owner : ScopeOwner} {scope : TypeExpr}

/-- The owner of the own scope of a class is the one found in its chain. -/
theorem ownScope?_collect (m : Model) (o : Options) (d : Classifier) :
    (collect m o d).ownScope? = ownerOf none (Role.findScope m o d) := by
  obtain ⟨rest, hwalk, hrest⟩ := Arrival.exists_walk_eq_cons m d
  have hothers : (rest.filterMap fun n => n.1.component.bind fun e =>
      ownerOf n.1.accessor (Role.findScope m o e)).find? (·.accessor.isNone) = none := by
    refine List.find?_eq_none.2 fun owner howner hnone => ?_
    obtain ⟨n, hn, howner⟩ := List.mem_filterMap.1 howner
    obtain ⟨e, _, howner⟩ := Option.bind_eq_some_iff.1 howner
    rw [(firstScoped_of_ownerOf howner).1] at hnone
    exact hrest n hn (Option.isNone_iff_eq_none.1 hnone)
  rw [ownScope?, owners_collect, scopeOwners, hwalk, List.filterMap_cons]
  have hstart : ((Arrival.start d).component.bind fun e =>
      ownerOf (Arrival.start d).accessor (Role.findScope m o e))
        = ownerOf none (Role.findScope m o d) := rfl
  rw [hstart]
  cases howner : ownerOf none (Role.findScope m o d) with
  | none => exact hothers
  | some owner =>
    refine List.find?_cons_of_pos ?_
    rw [(firstScoped_of_ownerOf howner).1]
    rfl

/-- The scope that is written on what makes the value of a binding: on the class that is
constructed, on the member, or on a contributor. -/
inductive ScopeWritten (m : Model) (o : Options) (key : Key) : Binding → TypeExpr → Prop where
  | constructor {k owner d scope} (hd : m.classOf key.type = some d)
      (hk : d.constructor? m = some k) (hs : Role.scope? o (d.annotations m) = some scope) :
      ScopeWritten m o key (.constructor k owner) scope
  | provider {p : Provider} {scope} (hs : Role.scope? o p.callable.annotations = some scope) :
      ScopeWritten m o key (.provider p) scope
  | container {k : Container} {p : Provider} {scope} (hp : p ∈ k.parts)
      (hs : Role.scope? o p.callable.annotations = some scope) :
      ScopeWritten m o key (.container k) scope

/-- A member is cached in the scope that is written on it. -/
theorem scope?_of_memberScope {l : Level} {f : Callable} (h : memberScope o l f = some owner) :
    Role.scope? o f.annotations = some owner.scope := by
  rw [memberScope] at h
  split at h
  · next hs hl =>
    split at h
    · next he =>
      cases h
      rw [hs, he]
    · cases h
  · cases h

/-- The owner of a binding owns the scope that is written on what makes its value, and is in
reach. -/
theorem Binds.scopeWritten (h : Binds m o (collect m o c) key b) (hs : b.scope? = some owner) :
    ScopeWritten m o key b owner.scope ∧ owner ∈ scopeOwners m o c := by
  have hoffered : ∀ {l : Level} {f : Callable}, l ∈ levels m o c → offerScope o l f = some owner →
      Role.scope? o f.annotations = some owner.scope ∧ owner ∈ scopeOwners m o c := by
    intro l f hl hscope
    obtain ⟨_, hscope⟩ := Option.ite_none_right_eq_some.1 hscope
    exact ⟨scope?_of_memberScope hscope, mem_scopeOwners_of_level hl (scope_of_memberScope hscope)⟩
  cases h with
  | explicit hlookup =>
    obtain ⟨l, hl, f, _, rfl⟩ := offers_of_lookup_bindings hlookup
    obtain ⟨hwritten, howner⟩ := hoffered hl hs
    exact ⟨.provider hwritten, howner⟩
  | required hlookup =>
    obtain ⟨l, hl, f, _, rfl, _⟩ := offers_of_lookup_requirements hlookup
    obtain ⟨hwritten, howner⟩ := hoffered hl hs
    exact ⟨.provider hwritten, howner⟩
  | collection hlookup =>
    obtain ⟨_, hparts, hscope⟩ := parts_of_lookup_containers hlookup
    rw [Binding.scope?, hscope] at hs
    obtain ⟨n, hn, hmember⟩ := List.exists_of_findSome?_eq_some hs
    obtain ⟨hl, _, _⟩ := mem_levels_of_mem_contributors hn
    refine ⟨.container (p := ⟨n.2, n.1.accessor, none⟩) ?_ (scope?_of_memberScope hmember),
      mem_scopeOwners_of_level hl (scope_of_memberScope hmember)⟩
    rw [hparts]
    exact List.mem_map.2 ⟨n, hn, rfl⟩
  | constructed _ hd _ hk hscope ho =>
    have howner := ho owner hs
    rw [ownerOf?, owners_collect] at howner
    refine ⟨.constructor hd hk ?_, List.mem_of_find?_eq_some howner⟩
    rw [hscope]
    exact congrArg (Option.map ScopeOwner.scope) hs

end Catalogue

namespace Component

open Catalogue Emit

variable {m : Model} {o : Options} {c d a : Classifier} {scope : TypeExpr}

/-- The plan of a component is for that component. -/
theorem component_plan (m : Model) (o : Options) (d : Classifier) :
    (plan m o d).component = d := by
  rw [plan]
  split
  · rfl
  · dsimp only
    split <;> rfl

/-- The scope of a plan is the one the component has itself. -/
theorem scope_plan (hi : invalid? d = none) :
    (plan m o d).scope = (collect m o d).ownScope?.map (·.scope) := by
  simp only [plan, hi]
  split <;> rfl

/-- A class can be a component exactly if it is abstract and can be seen. -/
theorem invalid?_eq_none_iff : invalid? d = none ↔ d.isAbstract = true ∧ d.isPrivate = false := by
  rw [invalid?]
  cases d.isAbstract <;> cases d.isPrivate <;> simp

/-- A component that has a cache for a scope: planned by itself it has this scope, the class that is
generated for it implements the interface of components with a cache and overrides the cache, and
its file is written if it is annotated as a component. -/
structure HoldsCache (m : Model) (o : Options) (d : Classifier) (scope : TypeExpr) : Prop where
  scope : (plan m o d).scope = some scope
  overrides : cacheOverride ∈ overrides (plan m o d)
  implements : Text.Contains (generate m o d).file.contents
    (" : " ++ superCall m d ++ ", " ++ scopedComponent ++ " \x7b")
  declares : Text.Contains (generate m o d).file.contents cacheOverride.signature
  written : Annotation.component ∈ d.decl.annotations →
    (generate m o d).file ∈ (process m o).files

/-- Processing a program writes a file for each class that is annotated as a component. -/
theorem mem_files_of_annotated (hd : d ∈ m.classifiers)
    (h : Annotation.component ∈ d.decl.annotations) :
    (generate m o d).file ∈ (process m o).files := by
  refine List.mem_map.2 ⟨generate m o d, List.mem_map.2 ⟨d, ?_, rfl⟩, rfl⟩
  obtain ⟨⟨decl, index⟩, hdecl, rfl⟩ := List.mem_map.1 hd
  refine List.mem_map.2 ⟨(decl, index), List.mem_filter.2 ⟨hdecl, ?_⟩, rfl⟩
  exact List.contains_iff_mem.2 h

/-- A class that can be a component holds a cache for the first scope of its chain. -/
theorem holdsCache (hd : d ∈ m.classifiers) (hi : invalid? d = none)
    (h : FirstScoped m o d a scope) : HoldsCache m o d scope := by
  have hscope : (plan m o d).scope = some scope := by
    rw [scope_plan hi, ownScope?_collect, ownerOf, found_findScope_iff.2 h]
    rfl
  have hsome : (plan m o d).scope.isSome = true := by rw [hscope, Option.isSome_some]
  have hoverrides : cacheOverride ∈ Emit.overrides (plan m o d) := by
    rw [Emit.overrides, if_pos hsome]
    exact List.mem_append_left _ (List.mem_singleton.2 rfl)
  refine ⟨hscope, hoverrides, ?_, ?_, fun h => mem_files_of_annotated hd h⟩
  · have hshows : (componentClass m (generatedName d) (plan m o d)).Shows
        (" : " ++ superCall m (plan m o d).component ++ ", " ++ scopedComponent ++ " \x7b") :=
      shows_scopedComponent hsome
    rw [component_plan] at hshows
    exact contains_generate hshows
  · obtain ⟨v, hv, hdeclares⟩ := exists_declares_of_mem hoverrides
    exact contains_generate (shows_componentClass_of_mem hv hdeclares.shows)

/-- Whatever is taken from a cache in the plans of a component is made by a binding on which a scope
is written, and the accessor of the cache leads to a class that, if it can be a component at all,
holds a cache for that scope. -/
def CachesHeld (m : Model) (o : Options) (c : Classifier) : Prop :=
  ∀ p ∈ (plan m o c).providers, ∀ accessor owner name inner,
    (Plan.cached accessor owner name inner).Within p.plan →
    ∃ q b scope d, Entry m o c accessor name q b ∧ ScopeWritten m o q.key b scope ∧
      Reached m c accessor d ∧
      (d.isAbstract = true → d.isPrivate = false → HoldsCache m o d scope) ∧
      (accessor = none → HoldsCache m o c scope)

/-- What is reached from a class of the program is a class of the program. -/
theorem mem_classifiers_of_reached {accessor : Option String} (hc : c ∈ m.classifiers)
    (h : Reached m c accessor d) : d ∈ m.classifiers := by
  obtain ⟨names, _, hleads⟩ := h
  cases hleads with
  | here => exact hc
  | onward _ _ he => exact Model.mem_classifiers_of_classOf he

/-- Components that are generated separately agree on who holds a cache. -/
theorem cachesHeld (m : Model) (o : Options) (c : Classifier) (hc : c ∈ m.classifiers) :
    CachesHeld m o c := by
  intro p hp accessor owner name inner hwithin
  obtain ⟨q, filled, parent, p', hp', hn⟩ := node_of_within hc hp hwithin rfl
  obtain ⟨b, s, hf, hs, rfl, rfl, _, _⟩ := hn.of_cached hc
  obtain ⟨hwritten, howner⟩ := (binds_of_resolve hf.found).scopeWritten hs
  obtain ⟨d, hreached, hfirst⟩ := reached_of_mem_scopeOwners howner
  have hholds : d.isAbstract = true → d.isPrivate = false → HoldsCache m o d s.scope :=
    fun ha hpriv => holdsCache (mem_classifiers_of_reached hc hreached)
      (invalid?_eq_none_iff.2 ⟨ha, hpriv⟩) hfirst
  refine ⟨q, b, s.scope, d, ⟨⟨s.component, inner, filled, parent, p', hp', hn⟩, hf⟩, hwritten,
    hreached, hholds, fun hnone => ?_⟩
  -- Without an accessor the cache is that of the component, which has been planned.
  rw [hnone] at hreached
  obtain rfl := hreached.eq_of_none
  cases hi : invalid? d with
  | none =>
    obtain ⟨ha, hpriv⟩ := invalid?_eq_none_iff.1 hi
    exact hholds ha hpriv
  | some failure =>
    simp only [plan, hi] at hp
    exact absurd hp List.not_mem_nil

/-- A villa with a cellar, where the wine is kept. -/
def villa : ClassDecl :=
  Sketch.component "Villa" [] [Sketch.param "cellar" (Sketch.type "Cellar") [component]]
    [Sketch.requirement "wine" (Sketch.type "Wine") []]

/-- The program of the villa. -/
def villaProgram : Model :=
  Sketch.program [villa, Sketch.component "Cellar" ["app.Single"] [] [],
    Sketch.injectable "Wine" ["app.Single"] []]

/-- The wine of the villa is kept in the cellar, which holds a cache. -/
theorem cachesHeld_villa : ⟨0, villa, false⟩ ∈ villaProgram.classifiers ∧
    (∃ p ∈ (plan villaProgram {} ⟨0, villa, false⟩).providers, ∃ owner name inner,
      p.plan = .cached (some "cellar") owner name inner) ∧
    CachesHeld villaProgram {} ⟨0, villa, false⟩ := by
  have hc : ⟨0, villa, false⟩ ∈ villaProgram.classifiers := Model.mem_classifiers.2 ⟨rfl, rfl⟩
  exact ⟨hc, ⟨_, List.mem_of_getElem? (i := 0) rfl, _, _, _, rfl⟩,
    cachesHeld villaProgram {} ⟨0, villa, false⟩ hc⟩

end Component

end Wiring
