import Wiring.Proofs.Catalogue.Losses
import Wiring.Proofs.Component.Caches
import Wiring.Proofs.Resolve.Origins

/-!
# What the cache of a parent is filled with

A value that is cached in a parent is built where it is asked for, from whatever is in reach there.
The member that is cached itself belongs to the parent, but what it needs is looked up in the
catalogue of the generated component, level after level, and the component comes before its
parents. So the entry is built from the parent, and from what is reached through it, exactly when
the levels of the component supply nothing else for what is looked up on the way.
-/

namespace Wiring

open Annotation (component)
open Collect

/-- The accessor is `p`, or goes on from there by further segments. -/
def Below (p : String) (accessor : Option String) : Prop :=
  accessor = some p ∨ ∃ rest, accessor = some (p ++ "." ++ rest)

/-- The accessor that is written in the call of a member or before a cache. -/
def Plan.accessor? : Plan → Option (Option String)
  | .call accessor _ _ => some accessor
  | .extensionCall accessor _ _ _ => some accessor
  | .cached accessor _ _ _ => some accessor
  | _ => none

/-- What is supplied for a request by the levels of a component, by the accessor at which it was
collected. -/
inductive Supplies (m : Model) (o : Options) (c : Classifier) (q : Request) :
    Option String → Prop where
  /-- The first of all members that bind the key. -/
  | bound {n : Level × Callable} (h : (binders m o c q.key).head? = some n) :
      Supplies m o c q n.1.accessor
  /-- Any contributor to the collection of the key, at whatever level. -/
  | contributed {b : Builder} {n : Level × Callable} (hnone : binders m o c q.key = [])
      (h : n ∈ contributors m o c b q.key) : Supplies m o c q n.1.accessor
  /-- The first owner of the scope of an injectable class, unless an entry of this type is being
  filled. -/
  | owned {cls : Classifier} {k : Constructor} {scope : TypeExpr} {owner : ScopeOwner}
      (hnone : binders m o c q.key = []) (hnone' : ∀ b, contributors m o c b q.key = [])
      (hq : q.key.qualifier = none) (hcls : m.classOf q.key.type = some cls)
      (hi : Role.isInjectClass m o cls = true) (hk : cls.constructor? m = some k)
      (hs : Role.scope? o (cls.annotations m) = some scope)
      (ho : (scopeOwners m o c).find? (·.scope == scope) = some owner)
      (hskip : q.context.skipScoped ≠ some q.key.type) : Supplies m o c q owner.accessor
  /-- A requirement of the component itself, when nothing else is bound to the key. -/
  | asked {p : Provider}
      (hnone : (Catalogue.collect m o c).resolve m o q.key true = .ok none)
      (h : (Catalogue.collect m o c).requirements.lookup q.key = some p)
      (hskip : q.context.skipProvider ≠ some q.key.type) : Supplies m o c q none

namespace Resolver

/-- A request calls a member that was collected at an accessor, or takes its value from a cache that
was. -/
inductive Uses (r : Resolver) (q : Request) : Option String → Prop where
  | call {candidate : Candidate} {p : Provider}
      (hc : r.candidate q.key q.context q.fromEnd = .ok (some candidate))
      (ht : .enter (.member p) ∈ candidate.tasks q.key q.context) : Uses r q p.accessor
  | cache {owner : ScopeOwner}
      (hc : r.candidate q.key q.context q.fromEnd = .ok (some (.cached owner))) :
      Uses r q owner.accessor

/-- No lambda parameter comes before the catalogue. -/
def LooksUp (r : Resolver) (q : Request) : Prop :=
  q.fromEnd.bind (r.argAt? q.key q.context) = none

end Resolver

namespace Catalogue

variable {m : Model} {o : Options} {c : Classifier} {key : Key} {b : Binding} {skipOwn : Bool}
  {owner : ScopeOwner} {n : Level × Callable}

/-- A member is cached at the accessor of its level. -/
theorem accessor_of_memberScope (hl : n.1 ∈ levels m o c)
    (h : memberScope o n.1 n.2 = some owner) : owner.accessor = n.1.accessor := by
  have hscope := scope_of_memberScope h
  rw [eq_levelAt_of_mem_levels hl, levelAt, ownerOf] at hscope
  obtain ⟨found, _, rfl⟩ := Option.map_eq_some_iff.1 hscope
  rfl

/-- What keeps the offer of a level is reached as the level is. -/
theorem accessor_of_offerScope (hl : n.1 ∈ levels m o c)
    (h : offerScope o n.1 n.2 = some owner) : owner.accessor = n.1.accessor := by
  rw [offerScope] at h
  split at h
  · exact accessor_of_memberScope hl h
  · cases h

/-- A key that is bound to something other than a member has no binder. -/
theorem binders_eq_nil (h : (collect m o c).resolve m o key skipOwn = .ok (some b))
    (hb : ∀ p, b ≠ .provider p) : binders m o c key = [] := by
  by_contra hne
  obtain ⟨n, rest, hn⟩ := List.exists_cons_of_ne_nil hne
  have hbound := resolve_of_binders (n := n) (by rw [hn]; rfl) skipOwn
  rw [h] at hbound
  exact hb _ (Option.some.inj (Except.ok.inj hbound))

/-- A key without binders that is bound to something other than a collection has no
contributors. -/
theorem contributors_eq_nil (hnone : binders m o c key = [])
    (h : (collect m o c).resolve m o key skipOwn = .ok (some b)) (hb : ∀ k, b ≠ .container k)
    (builder : Builder) : contributors m o c builder key = [] := by
  by_contra hne
  obtain ⟨k, hk, _⟩ := resolve_of_contributors hnone hne
  rw [hk] at h
  exact hb k (Option.some.inj (Except.ok.inj h)).symm

/-- A member with a scope is cached where it was collected. -/
theorem accessor_of_scope {p : Provider}
    (h : (collect m o c).resolve m o key skipOwn = .ok (some (.provider p)))
    (hs : p.scope = some owner) : p.accessor = owner.accessor := by
  rcases binder_or_requirement h with ⟨n, hn, rfl⟩ | ⟨_, hlookup, _⟩
  · have hl := (mem_binders_iff.1 (List.mem_of_mem_head? hn)).1
    exact (accessor_of_offerScope hl hs).symm
  · rw [scope_of_lookup_requirements hlookup] at hs
    cases hs

/-- A collection with a scope is cached where the first contributor with a scope was collected. -/
theorem collection_of_scope {k : Container}
    (h : (collect m o c).resolve m o key skipOwn = .ok (some (.container k)))
    (hs : k.scope = some owner) :
    k.parts = (contributors m o c k.builder key).map (fun n => ⟨n.2, n.1.accessor, none⟩) ∧
      ∃ before n after, contributors m o c k.builder key = before ++ n :: after ∧
        (∀ n' ∈ before, memberScope o n'.1 n'.2 = none) ∧ memberScope o n.1 n.2 = some owner ∧
        n.1.accessor = owner.accessor := by
  cases binds_of_resolve h with
  | collection hlookup =>
    obtain ⟨_, hparts, hscope⟩ := parts_of_lookup_containers hlookup
    rw [hscope] at hs
    obtain ⟨before, n, after, hl, hn, hbefore⟩ := List.findSome?_eq_some_iff.1 hs
    have hmem : n ∈ contributors m o c k.builder key := mem_of_split hl
    exact ⟨hparts, before, n, after, hl, hbefore, hn,
      (accessor_of_memberScope (mem_levels_of_mem_contributors hmem).1 hn).symm⟩

/-- An injectable class with a scope is bound with the first owner of the scope, when its key has
neither binders nor contributors. -/
theorem resolve_of_owner {cls : Classifier} {k : Constructor} {scope : TypeExpr}
    (hnone : binders m o c key = []) (hnone' : ∀ b, contributors m o c b key = [])
    (hq : key.qualifier = none) (hcls : m.classOf key.type = some cls)
    (hi : Role.isInjectClass m o cls = true) (hk : cls.constructor? m = some k)
    (hs : Role.scope? o (cls.annotations m) = some scope)
    (ho : (scopeOwners m o c).find? (·.scope == scope) = some owner) (skipOwn : Bool) :
    (collect m o c).resolve m o key skipOwn = .ok (some (.constructor k (some owner))) := by
  obtain ⟨hbindings, hcontainers⟩ := lookups_eq_none hnone hnone'
  have howner : (collect m o c).ownerOf? scope = some owner := by
    rw [ownerOf?, owners_collect, ho]
  have hctor : (collect m o c).constructorBinding m o key.type
      = .ok (some (.constructor k (some owner))) := by
    rw [constructorBinding]
    simp only [hcls, hi, if_true, hk, hs, howner]
  rw [resolve]
  simp only [hbindings, hcontainers, hq, hctor]

/-- A requirement of the component itself is bound to its key when nothing else is. -/
theorem resolve_of_requirement {p : Provider}
    (hnone : (collect m o c).resolve m o key true = .ok none)
    (h : (collect m o c).requirements.lookup key = some p) :
    (collect m o c).resolve m o key false = .ok (some (.provider p)) := by
  have hown : (collect m o c).requirementBinding key false = some (.provider p) := by
    rw [requirementBinding, h]
    rfl
  rw [resolve] at hnone ⊢
  rw [hown]
  cases hb : (collect m o c).bindings.lookup key with
  | some p' =>
    rw [hb] at hnone
    cases hnone
  | none =>
    rw [hb] at hnone
    cases hk : (collect m o c).containers.lookup key with
    | some k =>
      rw [hk] at hnone
      cases hnone
    | none =>
      rw [hk] at hnone
      cases hq : key.qualifier with
      | some qualifier => rfl
      | none =>
        rw [hq] at hnone
        cases hctor : (collect m o c).constructorBinding m o key.type with
        | error e =>
          rw [hctor] at hnone
          cases hnone
        | ok found =>
          rw [hctor] at hnone
          cases found with
          | none => rfl
          | some b => cases hnone

end Catalogue

namespace Resolver

open Catalogue

variable {m : Model} {o : Options} {c : Classifier} {q : Request} {a : Option String}

/-- A lambda parameter uses nothing. -/
theorem Uses.looksUp {r : Resolver} (h : r.Uses q a) : r.LooksUp q := by
  rw [LooksUp]
  cases harg : q.fromEnd.bind (r.argAt? q.key q.context) with
  | none => rfl
  | some name =>
    have hcand : r.candidate q.key q.context q.fromEnd = .ok (some (.arg name)) := by
      rw [Resolver.candidate, harg]
    cases h with
    | call hc ht =>
      rw [hcand] at hc
      cases hc
      exact absurd ht List.not_mem_nil
    | cache hc =>
      rw [hcand] at hc
      cases hc

/-- The accessor in the plan of a subject is that of a member, as it is written at its place. -/
theorem accessor_of_visit {r : Resolver} {answer : Request → Except Failure Plan}
    {context : Context} {s : Subject} {plan : Plan} (hv : r.visit answer context s = .ok plan)
    (h : plan.accessor? = some a) :
    ∃ p scope, s = .member p ∧ a = p.accessor.map (relativeAccessor scope) := by
  obtain ⟨inner, plans, _, _, rfl⟩ := visit_eq_ok_iff.1 hv
  cases s with
  | member p =>
    refine ⟨p, inner.parentScope, rfl, ?_⟩
    rw [Subject.plan] at h
    cases hr : p.callable.receiver with
    | none =>
      rw [hr] at h
      exact (Option.some.inj h).symm
    | some type =>
      rw [hr] at h
      exact (Option.some.inj h).symm
  | constructor => cases h
  | lambda => cases h
  | function => cases h

/-- Every call of a member and every cache inside the plan that answers a request is used by a
node. -/
theorem exists_uses_of_within (hc : c ∈ m.classifiers) {whole part : Plan}
    (ha : (Component.resolver m o c).answer q = .ok whole) (hpart : part.Within whole)
    (h : part.accessor? = some a) :
    ∃ q' plan filled parent a' scope,
      (Component.resolver m o c).PlanNode q q' plan filled parent ∧
      (Component.resolver m o c).Uses q' a' ∧ a = a'.map (relativeAccessor scope) := by
  by_cases hentered : part.isEntered = true
  · obtain ⟨q', plan, filled, parent, _, _, hn, hcand, ht, hv⟩ :=
      exists_visit_of_within hc ha hpart hentered
    obtain ⟨p, scope, rfl, haccessor⟩ := accessor_of_visit hv h
    exact ⟨q', plan, filled, parent, p.accessor, scope, hn, .call hcand ht, haccessor⟩
  · cases part with
    | call => exact absurd rfl hentered
    | extensionCall => exact absurd rfl hentered
    | cached =>
      obtain ⟨q', filled, parent, hn⟩ := exists_cached_of_within hc ha hpart rfl
      rcases cached_of_step (hn.step_eq hc) with ⟨hu, _⟩ | ⟨owner, _, hcand, _, he⟩
      · cases hu
      cases he
      cases h
      refine ⟨q', _, filled, parent, owner.accessor, none, hn, .cache hcand, ?_⟩
      cases owner.accessor <;> rfl
    | _ => cases h

/-- A member that is entered for a binding is supplied. -/
theorem Finds.supplies_member {b : Binding} {p : Provider}
    (hf : (Component.resolver m o c).Finds q.key q.context q.fromEnd b)
    (hs : .member p ∈ b.subjects) : Supplies m o c q p.accessor := by
  have hfound : (collect m o c).resolve m o q.key _ = .ok (some b) := hf.found
  cases b with
  | constructor => cases List.mem_singleton.1 hs
  | provider p' =>
    cases List.mem_singleton.1 hs
    rcases binder_or_requirement hfound with ⟨n, hn, rfl⟩ | ⟨hnone, hlookup, hskip⟩
    · exact .bound hn
    · obtain ⟨_, _, _, _, rfl, ha⟩ := offers_of_lookup_requirements hlookup
      dsimp only
      rw [ha]
      exact .asked hnone hlookup (by simpa using hskip)
  | container k =>
    obtain ⟨p', hp, hs⟩ := List.mem_map.1 hs
    cases hs
    have hnone := binders_eq_nil hfound fun _ he => by cases he
    cases binds_of_resolve hfound with
    | collection hlookup =>
      rw [(parts_of_lookup_containers hlookup).2.1] at hp
      obtain ⟨n, hn, rfl⟩ := List.mem_map.1 hp
      exact .contributed hnone hn

/-- The cache that the value of a binding is taken from is supplied, with the member that has its
scope or with the scope of the class. -/
theorem Finds.supplies_owner {b : Binding} {owner : ScopeOwner}
    (hf : (Component.resolver m o c).Finds q.key q.context q.fromEnd b)
    (hs : b.scope? = some owner) (hne : q.context.skipScoped ≠ some q.key.type) :
    Supplies m o c q owner.accessor := by
  have hfound : (collect m o c).resolve m o q.key _ = .ok (some b) := hf.found
  cases b with
  | provider p =>
    rw [← accessor_of_scope hfound hs]
    exact hf.supplies_member (List.mem_singleton.2 rfl)
  | container k =>
    obtain ⟨_, n, _, hl, _, _, ha⟩ := (collection_of_scope hfound hs).2
    rw [← ha]
    exact .contributed (binders_eq_nil hfound fun _ he => by cases he) (mem_of_split hl)
  | constructor k scope =>
    have hscope : scope = some owner := hs
    subst hscope
    have hnone := binders_eq_nil hfound fun _ he => by cases he
    have hnone' := contributors_eq_nil hnone hfound fun _ he => by cases he
    cases binds_of_resolve hfound with
    | constructed hq hcls hi hk hs ho =>
      have howner := ho owner rfl
      rw [ownerOf?, owners_collect] at howner
      exact .owned hnone hnone' hq hcls hi hk hs howner hne

/-- Whatever a request uses is supplied for it. -/
theorem Uses.supplied (h : (Component.resolver m o c).Uses q a) : Supplies m o c q a := by
  cases h with
  | @call candidate p hc ht =>
    cases chosen_of_candidate hc with
    | arg => exact absurd ht List.not_mem_nil
    | offered ho => cases ho <;> cases List.mem_singleton.1 ht
    | @bound b hf =>
      rcases ofBinding_cases q.key q.context b with ⟨he, _⟩ | ⟨owner, _, he, _⟩
      · rw [he, Binding.tasks_unscoped] at ht
        obtain ⟨s, hs, he⟩ := List.mem_map.1 ht
        cases he
        exact hf.supplies_member hs
      · rw [he] at ht
        cases List.mem_singleton.1 ht
  | cache hc =>
    obtain ⟨b, hf, hs, hne⟩ := finds_of_cached hc
    exact hf.supplies_owner hs hne

/-- A member that is entered for a binding is called by the request that finds the binding, or by
the one that fills the entry from which it takes its value. -/
theorem Finds.uses_member {r : Resolver} {b : Binding} {p : Provider}
    (hf : r.Finds q.key q.context q.fromEnd b) (hs : .member p ∈ b.subjects) :
    r.Uses q p.accessor ∨
      (∃ owner, r.candidate q.key q.context q.fromEnd = .ok (some (.cached owner))) ∧
        r.Uses q.entry p.accessor := by
  have htask : ∀ context, .enter (.member p) ∈ b.unscoped.tasks q.key context := by
    intro context
    rw [Binding.tasks_unscoped]
    exact List.mem_map.2 ⟨_, hs, rfl⟩
  have hc := hf.candidate
  rcases ofBinding_cases q.key q.context b with ⟨he, _⟩ | ⟨owner, _, he, _⟩
  · rw [he] at hc
    exact .inl (.call hc (htask _))
  · rw [he] at hc
    have hentry := hf.entry.candidate
    rw [ofBinding_of_skipScoped b rfl] at hentry
    exact .inr ⟨⟨owner, hc⟩, .call hentry (htask _)⟩

/-- Whatever is supplied for a request that is looked up is used by it, or by the request that fills
the entry from which it takes its value. -/
theorem used_of_supplies (hq : (Component.resolver m o c).LooksUp q) (h : Supplies m o c q a) :
    (Component.resolver m o c).Uses q a ∨
      (∃ owner, (Component.resolver m o c).candidate q.key q.context q.fromEnd
        = .ok (some (.cached owner))) ∧ (Component.resolver m o c).Uses q.entry a := by
  cases h with
  | @bound n h =>
    have hf : (Component.resolver m o c).Finds q.key q.context q.fromEnd
        (.provider (providerOf o n)) := ⟨hq, resolve_of_binders h _⟩
    exact hf.uses_member (List.mem_singleton.2 rfl)
  | @contributed b n hnone h =>
    obtain ⟨k, hk, hparts⟩ := resolve_of_contributors hnone (List.ne_nil_of_mem h)
    have hf : (Component.resolver m o c).Finds q.key q.context q.fromEnd (.container k) :=
      ⟨hq, hk _⟩
    have hpart : .member ⟨n.2, n.1.accessor, none⟩ ∈ (Binding.container k).subjects := by
      rw [Binding.subjects, hparts]
      exact List.mem_map.2 ⟨_, List.mem_map.2 ⟨n, h, rfl⟩, rfl⟩
    exact hf.uses_member hpart
  | @owned cls k scope owner hnone hnone' hqual hcls hi hk hs ho hskip =>
    have hf : (Component.resolver m o c).Finds q.key q.context q.fromEnd
        (.constructor k (some owner)) :=
      ⟨hq, resolve_of_owner hnone hnone' hqual hcls hi hk hs ho _⟩
    have hc := hf.candidate
    rw [ofBinding_of_scope rfl hskip] at hc
    exact .inl (.cache hc)
  | @asked p hnone h hskip =>
    have hown : (q.context.skipProvider == some q.key.type) = false := by simpa using hskip
    have hf : (Component.resolver m o c).Finds q.key q.context q.fromEnd (.provider p) := by
      refine ⟨hq, ?_⟩
      rw [hown]
      exact resolve_of_requirement hnone h
    obtain ⟨_, _, _, _, hp, ha⟩ := offers_of_lookup_requirements h
    have haccessor : p.accessor = none := by rw [hp, ha]
    rw [← haccessor]
    exact hf.uses_member (List.mem_singleton.2 rfl)

end Resolver

namespace Component

open Catalogue

/-- Whatever is used for the entry of a request was collected at the accessor `p`, or at one that
goes on from there. -/
def BuiltAt (m : Model) (o : Options) (c : Classifier) (p : String) (q : Request) : Prop :=
  ∀ q' part filled parent, (resolver m o c).PlanNode q.entry q' part filled parent →
    ∀ a, (resolver m o c).Uses q' a → Below p a

/-- Values that are cached in a parent are built from this parent. -/
def BuiltFromParents (m : Model) (o : Options) (c : Classifier) : Prop :=
  ∀ q whole filled parent owner p, Node m o c q whole filled parent →
    (resolver m o c).candidate q.key q.context q.fromEnd = .ok (some (.cached owner)) →
    owner.accessor = some p → BuiltAt m o c p q

/-- Values that are cached in a parent are built from the catalogue of the component that asks for
them. -/
structure BuiltFromCatalogue (m : Model) (o : Options) (c : Classifier) : Prop where
  /-- A member is cached where it was collected. -/
  member : ∀ (q : Request) p owner, (resolver m o c).Finds q.key q.context q.fromEnd (.provider p) →
    p.scope = some owner → p.accessor = owner.accessor
  /-- A collection is cached where the first contributor with a scope was collected, and is made of
  the contributors at all levels. -/
  collection : ∀ (q : Request) k owner,
    (resolver m o c).Finds q.key q.context q.fromEnd (.container k) → k.scope = some owner →
    k.parts = (contributors m o c k.builder q.key).map (fun n => ⟨n.2, n.1.accessor, none⟩) ∧
      ∃ before n after, contributors m o c k.builder q.key = before ++ n :: after ∧
        (∀ n' ∈ before, memberScope o n'.1 n'.2 = none) ∧ memberScope o n.1 n.2 = some owner ∧
        n.1.accessor = owner.accessor
  /-- A class is cached with the first owner of its scope. -/
  constructed : ∀ (q : Request) k owner,
    (resolver m o c).Finds q.key q.context q.fromEnd (.constructor k (some owner)) →
    ∃ cls scope, m.classOf q.key.type = some cls ∧
      Role.scope? o (cls.annotations m) = some scope ∧
      (scopeOwners m o c).find? (·.scope == scope) = some owner
  /-- Every call of a member and every cache inside the plan that fills an entry is used by a
  request for the entry, and its accessor is written as it is at its place. -/
  covered : ∀ q filled parent accessor owner name inner,
    Node m o c q (.cached accessor owner name inner) filled parent → ∀ (part : Plan) a,
    part.Within inner → part.accessor? = some a → ∃ q' plan filled' parent' a' scope,
      (resolver m o c).PlanNode q.entry q' plan filled' parent' ∧ (resolver m o c).Uses q' a' ∧
      a = a'.map (relativeAccessor scope)
  /-- What a request uses is what all levels together supply for it. -/
  supplied : ∀ q a, (resolver m o c).Uses q a → Supplies m o c q a
  /-- So an entry in a parent is built from this parent exactly when nothing else is supplied for
  what is looked up for it. -/
  built : ∀ q whole filled parent owner p, Node m o c q whole filled parent →
    (resolver m o c).candidate q.key q.context q.fromEnd = .ok (some (.cached owner)) →
    owner.accessor = some p → (BuiltAt m o c p q ↔
      ∀ q' part filled' parent', (resolver m o c).PlanNode q.entry q' part filled' parent' →
        (resolver m o c).LooksUp q' → ∀ a, Supplies m o c q' a → Below p a)

/-- Caches of parents are filled from the catalogue, in all plans of all components. -/
theorem builtFromCatalogue (m : Model) (o : Options) (c : Classifier) (hc : c ∈ m.classifiers) :
    BuiltFromCatalogue m o c where
  member _ _ _ hf hs := accessor_of_scope hf.found hs
  collection _ _ _ hf hs := collection_of_scope hf.found hs
  constructed q k owner hf := by
    cases binds_of_resolve hf.found with
    | constructed _ hcls _ _ hs ho =>
      have howner := ho owner rfl
      rw [ownerOf?, Component.resolver, owners_collect] at howner
      exact ⟨_, owner.scope, hcls, hs, howner⟩
  covered q filled parent accessor owner name inner hnode part a hpart ha := by
    obtain ⟨p, _, hn⟩ := hnode
    obtain ⟨b, _, _, _, _, _, _, hin⟩ := hn.of_cached hc
    exact Resolver.exists_uses_of_within hc hin hpart ha
  supplied _ _ h := h.supplied
  built q whole filled parent owner p _ _ _ := by
    constructor
    · intro h q' part filled' parent' hn hlooks a hsupplies
      rcases Resolver.used_of_supplies hlooks hsupplies with huses | ⟨⟨owner, hcached⟩, huses⟩
      · exact h q' part filled' parent' hn a huses
      · -- It is used to fill the entry from which the request takes its value.
        obtain ⟨inner, filled'', hentry⟩ := hn.exists_asked hc
          (.onward hcached (List.mem_singleton.2 rfl))
        exact h q'.entry inner _ _ hentry a huses
    · intro h q' part filled' parent' hn a huses
      exact h q' part filled' parent' hn huses.looksUp a huses.supplied

/-- A cafe with a roastery behind it. The cafe has its own beans. -/
def cafe : ClassDecl :=
  Sketch.component "Cafe" []
    [Sketch.param "roastery" (Sketch.type "Roastery") [component]]
    [Sketch.requirement "coffee" (Sketch.type "Coffee") [],
      Sketch.provider "stored" [] (Sketch.type "Beans") []]

/-- The roastery, which keeps the coffee, and has beans of its own. -/
def roastery : ClassDecl :=
  Sketch.component "Roastery" ["app.Single"] []
    [Sketch.provider "roasted" [] (Sketch.type "Beans") []]

/-- The program of the cafe and the roastery. -/
def cafeProgram : Model :=
  Sketch.program [cafe, roastery, Sketch.plain "Beans",
    Sketch.injectable "Coffee" ["app.Single"] [Sketch.param "beans" (Sketch.type "Beans") []]]

/-- The coffee of the cafe is built from what its catalogue has in store. -/
theorem builtFromCatalogue_cafe : ⟨0, cafe, false⟩ ∈ cafeProgram.classifiers ∧
    (plan cafeProgram {} ⟨0, cafe, false⟩).providers.map (·.plan.displayText)
      = ["Scoped(Constructor(app.Coffee, Provides(stored)))"] ∧
    BuiltFromCatalogue cafeProgram {} ⟨0, cafe, false⟩ := by
  have hc : ⟨0, cafe, false⟩ ∈ cafeProgram.classifiers := Model.mem_classifiers.2 ⟨rfl, rfl⟩
  exact ⟨hc, by decide +kernel, builtFromCatalogue cafeProgram {} ⟨0, cafe, false⟩ hc⟩

/-- The coffee that is kept in the roastery is made from the beans of the cafe. -/
theorem not_builtFromParents_cafe : ⟨0, cafe, false⟩ ∈ cafeProgram.classifiers ∧
    (plan cafeProgram {} ⟨0, cafe, false⟩).failure.isNone = true ∧
    ¬ BuiltFromParents cafeProgram {} ⟨0, cafe, false⟩ := by
  have hc : ⟨0, cafe, false⟩ ∈ cafeProgram.classifiers := Model.mem_classifiers.2 ⟨rfl, rfl⟩
  refine ⟨hc, by decide +kernel, fun h => ?_⟩
  obtain ⟨r, p, coffee, owner, made, context, beans, stored, rfl, hp, hcoffee, hcached, howner,
      hmade, henter, hneeds, hbeans, hstored⟩ :
      ∃ r p coffee owner made context beans stored,
        resolver cafeProgram {} ⟨0, cafe, false⟩ = r ∧
        (plan cafeProgram {} ⟨0, cafe, false⟩).providers = [p] ∧
        request r ⟨0, cafe, false⟩ p.callable = coffee ∧
        r.candidate coffee.key coffee.context coffee.fromEnd = .ok (some (.cached owner)) ∧
        owner.accessor = some "roastery" ∧
        r.candidate coffee.entry.key coffee.entry.context coffee.entry.fromEnd
          = .ok (some (.construct made)) ∧
        coffee.entry.context.enter? made.element = some context ∧
        r.needs context (.constructor made) = [beans] ∧
        r.candidate beans.key beans.context beans.fromEnd = .ok (some (.provides stored)) ∧
        stored.accessor = none :=
    ⟨_, _, _, _, _, _, _, _, rfl, rfl, rfl, rfl, rfl, rfl, rfl, rfl, rfl, rfl⟩
  have hmem : p ∈ (plan cafeProgram {} ⟨0, cafe, false⟩).providers := by
    rw [hp]
    exact List.mem_singleton.2 rfl
  have hroot := answer_of_mem_providers hmem
  rw [hcoffee] at hroot
  have hnode : Node cafeProgram {} ⟨0, cafe, false⟩ coffee p.plan none none := by
    refine ⟨p, hmem, ?_⟩
    rw [hcoffee]
    exact .root hroot
  obtain ⟨inner, hinner⟩ := Resolver.Asks.answered
    (.onward hcached (List.mem_singleton.2 rfl)) (Resolver.PlanNode.step_eq hc (.root hroot))
  obtain ⟨needed, filled, hneeded⟩ := (Resolver.PlanNode.root hinner).exists_asked hc
    (.inside hmade (List.mem_singleton.2 rfl) henter (hneeds ▸ List.mem_singleton.2 rfl))
  have hbelow := h coffee _ _ _ owner "roastery" hnode hcached howner beans needed filled _ hneeded
    stored.accessor (.call hbeans (List.mem_singleton.2 rfl))
  rw [hstored] at hbelow
  rcases hbelow with hsome | ⟨rest, hsome⟩ <;> cases hsome

end Component

end Wiring
