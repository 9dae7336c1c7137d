import Mathlib.Logic.Relation
import Wiring.Proofs.Catalogue.Reports
import Wiring.Proofs.Component.Scopes
import Wiring.Proofs.Model.Identity
import Wiring.Proofs.Type.Spelling

/-!
# Entries of caches

What the plans of a component keep in one entry of a cache. An entry is named by the text of the
type that is asked for, without its qualifier. So the values of one key share an entry and come
from one binding, values of one type under different qualifiers share an entry and come from
different bindings, and a class has one entry for each way in which its type is written.
-/

namespace Wiring

/-- Two bindings are the constructor of one class, one member of one component, or collections of
the same members. -/
def Binding.Same : Binding → Binding → Prop
  | .constructor k _, .constructor k' _ => k.classIndex = k'.classIndex
  | .provider p, .provider p' =>
    p.callable.origin = p'.callable.origin ∧ p.accessor = p'.accessor
  | .container k, .container k' =>
    k.parts.map (fun p => (p.callable.origin, p.accessor))
      = k'.parts.map (fun p => (p.callable.origin, p.accessor))
  | _, _ => False

/-- A binding is for the same as itself. -/
theorem Binding.Same.refl (b : Binding) : b.Same b := by
  cases b with
  | constructor => exact rfl
  | provider => exact ⟨rfl, rfl⟩
  | container => exact rfl

/-- A contributor of a collection is one of every collection that is the same. -/
theorem Binding.Same.exists_part {k k' : Container}
    (h : (Binding.container k).Same (.container k')) {p : Provider} (hp : p ∈ k.parts) :
    ∃ p' ∈ k'.parts, p'.callable.origin = p.callable.origin := by
  have hplaces : k.parts.map (fun p => (p.callable.origin, p.accessor))
      = k'.parts.map fun p => (p.callable.origin, p.accessor) := h
  have hmem : (p.callable.origin, p.accessor)
      ∈ k'.parts.map fun p => (p.callable.origin, p.accessor) := by
    rw [← hplaces]
    exact List.mem_map.2 ⟨p, hp, rfl⟩
  obtain ⟨p', hp', hplace⟩ := List.mem_map.1 hmem
  exact ⟨p', hp', (Prod.mk.inj hplace).1⟩

/-- A plan is part of another one, at any depth. -/
def Plan.Within (part whole : Plan) : Prop :=
  Relation.ReflTransGen (fun whole part => part ∈ whole.children) whole part

namespace Catalogue

open Collect

variable {m : Model} {o : Options} {c : Classifier} {key : Key} {b b' : Binding}

/-- What a component asks for is kept without a scope. -/
theorem scope_of_lookup_requirements {p : Provider}
    (h : (collect m o c).requirements.lookup key = some p) : p.scope = none := by
  rw [(describes_collect m o c).requirements] at h
  have hp := List.mem_of_mem_head? h
  rw [filterMap_findings (fun _ => rfl) (fun _ => rfl)] at hp
  obtain ⟨l, _, hp⟩ := List.mem_flatMap.1 hp
  obtain ⟨f, _, hp⟩ := List.mem_flatMap.1 hp
  obtain ⟨x, hx, hp⟩ := List.mem_filterMap.1 hp
  cases x with
  | requirement key' p' =>
    obtain ⟨_, hp⟩ := Option.ite_none_right_eq_some.1 hp
    obtain rfl := Option.some.inj hp
    cases foundAs_of_mem_memberFindings hx with
    | requirement => rfl
  | _ => cases hp

/-- A binding with the owner of a scope is found whether or not the requirements of the component
are left out. -/
theorem resolve_of_scope {owner : ScopeOwner} {skipOwn : Bool}
    (h : (collect m o c).resolve m o key skipOwn = .ok (some b)) (hs : b.scope? = some owner)
    (skipOwn' : Bool) : (collect m o c).resolve m o key skipOwn' = .ok (some b) := by
  -- What a requirement is bound to has no owner.
  have hnot : (collect m o c).requirementBinding key skipOwn ≠ some b := by
    intro hb
    rw [requirementBinding] at hb
    split at hb
    · cases hb
    · obtain ⟨p, hp, rfl⟩ := Option.map_eq_some_iff.1 hb
      have hscope : p.scope = some owner := hs
      rw [scope_of_lookup_requirements hp] at hscope
      cases hscope
  rw [resolve] at h ⊢
  cases hbinding : (collect m o c).bindings.lookup key with
  | some p =>
    rw [hbinding] at h
    exact h
  | none =>
    rw [hbinding] at h
    cases hcontainer : (collect m o c).containers.lookup key with
    | some k =>
      rw [hcontainer] at h
      exact h
    | none =>
      rw [hcontainer] at h
      cases hq : key.qualifier with
      | some q =>
        rw [hq] at h
        exact absurd (Except.ok.inj h) hnot
      | none =>
        rw [hq] at h
        cases hk : (collect m o c).constructorBinding m o key.type with
        | error e =>
          rw [hk] at h
          cases h
        | ok found =>
          rw [hk] at h
          cases found with
          | some found => exact h
          | none => exact absurd (Except.ok.inj h) hnot

/-- A member that satisfies a key is declared and has the qualifier of the key. -/
theorem Binds.of_provider (hc : c ∈ m.classifiers) {p : Provider}
    (h : Binds m o (collect m o c) key (.provider p)) :
    p.callable ∈ m.callables ∧ Role.qualifier? o p.callable.annotations = key.qualifier := by
  cases h with
  | explicit h =>
    obtain ⟨l, hl, f, hoffers, rfl⟩ := offers_of_lookup_bindings h
    exact ⟨mem_callables_of_mem_levels hc hl hoffers.member, hoffers.qualifier⟩
  | required h =>
    obtain ⟨l, hl, f, hoffers, rfl, _⟩ := offers_of_lookup_requirements h
    exact ⟨mem_callables_of_mem_levels hc hl hoffers.member, hoffers.qualifier⟩

/-- A contributor is qualified as the collection it contributes to. -/
theorem qualifier_of_contributes {l : Level} {f : Callable} {builder : Builder}
    (h : contributes m o l f = some (builder, key)) :
    Role.qualifier? o f.annotations = key.qualifier := by
  simp only [contributes] at h
  split at h
  · split at h
    · cases h
      rfl
    · split at h
      · obtain ⟨_, _, he⟩ := Option.map_eq_some_iff.1 h
        cases he
        rfl
      · cases h
  · cases h

/-- The contributors of a collection that satisfies a key are declared and have the qualifier of the
key. -/
theorem Binds.of_part (hc : c ∈ m.classifiers) {k : Container}
    (h : Binds m o (collect m o c) key (.container k)) {p : Provider} (hp : p ∈ k.parts) :
    p.callable ∈ m.callables ∧ Role.qualifier? o p.callable.annotations = key.qualifier := by
  cases h with
  | collection h =>
    obtain ⟨_, hparts, _⟩ := parts_of_lookup_containers h
    rw [hparts] at hp
    obtain ⟨n, hn, rfl⟩ := List.mem_map.1 hp
    obtain ⟨hl, hf, hkey⟩ := mem_levels_of_mem_contributors hn
    exact ⟨mem_callables_of_mem_levels hc hl hf, qualifier_of_contributes hkey⟩

/-- A collection that satisfies a key has a contributor. -/
theorem Binds.parts_ne_nil {k : Container}
    (h : Binds m o (collect m o c) key (.container k)) : k.parts ≠ [] := by
  cases h with
  | collection h =>
    obtain ⟨hne, hparts, _⟩ := parts_of_lookup_containers h
    rw [hparts]
    exact fun hnil => hne (List.map_eq_nil_iff.1 hnil)

/-- Bindings that are the same have one qualifier. -/
theorem qualifier_eq_of_same {key' : Key} (hc : c ∈ m.classifiers)
    (h : Binds m o (collect m o c) key b) (h' : Binds m o (collect m o c) key' b')
    (hsame : b.Same b') : key.qualifier = key'.qualifier := by
  have hmember : ∀ {f f' : Callable}, f ∈ m.callables → f' ∈ m.callables →
      Role.qualifier? o f.annotations = key.qualifier →
      Role.qualifier? o f'.annotations = key'.qualifier → f.origin = f'.origin →
      key.qualifier = key'.qualifier := by
    intro f f' hf hf' hq hq' horigin
    obtain rfl := Model.eq_of_origin_callables hf hf' horigin
    rw [← hq, hq']
  cases b with
  | constructor k scope =>
    cases b' with
    | constructor k' scope' =>
      cases h with
      | constructed hq =>
        cases h' with
        | constructed hq' => rw [hq, hq']
    | _ => exact hsame.elim
  | provider p =>
    cases b' with
    | provider p' =>
      obtain ⟨hf, hq⟩ := h.of_provider hc
      obtain ⟨hf', hq'⟩ := h'.of_provider hc
      exact hmember hf hf' hq hq' hsame.1
    | _ => exact hsame.elim
  | container k =>
    cases b' with
    | container k' =>
      obtain ⟨p, hp⟩ := List.exists_mem_of_ne_nil _ h.parts_ne_nil
      obtain ⟨p', hp', horigin⟩ := hsame.exists_part hp
      obtain ⟨hf, hq⟩ := h.of_part hc hp
      obtain ⟨hf', hq'⟩ := h'.of_part hc hp'
      exact hmember hf hf' hq hq' horigin.symm
    | _ => exact hsame.elim

end Catalogue

namespace Resolver

variable {m : Model} {o : Options} {c : Classifier} {root q : Request} {filled : Option Key}
  {parent : Option Plan} {accessor : Option String} {owner : Classifier} {name : String}
  {inner : Plan} {b : Binding}

/-- A node that takes its value from a cache has a binding with the owner of this cache, and the
entry has the text of the type. -/
theorem PlanNode.of_cached (hc : c ∈ m.classifiers)
    (h : PlanNode (Component.resolver m o c) root q (.cached accessor owner name inner) filled
      parent) :
    ∃ b s, (Component.resolver m o c).Finds q.key q.context q.fromEnd b ∧ b.scope? = some s ∧
      accessor = s.accessor ∧ owner = s.component ∧ name = q.key.type.sourceText ∧
      (Component.resolver m o c).answer ⟨q.key, q.context.withoutScoped q.key.type, none⟩
        = .ok inner := by
  rcases cached_of_step (h.step_eq hc) with ⟨hu, _⟩ | ⟨s, inner', hcand, ha, hplan⟩
  · cases hu
  · cases hplan
    obtain ⟨b, hf, hs, _⟩ := finds_of_cached hcand
    exact ⟨b, s, hf, hs, rfl, rfl, rfl, ha⟩

/-- Every part of the plan that answers a request is a node, or the call of a contributor in the
collection of a node. -/
theorem exists_node_of_within (hc : c ∈ m.classifiers) {whole part : Plan}
    (ha : (Component.resolver m o c).answer root = .ok whole) (h : part.Within whole) :
    ∃ q plan filled parent, (Component.resolver m o c).PlanNode root q plan filled parent ∧
      (part = plan ∨ ∃ builder parts, plan = .container builder parts ∧ part ∈ parts) := by
  have hchild : ∀ {q : Request} {plan child : Plan} {filled : Option Key} {parent : Option Plan},
      (Component.resolver m o c).PlanNode root q plan filled parent → child ∈ plan.children →
      ∃ q plan filled parent, (Component.resolver m o c).PlanNode root q plan filled parent ∧
        (child = plan ∨ ∃ builder parts, plan = .container builder parts ∧ child ∈ parts) := by
    intro q plan child filled parent hn hchild
    rcases hn.children hc hchild with ⟨q', filled', hn'⟩ | ⟨builder, parts, rfl, _⟩
    · exact ⟨q', child, filled', _, hn', .inl rfl⟩
    · exact ⟨q, _, filled, parent, hn, .inr ⟨builder, parts, rfl, hchild⟩⟩
  induction h with
  | refl => exact ⟨root, whole, none, none, .root ha, .inl rfl⟩
  | @tail above part _ hpart ih =>
    obtain ⟨q, plan, filled, parent, hn, rfl | ⟨builder, parts, rfl, habove⟩⟩ := ih
    · exact hchild hn hpart
    · -- The call of a contributor is no node, but what it is made of is.
      rcases hn.children hc habove with ⟨q', filled', hn'⟩ | ⟨_, _, _, hparts⟩
      · exact hchild hn' hpart
      · obtain ⟨q', filled', hn'⟩ := hparts part hpart
        exact ⟨q', part, filled', _, hn', .inl rfl⟩

/-- Every call and every lambda inside the plan that answers a request is entered for a node. -/
theorem exists_visit_of_within (hc : c ∈ m.classifiers) {whole part : Plan}
    (ha : (Component.resolver m o c).answer root = .ok whole) (h : part.Within whole)
    (he : part.isEntered = true) :
    ∃ q plan filled parent candidate s,
      (Component.resolver m o c).PlanNode root q plan filled parent ∧
      (Component.resolver m o c).candidate q.key q.context q.fromEnd = .ok (some candidate) ∧
      .enter s ∈ candidate.tasks q.key q.context ∧
      (Component.resolver m o c).visit (Component.resolver m o c).answer q.context s
        = .ok part := by
  obtain ⟨q, plan, filled, parent, hn, rfl | ⟨builder, parts, rfl, hpart⟩⟩ :=
    exists_node_of_within hc ha h
  · cases stepped_of_step (hn.step_eq hc) with
    | visited hcand ht hv =>
      exact ⟨q, part, filled, parent, _, _, hn, hcand, ht ▸ List.mem_singleton.2 rfl, hv⟩
    | arg => cases he
    | cached => cases he
    | lazy => cases he
    | container => cases he
  · cases stepped_of_step (hn.step_eq hc) with
    | container hcand hv =>
      obtain ⟨p, hp, hcall⟩ := mem_of_mapM_eq_ok (mapM_eq_ok_iff.2 hv) hpart
      exact ⟨q, _, filled, parent, _, _, hn, hcand, List.mem_map.2 ⟨p, hp, rfl⟩, hcall⟩
    | visited _ _ hv => cases (children_of_visit hv).1

/-- Every part of the plan that answers a request is a node, or it is a call and no lambda. -/
theorem node_or_call_of_within (hc : c ∈ m.classifiers) {whole part : Plan}
    (ha : (Component.resolver m o c).answer root = .ok whole) (h : part.Within whole) :
    (∃ q filled parent, (Component.resolver m o c).PlanNode root q part filled parent)
      ∨ part.isEntered = true ∧ part.lambda? = none := by
  obtain ⟨q, plan, filled, parent, hn, rfl | ⟨builder, parts, rfl, hpart⟩⟩ :=
    exists_node_of_within hc ha h
  · exact .inl ⟨q, filled, parent, hn⟩
  · rcases children_of_step (hn.step_eq hc) hpart with ⟨s, q', hq, ha', _⟩ | ⟨_, _, _, he, hl, _⟩
    · exact .inl ⟨q', _, _, .asked hn hq ha'⟩
    · exact .inr ⟨he, hl⟩

/-- Whatever is taken from a cache in the plan that answers a request is a node. -/
theorem exists_cached_of_within (hc : c ∈ m.classifiers) {whole part : Plan}
    (ha : (Component.resolver m o c).answer root = .ok whole) (h : part.Within whole)
    (hcached : part.isCached = true) :
    ∃ q filled parent, (Component.resolver m o c).PlanNode root q part filled parent := by
  rcases node_or_call_of_within hc ha h with hnode | ⟨he, _⟩
  · exact hnode
  · rw [Plan.isCached_of_isEntered he] at hcached
    cases hcached

/-- An entry that holds the call of a constructor belongs to the binding of this constructor. -/
theorem constructor_of_held (hc : c ∈ m.classifiers)
    (hf : (Component.resolver m o c).Finds q.key q.context q.fromEnd b) {k : Constructor}
    {args : List Plan}
    (ha : (Component.resolver m o c).answer ⟨q.key, q.context.withoutScoped q.key.type, none⟩
      = .ok (.construct k args)) : ∃ scope, b = .constructor k scope := by
  rw [answer_eq_step hc] at ha
  obtain ⟨candidate, plans, hcand, hplans, hplan⟩ := step_eq_ok_iff.1 ha
  have hbuilt : (Component.resolver m o c).Finds q.key (q.context.withoutScoped q.key.type) none
      b := ⟨rfl, hf.found⟩
  have hskip := hbuilt.candidate
  rw [ofBinding_of_skipScoped b rfl] at hskip
  rw [hskip] at hcand
  cases hcand
  cases b with
  | container k' => cases hplan
  | provider p =>
    cases hplans with
    | cons hp hnil =>
      cases hnil
      obtain ⟨context, plans, _, _, he⟩ := visit_eq_ok_iff.1 hp
      have hcall := hplan.trans he
      rw [Subject.plan] at hcall
      cases hr : p.callable.receiver <;> rw [hr] at hcall <;> cases hcall
  | constructor k' scope =>
    cases hplans with
    | cons hp hnil =>
      cases hnil
      obtain ⟨context, plans, _, _, he⟩ := visit_eq_ok_iff.1 hp
      cases hplan.trans he
      exact ⟨scope, rfl⟩

end Resolver

namespace Component

open TypeExpr

variable {m : Model} {o : Options} {c : Classifier} {q q' : Request}
  {accessor accessor' : Option String} {name name' : String} {b b' : Binding}

/-- Whatever is taken from a cache in a plan of the component is a node. -/
theorem node_of_within (hc : c ∈ m.classifiers) {p : ProviderPlan}
    (hp : p ∈ (plan m o c).providers) {part : Plan} (h : part.Within p.plan)
    (hcached : part.isCached = true) : ∃ q filled parent, Node m o c q part filled parent := by
  obtain ⟨q, filled, parent, hn⟩ :=
    Resolver.exists_cached_of_within hc (answer_of_mem_providers hp) h hcached
  exact ⟨q, filled, parent, p, hp, hn⟩

/-- A node of a plan of the component takes the value of the binding `b` from the cache reached by
`accessor`, where it is kept under `name`. -/
structure Entry (m : Model) (o : Options) (c : Classifier) (accessor : Option String)
    (name : String) (q : Request) (b : Binding) : Prop where
  node : ∃ owner inner filled parent,
    Node m o c q (.cached accessor owner name inner) filled parent
  finds : (resolver m o c).Finds q.key q.context q.fromEnd b

/-- Values that share an entry of a cache come from one binding. -/
def EntriesKept (m : Model) (o : Options) (c : Classifier) : Prop :=
  ∀ accessor name q q' b b', Entry m o c accessor name q b → Entry m o c accessor name q' b' →
    b.Same b'

/-- Entries of caches are kept apart by the text of the type, and by nothing else. -/
structure EntriesKeptByText (m : Model) (o : Options) (c : Classifier) : Prop where
  /-- Whatever is taken from a cache anywhere in a plan has an entry there, and comes from a binding
  with the owner of this cache. -/
  bound : ∀ p ∈ (plan m o c).providers, ∀ accessor owner name inner,
    (Plan.cached accessor owner name inner).Within p.plan → ∃ q b s filled parent,
      Node m o c q (.cached accessor owner name inner) filled parent ∧
      Entry m o c accessor name q b ∧ b.scope? = some s ∧ s.accessor = accessor ∧
      s.component = owner
  /-- The entry is named by the type. -/
  named : ∀ accessor name q b, Entry m o c accessor name q b → name = q.key.type.sourceText
  /-- Values of one key come from one binding. -/
  keys : ∀ accessor accessor' name name' q q' b b', Entry m o c accessor name q b →
    Entry m o c accessor' name' q' b' → q.key = q'.key → b = b'
  /-- Values of different qualifiers come from different bindings. -/
  qualifiers : ∀ accessor accessor' name name' q q' b b', Entry m o c accessor name q b →
    Entry m o c accessor' name' q' b' → q.key.qualifier ≠ q'.key.qualifier → ¬ b.Same b'
  /-- Where types are spelled in one way, values that share an entry are of one type, and come from
  one binding exactly when their qualifiers are the same. -/
  shared : ∀ s accessor name q q' b b', Spelled s q.key.type → Spelled s q'.key.type →
    Entry m o c accessor name q b → Entry m o c accessor name q' b' →
    q.key.type = q'.key.type ∧ (b.Same b' ↔ q.key.qualifier = q'.key.qualifier)

/-- An entry of a cache has a scope, whose owner keeps it under the text of its type. -/
theorem Entry.scoped (hc : c ∈ m.classifiers) (h : Entry m o c accessor name q b) :
    ∃ s, b.scope? = some s ∧ s.accessor = accessor ∧ name = q.key.type.sourceText := by
  obtain ⟨⟨owner, inner, filled, parent, p, _, hn⟩, hf⟩ := h
  obtain ⟨b', s, hf', hs, ha, _, hname, _⟩ := hn.of_cached hc
  obtain rfl := hf.unique hf'
  exact ⟨s, hs, ha.symm, hname⟩

/-- The values of one key come from one binding, since the requirements of the component itself,
which may be left out, are not cached. -/
theorem Entry.binding_eq (hc : c ∈ m.classifiers) (h : Entry m o c accessor name q b)
    (h' : Entry m o c accessor' name' q' b') (hkey : q.key = q'.key) : b = b' := by
  obtain ⟨s, hs, _⟩ := h.scoped hc
  have hfound : (Catalogue.collect m o c).resolve m o q.key
      (q.context.skipProvider == some q.key.type) = .ok (some b) := h.finds.found
  have hfound' : (Catalogue.collect m o c).resolve m o q'.key
      (q'.context.skipProvider == some q'.key.type) = .ok (some b') := h'.finds.found
  rw [hkey] at hfound
  rw [Catalogue.resolve_of_scope hfound hs] at hfound'
  cases hfound'
  rfl

/-- Entries for the same have the same qualifier. -/
theorem Entry.qualifier_eq (hc : c ∈ m.classifiers) (h : Entry m o c accessor name q b)
    (h' : Entry m o c accessor' name' q' b') (hsame : b.Same b') :
    q.key.qualifier = q'.key.qualifier :=
  Catalogue.qualifier_eq_of_same hc (Catalogue.binds_of_resolve h.finds.found)
    (Catalogue.binds_of_resolve h'.finds.found) hsame

/-- A requirement that is met from a cache has an entry there. -/
theorem Entry.of_provider {p : ProviderPlan} {owner : Classifier} {inner : Plan}
    (hp : p ∈ (plan m o c).providers) (hplan : p.plan = .cached accessor owner name inner)
    (hf : (resolver m o c).Finds (request (resolver m o c) c p.callable).key
      (request (resolver m o c) c p.callable).context none b) :
    Entry m o c accessor name (request (resolver m o c) c p.callable) b := by
  have hroot := answer_of_mem_providers hp
  rw [hplan] at hroot
  exact ⟨⟨owner, inner, none, none, p, hp, .root hroot⟩, hf⟩

/-- The entries of all caches of all components are kept apart by the text of the type. -/
theorem entriesKeptByText (m : Model) (o : Options) (c : Classifier) (hc : c ∈ m.classifiers) :
    EntriesKeptByText m o c where
  bound := by
    intro p hp accessor owner name inner hwithin
    obtain ⟨q, filled, parent, hnode⟩ := node_of_within hc hp hwithin rfl
    obtain ⟨p', hp', hn⟩ := hnode
    obtain ⟨b, s, hf, hs, ha, ho, _⟩ := hn.of_cached hc
    have hentry : Entry m o c accessor name q b :=
      ⟨⟨owner, inner, filled, parent, p', hp', hn⟩, hf⟩
    exact ⟨q, b, s, filled, parent, ⟨p', hp', hn⟩, hentry, hs, ha.symm, ho.symm⟩
  named accessor name q b h := by
    obtain ⟨_, _, _, hname⟩ := h.scoped hc
    exact hname
  keys accessor accessor' name name' q q' b b' h h' hkey := h.binding_eq hc h' hkey
  qualifiers accessor accessor' name name' q q' b b' h h' hne hsame :=
    hne (h.qualifier_eq hc h' hsame)
  shared s accessor name q q' b b' ht ht' h h' := by
    obtain ⟨_, _, _, hname⟩ := h.scoped hc
    obtain ⟨_, _, _, hname'⟩ := h'.scoped hc
    have htype := ht.eq_of_sourceText ht' (hname.symm.trans hname')
    refine ⟨htype, fun hsame => h.qualifier_eq hc h' hsame, fun hq => ?_⟩
    have hkey : (⟨q.key.type, q.key.qualifier⟩ : Key) = ⟨q'.key.type, q'.key.qualifier⟩ := by
      rw [htype, hq]
    rw [h.binding_eq hc h' hkey]
    exact .refl b'

/-- A component with two kinds of jam, told apart by their qualifiers, and with two jars, which are
a class `Jar` of the package `app.Shelf` and a class `Shelf.Jar` of the package `app`. -/
def pantry : ClassDecl :=
  Sketch.component "Pantry" ["app.Single"] [] [
    Sketch.requirement "sweet" (Sketch.type "Jam") ["app.A"],
    Sketch.requirement "sour" (Sketch.type "Jam") ["app.B"],
    Sketch.requirement "glass" (.ofName "app.Shelf" "Jar") [],
    Sketch.requirement "tin" (Sketch.type "Shelf.Jar") [],
    Sketch.provider "plum" [] (Sketch.type "Jam") ["app.A", "app.Single"],
    Sketch.provider "lime" [] (Sketch.type "Jam") ["app.B", "app.Single"],
    Sketch.provider "blow" [] (.ofName "app.Shelf" "Jar") ["app.Single"],
    Sketch.provider "solder" [] (Sketch.type "Shelf.Jar") ["app.Single"]]

/-- The program of the pantry. -/
def pantryProgram : Model :=
  Sketch.program [pantry, Sketch.plain "Jam", Sketch.plain "Shelf.Jar"]

/-- The pantry keeps what its four members provide, each entry by the text of its type. -/
theorem entriesKeptByText_pantry : ⟨0, pantry, false⟩ ∈ pantryProgram.classifiers ∧
    (plan pantryProgram {} ⟨0, pantry, false⟩).providers.map (·.plan.displayText)
      = ["Scoped(Provides(plum))", "Scoped(Provides(lime))", "Scoped(Provides(blow))",
        "Scoped(Provides(solder))"] ∧
    EntriesKeptByText pantryProgram {} ⟨0, pantry, false⟩ := by
  have hc : ⟨0, pantry, false⟩ ∈ pantryProgram.classifiers := Model.mem_classifiers.2 ⟨rfl, rfl⟩
  exact ⟨hc, by decide +kernel, entriesKeptByText pantryProgram {} ⟨0, pantry, false⟩ hc⟩

/-- Both kinds of jam share one entry, being of one type, and so do both jars, whose types are
written alike. Each of them has a member of its own that provides it. -/
theorem not_entriesKept_pantry : ⟨0, pantry, false⟩ ∈ pantryProgram.classifiers ∧
    (plan pantryProgram {} ⟨0, pantry, false⟩).failure.isNone = true ∧
    ¬ EntriesKept pantryProgram {} ⟨0, pantry, false⟩ ∧
    ∃ q q' b b', Entry pantryProgram {} ⟨0, pantry, false⟩ none "app.Shelf.Jar" q b ∧
      Entry pantryProgram {} ⟨0, pantry, false⟩ none "app.Shelf.Jar" q' b' ∧
      q.key.qualifier = q'.key.qualifier ∧ ¬ b.Same b' := by
  obtain ⟨sweet, plum, hsweet, hplum⟩ : ∃ q plum,
      Entry pantryProgram {} ⟨0, pantry, false⟩ none "app.Jam" q (.provider plum) ∧
        plum.callable.origin = .member 0 4 :=
    ⟨_, _, .of_provider (List.mem_of_getElem? (i := 0) rfl) rfl ⟨rfl, rfl⟩, rfl⟩
  obtain ⟨sour, lime, hsour, hlime⟩ : ∃ q lime,
      Entry pantryProgram {} ⟨0, pantry, false⟩ none "app.Jam" q (.provider lime) ∧
        lime.callable.origin = .member 0 5 :=
    ⟨_, _, .of_provider (List.mem_of_getElem? (i := 1) rfl) rfl ⟨rfl, rfl⟩, rfl⟩
  obtain ⟨glass, blow, hglass, hblow, hnone⟩ : ∃ q blow,
      Entry pantryProgram {} ⟨0, pantry, false⟩ none "app.Shelf.Jar" q (.provider blow) ∧
        blow.callable.origin = .member 0 6 ∧ q.key.qualifier = none :=
    ⟨_, _, .of_provider (List.mem_of_getElem? (i := 2) rfl) rfl ⟨rfl, rfl⟩, rfl, rfl⟩
  obtain ⟨tin, solder, htin, hsolder, hnone'⟩ : ∃ q solder,
      Entry pantryProgram {} ⟨0, pantry, false⟩ none "app.Shelf.Jar" q (.provider solder) ∧
        solder.callable.origin = .member 0 7 ∧ q.key.qualifier = none :=
    ⟨_, _, .of_provider (List.mem_of_getElem? (i := 3) rfl) rfl ⟨rfl, rfl⟩, rfl, rfl⟩
  refine ⟨Model.mem_classifiers.2 ⟨rfl, rfl⟩, by decide +kernel, fun h => ?_, ?_⟩
  · have hsame := (h _ _ _ _ _ _ hsweet hsour).1
    rw [hplum, hlime] at hsame
    exact absurd hsame (by decide)
  · refine ⟨_, _, _, _, hglass, htin, hnone.trans hnone'.symm, fun hsame => ?_⟩
    have horigin := hsame.1
    rw [hblow, hsolder] at horigin
    exact absurd horigin (by decide)

/-- A node of a plan of the component takes what the constructor `k` makes from the cache of
`owner`, reached by `accessor`, where it is kept under `name`. -/
def Keeps (m : Model) (o : Options) (c : Classifier) (q : Request) (accessor : Option String)
    (owner : Classifier) (name : String) (k : Constructor) : Prop :=
  ∃ args filled parent,
    Node m o c q (.cached accessor owner name (.construct k args)) filled parent

/-- A class without type parameters has one entry in one cache. -/
def ClassesKeptOnce (m : Model) (o : Options) (c : Classifier) : Prop :=
  ∀ cls ∈ m.classifiers, cls.decl.typeParameters = [] →
    ∀ q q' accessor accessor' owner owner' name name' k k',
      Keeps m o c q accessor owner name k → Keeps m o c q' accessor' owner' name' k' →
      k.classIndex = cls.index → k'.classIndex = cls.index → accessor = accessor' ∧ name = name'

/-- A class has one cache, and one entry there for each way in which its type is written. -/
structure ClassesKeptByText (m : Model) (o : Options) (c : Classifier) : Prop where
  /-- Whatever a constructor makes is kept where the plan says, anywhere in a plan. -/
  kept : ∀ p ∈ (plan m o c).providers, ∀ accessor owner name k args,
    (Plan.cached accessor owner name (.construct k args)).Within p.plan →
    ∃ q, Keeps m o c q accessor owner name k
  /-- The values of one class are kept in one cache. -/
  cache : ∀ q q' accessor accessor' owner owner' name name' k k',
    Keeps m o c q accessor owner name k → Keeps m o c q' accessor' owner' name' k' →
    k.classIndex = k'.classIndex → accessor = accessor' ∧ owner = owner'
  /-- They are asked for without a qualifier, by a type that names the class, and the entry has the
  text of this type. -/
  named : ∀ q accessor owner name k, Keeps m o c q accessor owner name k →
    q.key.qualifier = none ∧ name = q.key.type.sourceText ∧
      ∃ cls, m.classOf q.key.type = some cls ∧ cls.index = k.classIndex
  /-- Where types are spelled in one way, two of them share an entry exactly when one type is asked
  for, in whatever place. -/
  shared : ∀ s q q' accessor accessor' owner owner' name name' k k', Spelled s q.key.type →
    Spelled s q'.key.type → Keeps m o c q accessor owner name k →
    Keeps m o c q' accessor' owner' name' k' → (name = name' ↔ q.key.type = q'.key.type)
  /-- When the bare name of the class is asked for, the entry has this name, with the mark of a
  nullable type. -/
  bare : ∀ q accessor owner name k, Keeps m o c q accessor owner name k →
    q.key.type.arguments = [] → q.key.type.isAlias = false →
    ∃ cls ∈ m.classifiers, cls.index = k.classIndex ∧
      name = cls.decl.qualifiedName ++ mark q.key.type.nullable
  /-- When the bare name of an alias is asked for, the entry has the name of the alias. -/
  renamed : ∀ q accessor owner name k, Keeps m o c q accessor owner name k →
    q.key.type.arguments = [] → q.key.type.isAlias = true →
    name = q.key.type.qualifiedName ++ mark q.key.type.nullable

/-- The constructor that is kept is the one of the class that its type names, whose scope has the
owner that keeps it. -/
theorem Keeps.found (hc : c ∈ m.classifiers) {owner : Classifier} {k : Constructor}
    (h : Keeps m o c q accessor owner name k) :
    ∃ cls s, q.key.qualifier = none ∧ m.classOf q.key.type = some cls ∧
      cls.index = k.classIndex ∧ Role.scope? o (cls.annotations m) = some s.scope ∧
      (Catalogue.collect m o c).ownerOf? s.scope = some s ∧ accessor = s.accessor ∧
      owner = s.component ∧ name = q.key.type.sourceText := by
  obtain ⟨args, filled, parent, p, _, hn⟩ := h
  obtain ⟨b, s, hf, hs, haccessor, howner, hname, ha⟩ := hn.of_cached hc
  obtain ⟨scope, rfl⟩ := Resolver.constructor_of_held hc hf ha
  cases Catalogue.binds_of_resolve hf.found with
  | @constructed cls _ _ hq hcls _ hk hscope ho =>
    have hsome : scope = some s := hs
    subst hsome
    exact ⟨cls, s, hq, hcls, (Model.constructor_of_mem_classifiers hk).1.symm, hscope, ho s rfl,
      haccessor, howner, hname⟩

/-- A requirement that is met from a cache is kept there. -/
theorem Keeps.of_provider {p : ProviderPlan} {owner : Classifier} {k : Constructor}
    {args : List Plan} (hp : p ∈ (plan m o c).providers)
    (hplan : p.plan = .cached accessor owner name (.construct k args)) :
    Keeps m o c (request (resolver m o c) c p.callable) accessor owner name k := by
  have hroot := answer_of_mem_providers hp
  rw [hplan] at hroot
  exact ⟨args, none, none, p, hp, .root hroot⟩

/-- In all components, the classes are kept by the text of their type. -/
theorem classesKeptByText (m : Model) (o : Options) (c : Classifier) (hc : c ∈ m.classifiers) :
    ClassesKeptByText m o c where
  kept := by
    intro p hp accessor owner name k args hwithin
    obtain ⟨q, filled, parent, hnode⟩ := node_of_within hc hp hwithin rfl
    exact ⟨q, args, filled, parent, hnode⟩
  cache := by
    intro q q' accessor accessor' owner owner' name name' k k' h h' hindex
    obtain ⟨cls, s, _, hcls, hk, hscope, hs, rfl, rfl, _⟩ := h.found hc
    obtain ⟨cls', s', _, hcls', hk', hscope', hs', rfl, rfl, _⟩ := h'.found hc
    obtain rfl := Model.eq_of_index (Model.mem_classifiers_of_classOf hcls)
      (Model.mem_classifiers_of_classOf hcls') (hk.trans (hindex.trans hk'.symm))
    rw [hscope] at hscope'
    rw [← Option.some.inj hscope', hs] at hs'
    obtain rfl := Option.some.inj hs'
    exact ⟨rfl, rfl⟩
  named := by
    intro q accessor owner name k h
    obtain ⟨cls, s, hq, hcls, hk, _, _, _, _, hname⟩ := h.found hc
    exact ⟨hq, hname, cls, hcls, hk⟩
  shared := by
    intro s q q' accessor accessor' owner owner' name name' k k' ht ht' h h'
    obtain ⟨_, _, _, _, _, _, _, _, _, hname⟩ := h.found hc
    obtain ⟨_, _, _, _, _, _, _, _, _, hname'⟩ := h'.found hc
    rw [hname, hname']
    exact ⟨ht.eq_of_sourceText ht', congrArg sourceText⟩
  bare := by
    intro q accessor owner name k h has halias
    obtain ⟨cls, _, _, hcls, hk, _, _, _, _, hname⟩ := h.found hc
    obtain ⟨hmem, hqualified⟩ := Model.mem_classifiers_of_classNamed hcls
    refine ⟨cls, hmem, hk, ?_⟩
    rw [hname, sourceText_of_bare has, hqualified]
    cases ht : q.key.type with
    | declared => rfl
    | aliased =>
      rw [ht] at halias
      cases halias
  renamed := by
    intro q accessor owner name k h has _
    obtain ⟨_, _, _, _, _, _, _, _, _, hname⟩ := h.found hc
    rw [hname, sourceText_of_bare has]

/-- A kitchen that asks for tea, for tea or nothing, and for tea by another name. -/
def kitchen : ClassDecl :=
  Sketch.component "Kitchen" ["app.Single"] [] [
    Sketch.requirement "tea" (Sketch.type "Tea") [],
    Sketch.requirement "rest" ((Sketch.type "Tea").withNullable true) [],
    Sketch.requirement "brew" (.aliased "app" "Brew" [] false (Sketch.type "Tea")) []]

/-- The program of the kitchen. -/
def kitchenProgram : Model :=
  Sketch.program [kitchen, Sketch.injectable "Tea" ["app.Single"] []]

/-- One class that is kept three times, under a plain type, a nullable one and an alias. -/
theorem classesKeptByText_kitchen : ⟨0, kitchen, false⟩ ∈ kitchenProgram.classifiers ∧
    (plan kitchenProgram {} ⟨0, kitchen, false⟩).providers.map (·.plan.displayText)
      = ["Scoped(Constructor(app.Tea))", "Scoped(Constructor(app.Tea))",
        "Scoped(Constructor(app.Tea))"] ∧
    ClassesKeptByText kitchenProgram {} ⟨0, kitchen, false⟩ := by
  have hc : ⟨0, kitchen, false⟩ ∈ kitchenProgram.classifiers := Model.mem_classifiers.2 ⟨rfl, rfl⟩
  exact ⟨hc, by decide +kernel, classesKeptByText kitchenProgram {} ⟨0, kitchen, false⟩ hc⟩

/-- Tea is kept under its own name, under the name of its nullable type and under that of an
alias. -/
theorem not_classesKeptOnce_kitchen : ⟨0, kitchen, false⟩ ∈ kitchenProgram.classifiers ∧
    (plan kitchenProgram {} ⟨0, kitchen, false⟩).failure.isNone = true ∧
    ¬ ClassesKeptOnce kitchenProgram {} ⟨0, kitchen, false⟩ ∧
    ∃ q owner k, Keeps kitchenProgram {} ⟨0, kitchen, false⟩ q none owner "app.Brew" k ∧
      k.classIndex = 1 := by
  obtain ⟨q, owner, k, htea, hindex⟩ : ∃ q owner k,
      Keeps kitchenProgram {} ⟨0, kitchen, false⟩ q none owner "app.Tea" k ∧ k.classIndex = 1 :=
    ⟨_, _, _, .of_provider (List.mem_of_getElem? (i := 0) rfl) rfl, rfl⟩
  obtain ⟨q', owner', k', hrest, hindex'⟩ : ∃ q owner k,
      Keeps kitchenProgram {} ⟨0, kitchen, false⟩ q none owner "app.Tea?" k ∧ k.classIndex = 1 :=
    ⟨_, _, _, .of_provider (List.mem_of_getElem? (i := 1) rfl) rfl, rfl⟩
  have hcls : ⟨1, Sketch.injectable "Tea" ["app.Single"] [], false⟩ ∈ kitchenProgram.classifiers :=
    Model.mem_classifiers.2 ⟨rfl, rfl⟩
  refine ⟨Model.mem_classifiers.2 ⟨rfl, rfl⟩, by decide +kernel, fun h => ?_,
    ⟨_, _, _, .of_provider (List.mem_of_getElem? (i := 2) rfl) rfl, rfl⟩⟩
  have hname := (h _ hcls rfl _ _ _ _ _ _ _ _ _ _ htea hrest hindex hindex').2
  exact absurd hname (by decide)

end Component

end Wiring
