import Wiring.Plan.Text
import Wiring.Proofs.Component.Requirements
import Wiring.Proofs.Resolve.Nodes
import Wiring.Proofs.Sketch

/-!
# Values of scoped bindings

Where the plans of a component build the value of a binding that has the owner of a scope. Caches
are kept type by type: while the entry of a type is being filled, no value of this type is taken
from a cache. What the entry holds is built right there, and the same key is not built again below
it, because its binding is on the path. A key with the same type and another qualifier is built
there, outside of its cache, and this is the only way to build one outside of its cache.
-/

namespace Wiring

namespace Resolver

/-- How a node stands to the cache entry of the key `k` that is being filled around it. -/
inductive Filling (r : Resolver) (k : Key) (q : Request) (plan : Plan) : Option Plan → Prop where
  /-- It is what the entry holds. -/
  | held {b : Binding} {owner : ScopeOwner} (hk : q.key = k)
      (hf : r.Finds q.key q.context q.fromEnd b) (hs : b.scope? = some owner) :
      Filling r k q plan (some (.cached owner.accessor owner.component q.key.type.sourceText plan))
  /-- It is needed for what the entry holds, and the binding of `k` is on the path. -/
  | under {b : Binding} {s : Subject} {parent : Plan}
      (hb : r.catalogue.resolve r.model r.options k (q.context.skipProvider == some k.type)
        = .ok (some b))
      (hs : s ∈ b.subjects) (hp : s.element.id ∈ q.context.path.elements.map (·.id))
      (hu : parent.isCached = false) : Filling r k q plan (some parent)

variable {r : Resolver} {k : Key} {q q' : Request} {plan inner : Plan} {parent : Option Plan}
  {filled : Option Key} {s : Option Subject} {b b' : Binding} {owner : ScopeOwner}

/-- A request finds one binding. -/
theorem Finds.unique (h : r.Finds q.key q.context q.fromEnd b)
    (h' : r.Finds q.key q.context q.fromEnd b') : b = b' := by
  have hfound := h.found
  rw [h'.found] at hfound
  cases hfound
  rfl

/-- What is asked for where a binding is built, is asked for by a subject of the binding. -/
theorem Finds.entered (h : r.Finds q.key q.context q.fromEnd b)
    (hskip : q.context.skipScoped = some q.key.type) (hq : r.Asks q s q') :
    ∃ t ∈ b.subjects, s = some t := by
  have hc := h.candidate
  rw [ofBinding_of_skipScoped b hskip] at hc
  cases hq with
  | onward hc' ht =>
    rw [hc] at hc'
    cases hc'
    rw [Binding.tasks_unscoped] at ht
    obtain ⟨t, _, he⟩ := List.mem_map.1 ht
    cases he
  | inside hc' ht =>
    rw [hc] at hc'
    cases hc'
    rw [Binding.tasks_unscoped] at ht
    obtain ⟨t, hmem, he⟩ := List.mem_map.1 ht
    cases he
    exact ⟨_, hmem, rfl⟩

/-- Where the candidate is a binding as it is, none of its subjects is on the path. -/
theorem fresh_of_unscoped {answer : Request → Except Failure Plan}
    (hc : r.candidate q.key q.context q.fromEnd = .ok (some b.unscoped))
    (hstep : r.step answer q = .ok plan) {t : Subject} (ht : t ∈ b.subjects) :
    t.element.id ∉ q.context.path.elements.map (·.id) := by
  have htask : .enter t ∈ b.unscoped.tasks q.key q.context := by
    rw [Binding.tasks_unscoped]
    exact List.mem_map.2 ⟨t, ht, rfl⟩
  obtain ⟨p, hp⟩ := perform_of_step hstep hc htask
  obtain ⟨context, _, he, _⟩ := visit_eq_ok_iff.1 hp
  exact (Context.enter?_eq_some he).1

/-- Where the entry of its type is being filled, none of the subjects of a binding is on the
path. -/
theorem Finds.fresh {answer : Request → Except Failure Plan}
    (h : r.Finds q.key q.context q.fromEnd b) (hskip : q.context.skipScoped = some q.key.type)
    (hstep : r.step answer q = .ok plan) {t : Subject} (ht : t ∈ b.subjects) :
    t.element.id ∉ q.context.path.elements.map (·.id) := by
  have hc := h.candidate
  rw [ofBinding_of_skipScoped b hskip] at hc
  exact fresh_of_unscoped hc hstep ht

/-- What is asked for while an entry is being filled, and does not come from a cache, is needed for
what the entry holds. -/
theorem Filling.asked (h : r.Filling k q plan parent) (hskip : q.context.skipScoped = some k.type)
    (hu : plan.isCached = false) (hq : r.Asks q s q') : r.Filling k q' inner (some plan) := by
  obtain ⟨hpath, hprovider⟩ := hq.carries
  cases h with
  | @held b owner hk hf hs =>
    subst hk
    -- The binding is built here, so what it needs is asked for with it on the path.
    obtain ⟨t, hmem, rfl⟩ := hf.entered hskip hq
    refine .under ?_ hmem ?_ hu
    · rw [hprovider]
      exact hf.found
    · rw [hpath]
      exact List.mem_cons_self ..
  | under hb hs hp _ =>
    refine .under ?_ hs ?_ hu
    · rw [hprovider]
      exact hb
    · rw [hpath, List.map_append]
      exact List.mem_append.2 (.inr hp)

/-- What fills an entry stands where the plan that takes its value from the cache says. -/
theorem filling_of_cached
    (hc : r.candidate q.key q.context q.fromEnd = .ok (some (.cached owner))) :
    r.Filling q.key ⟨q.key, q.context.withoutScoped q.key.type, none⟩ plan
      (some (.cached owner.accessor owner.component q.key.type.sourceText plan)) := by
  obtain ⟨b, hf, hs, _⟩ := finds_of_cached hc
  exact .held (b := b) rfl ⟨rfl, hf.found⟩ hs

section Component

variable {m : Model} {o : Options} {c : Classifier} {root : Request}

/-- Below a request under which no entry is being filled, every node knows the entry that is being
filled around it, and how it stands to it. -/
theorem PlanNode.filling (hc : c ∈ m.classifiers) (hroot : root.context.skipScoped = none)
    (h : PlanNode (Component.resolver m o c) root q plan filled parent) :
    q.context.skipScoped = filled.map (·.type) ∧
      ∀ k, filled = some k → (Component.resolver m o c).Filling k q plan parent := by
  induction h with
  | root =>
    refine ⟨hroot, fun k hk => ?_⟩
    cases hk
  | @asked q plan filled parent s q' inner hn hq ha ih =>
    obtain ⟨hskip, hfilling⟩ := ih
    rcases hq.of_step (hn.step_eq hc) with ⟨owner, inner', hcand, rfl, ha', rfl⟩ | ⟨hu, hskip'⟩
    · rw [ha] at ha'
      cases ha'
      refine ⟨rfl, fun k hk => ?_⟩
      cases hk
      exact filling_of_cached hcand
    · rw [hu, hskip']
      refine ⟨hskip, fun k hk => ?_⟩
      have hk' : filled = some k := hk
      refine (hfilling k hk').asked ?_ hu hq
      rw [hskip, hk', Option.map_some]

/-- A binding with the owner of a scope is taken from the cache exactly where no entry of its type
is being filled. -/
theorem PlanNode.cached_iff (hc : c ∈ m.classifiers) (hroot : root.context.skipScoped = none)
    (h : PlanNode (Component.resolver m o c) root q plan filled parent)
    (hf : (Component.resolver m o c).Finds q.key q.context q.fromEnd b)
    (hs : b.scope? = some owner) :
    (plan.isCached = true ↔ filled.map (·.type) ≠ some q.key.type) ∧
      (plan.isCached = true →
        ∃ inner, plan = .cached owner.accessor owner.component q.key.type.sourceText inner) := by
  obtain ⟨hskip, _⟩ := h.filling hc hroot
  have hcand := hf.candidate
  rw [← hskip]
  by_cases hk : q.context.skipScoped = some q.key.type
  · rw [ofBinding_of_skipScoped b hk] at hcand
    rw [isCached_of_step (h.step_eq hc) hcand b.unscoped_ne_cached]
    exact ⟨⟨fun h => (Bool.false_ne_true h).elim, fun h => absurd hk h⟩,
      fun h => (Bool.false_ne_true h).elim⟩
  · rw [ofBinding_of_scope hs hk] at hcand
    rcases cached_of_step (h.step_eq hc) with ⟨_, hnot⟩ | ⟨owner', inner, hcand', _, rfl⟩
    · exact absurd hcand (hnot owner)
    · rw [hcand] at hcand'
      cases hcand'
      exact ⟨⟨fun _ => hk, fun _ => rfl⟩, fun _ => ⟨inner, rfl⟩⟩

/-- Where the value of a binding with the owner of a scope is built, it is what its cache entry
holds, unless the entry that is being filled is that of another qualifier. -/
theorem PlanNode.held_iff (hc : c ∈ m.classifiers) (hroot : root.context.skipScoped = none)
    (h : PlanNode (Component.resolver m o c) root q plan filled parent)
    (hf : (Component.resolver m o c).Finds q.key q.context q.fromEnd b)
    (hs : b.scope? = some owner) (hu : plan.isCached = false) :
    parent = some (.cached owner.accessor owner.component q.key.type.sourceText plan) ↔
      ¬ ∃ k, filled = some k ∧ k.type = q.key.type ∧ k.qualifier ≠ q.key.qualifier := by
  obtain ⟨hskip, hfilling⟩ := h.filling hc hroot
  have htype : filled.map (·.type) = some q.key.type := by
    by_contra hne
    have hcached := (h.cached_iff hc hroot hf hs).1.2 hne
    rw [hu] at hcached
    cases hcached
  obtain ⟨k, rfl, hk⟩ := Option.map_eq_some_iff.1 htype
  cases hfilling k rfl with
  | held hkey hf' hs' =>
    rw [hf.unique hf', hs'] at hs
    cases hs
    refine ⟨fun _ => ?_, fun _ => rfl⟩
    rintro ⟨k', hk', _, hne⟩
    cases hk'
    exact hne (congrArg Key.qualifier hkey.symm)
  | @under b' s' parent' hb hs' hp hu' =>
    constructor
    · intro he
      cases he
      cases hu'
    · intro hnone
      -- With the same qualifier it would be the same binding, which is on the path already.
      have hkey : k = q.key := by
        by_contra hne
        refine hnone ⟨k, rfl, hk, fun hq => hne ?_⟩
        have heta : (⟨k.type, k.qualifier⟩ : Key) = ⟨q.key.type, q.key.qualifier⟩ := by rw [hk, hq]
        exact heta
      subst hkey
      have hfound := hf.found
      rw [hb] at hfound
      cases hfound
      exact absurd hp (hf.fresh hskip (h.step_eq hc) hs')

end Component

end Resolver

namespace Component

/-- A node of one of the plans of a component: the request it answers, its plan, the key whose
cache entry is being filled around it, and the plan that asked for it. -/
def Node (m : Model) (o : Options) (c : Classifier) (q : Request) (built : Plan)
    (filled : Option Key) (parent : Option Plan) : Prop :=
  ∃ p ∈ (plan m o c).providers,
    (resolver m o c).PlanNode (request (resolver m o c) c p.callable) q built filled parent

/-- The value of a binding with the owner of a scope is built nowhere but in its cache. -/
def ScopesKept (m : Model) (o : Options) (c : Classifier) : Prop :=
  ∀ q built filled parent b owner, Node m o c q built filled parent →
    (resolver m o c).Finds q.key q.context q.fromEnd b → b.scope? = some owner →
    built.isCached = false →
    parent = some (.cached owner.accessor owner.component q.key.type.sourceText built)

/-- Scopes are kept type by type. -/
structure ScopesKeptByType (m : Model) (o : Options) (c : Classifier) : Prop where
  /-- The plan of every requirement is a node. -/
  roots : ∀ p ∈ (plan m o c).providers, ∃ q, Node m o c q p.plan none none
  /-- So is everything that a node is made of, or it is the call of a contributor, and what this
  call is made of is. -/
  children : ∀ q built filled parent, Node m o c q built filled parent →
    ∀ child ∈ built.children, (∃ q' filled', Node m o c q' child filled' (some built))
      ∨ ∃ builder parts, built = .container builder parts ∧ ∀ part ∈ child.children,
          ∃ q' filled', Node m o c q' part filled' (some built)
  /-- The contributors of a collection have no scope of their own. -/
  contributors : ∀ (q : Request) k,
    (resolver m o c).Finds q.key q.context q.fromEnd (.container k) → ∀ p ∈ k.parts, p.scope = none
  /-- A binding with the owner of a scope is taken from the cache of this owner, exactly where the
  entry that is being filled is not that of its type. -/
  caches : ∀ q built filled parent b owner, Node m o c q built filled parent →
    (resolver m o c).Finds q.key q.context q.fromEnd b → b.scope? = some owner →
    ((∃ inner, built = .cached owner.accessor owner.component q.key.type.sourceText inner)
      ↔ filled.map (·.type) ≠ some q.key.type)
  /-- Where its value is built instead, it is what the cache of this owner holds, exactly when the
  entry that is being filled is not that of another qualifier. -/
  holds : ∀ q built filled parent b owner, Node m o c q built filled parent →
    (resolver m o c).Finds q.key q.context q.fromEnd b → b.scope? = some owner →
    built.isCached = false →
    (parent = some (.cached owner.accessor owner.component q.key.type.sourceText built)
      ↔ ¬ ∃ k, filled = some k ∧ k.type = q.key.type ∧ k.qualifier ≠ q.key.qualifier)

/-- Scopes are kept type by type in all plans of all components. -/
theorem scopesKeptByType (m : Model) (o : Options) (c : Classifier) (hc : c ∈ m.classifiers) :
    ScopesKeptByType m o c where
  roots p hp := ⟨_, p, hp, .root (answer_of_mem_providers hp)⟩
  children := by
    rintro q built filled parent ⟨p, hp, hn⟩ child hchild
    rcases hn.children hc hchild with ⟨q', filled', hn'⟩ | ⟨builder, parts, he, hparts⟩
    · exact .inl ⟨q', filled', p, hp, hn'⟩
    · refine .inr ⟨builder, parts, he, fun part hpart => ?_⟩
      obtain ⟨q', filled', hn'⟩ := hparts part hpart
      exact ⟨q', filled', p, hp, hn'⟩
  contributors q k hf p hp := by
    cases Catalogue.binds_of_resolve hf.found with
    | collection h =>
      obtain ⟨_, hparts, _⟩ := Catalogue.parts_of_lookup_containers h
      rw [hparts] at hp
      obtain ⟨n, _, rfl⟩ := List.mem_map.1 hp
      rfl
  caches := by
    rintro q built filled parent b owner ⟨p, _, hn⟩ hf hs
    obtain ⟨hiff, hinner⟩ := hn.cached_iff hc rfl hf hs
    rw [← hiff]
    constructor
    · rintro ⟨inner, rfl⟩
      rfl
    · exact hinner
  holds := by
    rintro q built filled parent b owner ⟨p, _, hn⟩ hf hs hu
    exact hn.held_iff hc rfl hf hs hu

/-- A component that keeps jam under two qualifiers. The one is made out of the other. -/
def shelf : ClassDecl :=
  Sketch.component "Shelf" ["app.Single"] [] [
    Sketch.requirement "jam" (Sketch.type "Jam") ["app.A"],
    Sketch.provider "mix" [Sketch.param "jar" (Sketch.type "Jam") ["app.B"]] (Sketch.type "Jam")
      ["app.A", "app.Single"],
    Sketch.provider "jar" [] (Sketch.type "Jam") ["app.B", "app.Single"]]

/-- The program of the shelf. -/
def shelfProgram : Model := Sketch.program [shelf, Sketch.plain "Jam"]

/-- The jam of one qualifier is kept, and the one it is made out of is not, being of one type. -/
theorem scopesKeptByType_shelf : ⟨0, shelf, false⟩ ∈ shelfProgram.classifiers ∧
    (plan shelfProgram {} ⟨0, shelf, false⟩).providers.map (·.plan.displayText)
      = ["Scoped(Provides(mix, Provides(jar)))"] ∧
    ScopesKeptByType shelfProgram {} ⟨0, shelf, false⟩ := by
  have hc : ⟨0, shelf, false⟩ ∈ shelfProgram.classifiers := Model.mem_classifiers.2 ⟨rfl, rfl⟩
  exact ⟨hc, by decide +kernel, scopesKeptByType shelfProgram {} ⟨0, shelf, false⟩ hc⟩

/-- The jar is asked for under the jam that is mixed from it. -/
theorem exists_node_jar : ∃ q jar owner built filled parent,
    Node shelfProgram {} ⟨0, shelf, false⟩ q built filled (some parent) ∧
      (resolver shelfProgram {} ⟨0, shelf, false⟩).Finds q.key q.context q.fromEnd (.provider jar) ∧
      jar.scope = some owner ∧ built.isCached = false ∧ parent.isCached = false := by
  have hc : ⟨0, shelf, false⟩ ∈ shelfProgram.classifiers := Model.mem_classifiers.2 ⟨rfl, rfl⟩
  obtain ⟨r, p, jam, entry, needed, jamOwner, mix, context, jar, jarOwner, rfl, hp, hjam, hcached,
      hentry, hmix, henter, hneeds, hjar, hscope, hskip⟩ :
      ∃ r p jam, ∃ entry : Request, ∃ needed jamOwner mix context jar jarOwner,
        resolver shelfProgram {} ⟨0, shelf, false⟩ = r ∧
        (plan shelfProgram {} ⟨0, shelf, false⟩).providers = [p] ∧
        request r ⟨0, shelf, false⟩ p.callable = jam ∧
        r.candidate jam.key jam.context jam.fromEnd = .ok (some (.cached jamOwner)) ∧
        entry = ⟨jam.key, jam.context.withoutScoped jam.key.type, none⟩ ∧
        r.candidate entry.key entry.context entry.fromEnd = .ok (some (.provides mix)) ∧
        entry.context.enter? mix.callable.element = some context ∧
        r.needs context (.member mix) = [needed] ∧
        r.Finds needed.key needed.context needed.fromEnd (.provider jar) ∧
        jar.scope = some jarOwner ∧ needed.context.skipScoped = some needed.key.type :=
    ⟨_, _, _, _, _, _, _, _, _, _, rfl, rfl, rfl, rfl, rfl, rfl, rfl, rfl, ⟨rfl, rfl⟩, rfl, rfl⟩
  have hmem : p ∈ (plan shelfProgram {} ⟨0, shelf, false⟩).providers := by
    rw [hp]
    exact List.mem_singleton.2 rfl
  have hroot := answer_of_mem_providers hmem
  rw [hjam] at hroot
  obtain ⟨mixed, _, hmixed⟩ := (Resolver.PlanNode.root hroot).exists_asked hc
    (.onward hcached (List.mem_singleton.2 (congrArg Task.ask hentry)))
  obtain ⟨built, filled, hbuilt⟩ := hmixed.exists_asked hc
    (.inside hmix (List.mem_singleton.2 rfl) henter (hneeds ▸ List.mem_singleton.2 rfl))
  have hcand := hjar.candidate
  rw [Resolver.ofBinding_of_skipScoped _ hskip] at hcand
  refine ⟨needed, jar, jarOwner, built, filled, mixed, ⟨p, hmem, ?_⟩, hjar, hscope, ?_, ?_⟩
  · rw [hjam]
    exact hbuilt
  · exact Resolver.isCached_of_step (hbuilt.step_eq hc) hcand (Binding.unscoped_ne_cached _)
  · exact Resolver.isCached_of_step (hmixed.step_eq hc) hmix fun owner he => by cases he

/-- The jar is not taken from its cache when jam is mixed from it. -/
theorem not_scopesKept_shelf : ⟨0, shelf, false⟩ ∈ shelfProgram.classifiers ∧
    (plan shelfProgram {} ⟨0, shelf, false⟩).failure.isNone = true ∧
    ¬ ScopesKept shelfProgram {} ⟨0, shelf, false⟩ := by
  have hc : ⟨0, shelf, false⟩ ∈ shelfProgram.classifiers := Model.mem_classifiers.2 ⟨rfl, rfl⟩
  refine ⟨hc, by decide +kernel, fun h => ?_⟩
  obtain ⟨q, jar, owner, built, filled, parent, hn, hf, hs, hu, hu'⟩ := exists_node_jar
  cases h q built filled _ _ owner hn hf hs hu
  cases hu'

end Component

end Wiring
