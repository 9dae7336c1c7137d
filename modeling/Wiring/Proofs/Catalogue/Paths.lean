import Wiring.Proofs.Catalogue.Requirements
import Wiring.Proofs.Model.Ancestry

/-!
# Where entries are collected

Every entry of a catalogue is recorded with an accessor, and the accessor names the component
parameters that lead from the component to the class the entry belongs to. In shared and in circular
parents alike a class is gone through under one accessor only. What is recorded there is a member of
its chain that nothing overrides, under the key that the class sees, and cached, if at all, in the
first scope of that chain.
-/

namespace Wiring

open Collect

namespace Collect

variable {m : Model} {o : Options} {c d e : Classifier} {names : List String}

/-- Component parameters of the given names lead, one after the other, from a class to a class. -/
inductive Leads (m : Model) (c : Classifier) : List String → Classifier → Prop where
  | here : Leads m c [] c
  | onward {names d e p} (h : Leads m c names d) (hp : p ∈ Arrival.componentParams m d)
      (he : m.classOf p.type = some e) : Leads m c (names ++ [p.name]) e

/-- The accessor that is written for the names of parameters; none without parameters. -/
def accessorOf (names : List String) : Option String :=
  if names = [] then none else some (".".intercalate names)

/-- A name at the end of a path extends the accessor by that name. -/
theorem accessorOf_append_singleton (names : List String) (name : String) :
    accessorOf (names ++ [name]) = some (Arrival.extend (accessorOf names) name) := by
  rw [accessorOf, accessorOf, if_neg (List.append_ne_nil_of_right_ne_nil _ (List.cons_ne_nil _ _))]
  by_cases hn : names = []
  · rw [if_pos hn, hn, List.nil_append, String.intercalate_singleton]
    rfl
  · rw [if_neg hn, String.intercalate_append_of_ne_nil hn (List.cons_ne_nil _ _),
      String.intercalate_singleton]
    rfl

/-- An accessor leads from a component to a class. -/
def Reached (m : Model) (c : Classifier) (accessor : Option String) (d : Classifier) : Prop :=
  ∃ names, accessor = accessorOf names ∧ Leads m c names d

/-- Without an accessor nothing but the component itself is reached. -/
theorem Reached.eq_of_none (h : Reached m c none d) : d = c := by
  obtain ⟨names, haccessor, hleads⟩ := h
  rw [accessorOf] at haccessor
  split at haccessor
  · next hn =>
    subst hn
    -- A path that ends with a parameter has a name.
    generalize hnames : ([] : List String) = names at hleads
    cases hleads with
    | here => rfl
    | onward =>
      exact absurd hnames.symm (List.append_ne_nil_of_right_ne_nil _ (List.cons_ne_nil _ _))
  · cases haccessor

/-- On the walk from a component every class is met where its accessor leads. The names are those of
the parameters followed so far, and each step adds the name of the parameter that is followed. -/
theorem reached_of_mem_walk {n : Arrival × Bool} (hn : n ∈ Arrival.walk m c)
    (hd : n.1.component = some d) : Reached m c n.1.accessor d := by
  have hnames : ∃ names, n.1.accessor = accessorOf names ∧
      ∀ d, n.1.component = some d → Leads m c names d := by
    refine Arrival.forall_mem_walk (P := fun a => ∃ names, a.accessor = accessorOf names ∧
      ∀ d, a.component = some d → Leads m c names d) ?_ ?_ n hn
    · refine ⟨[], rfl, fun d hd => ?_⟩
      cases hd
      exact .here
    · rintro a e p ⟨names, haccessor, hleads⟩ he hp
      refine ⟨names ++ [p.name], ?_, fun d hd => .onward (hleads e he) hp hd⟩
      rw [accessorOf_append_singleton, ← haccessor]
  obtain ⟨names, haccessor, hleads⟩ := hnames
  exact ⟨names, haccessor, hleads d hd⟩

/-- The component of a level is reached by the accessor of the level. -/
theorem reached_of_mem_levels {l : Level} (hl : l ∈ levels m o c) :
    Reached m c l.accessor l.component := by
  obtain ⟨a, ha, hcomponent, hlevel⟩ := mem_levels_iff.1 hl
  have hreached := reached_of_mem_walk ha hcomponent
  rw [hlevel]
  exact hreached

/-- The class `a` is the first one with a scope in the chain of `d`, and it has this scope. -/
def FirstScoped (m : Model) (o : Options) (d a : Classifier) (scope : TypeExpr) : Prop :=
  ∃ before after, d.chain m = before ++ a :: after ∧
    Role.scope? o (a.annotations m) = some scope ∧
    ∀ b ∈ before, Role.scope? o (b.annotations m) = none

/-- The search for the scope of a class finds the first one of its chain. -/
theorem found_findScope_iff {a : Classifier} {scope : TypeExpr} :
    (Role.findScope m o d).found = some (a, scope) ↔ FirstScoped m o d a scope := by
  have hfound : (Role.findScope m o d).found = (d.chain m).findSome? fun a =>
      (Role.scope? o (a.annotations m)).map fun s => (a, s) := by
    rw [← List.head?_filterMap, ← Role.scopedAncestors, Role.findScope]
    cases Role.scopedAncestors m o d <;> rfl
  rw [hfound, List.findSome?_eq_some_iff]
  constructor
  · rintro ⟨before, b, after, hchain, hb, hbefore⟩
    obtain ⟨s, hs, he⟩ := Option.map_eq_some_iff.1 hb
    cases he
    exact ⟨before, after, hchain, hs, fun b hb => Option.map_eq_none_iff.1 (hbefore b hb)⟩
  · rintro ⟨before, after, hchain, hs, hbefore⟩
    refine ⟨before, a, after, hchain, ?_, fun b hb => Option.map_eq_none_iff.2 (hbefore b hb)⟩
    rw [hs]
    rfl

/-- An owner that is recorded at a class is found in the chain of the class. -/
theorem firstScoped_of_ownerOf {accessor : Option String} {owner : ScopeOwner}
    (h : ownerOf accessor (Role.findScope m o d) = some owner) :
    owner.accessor = accessor ∧ FirstScoped m o d owner.component owner.scope := by
  obtain ⟨⟨a, scope⟩, hfound, rfl⟩ := Option.map_eq_some_iff.1 h
  exact ⟨rfl, found_findScope_iff.1 hfound⟩

/-- An owner in reach has the first scope of a class that is met, and its accessor. -/
theorem exists_mem_walk_of_mem_scopeOwners {owner : ScopeOwner} (h : owner ∈ scopeOwners m o c) :
    ∃ n ∈ Arrival.walk m c, ∃ d, n.1.component = some d ∧ owner.accessor = n.1.accessor ∧
      FirstScoped m o d owner.component owner.scope := by
  obtain ⟨n, hn, h⟩ := List.mem_filterMap.1 h
  obtain ⟨d, hd, howner⟩ := Option.bind_eq_some_iff.1 h
  exact ⟨n, hn, d, hd, firstScoped_of_ownerOf howner⟩

/-- The key of the collection that a value of a key is contributed to. -/
def collectionKey (b : Builder) (key : Key) : Option Key :=
  match b with
  | .setOf => some ⟨.known .set [key.type], key.qualifier⟩
  | .mapOf => (pairArguments? key.type).map fun arguments => ⟨.known .map arguments, key.qualifier⟩

/-- A contribution is for the collection of what the member is asked for. -/
theorem collectionKey_of_contributes {l : Level} {f : Callable} {b : Builder} {key : Key}
    (h : contributes m o l f = some (b, key)) :
    collectionKey b (askedKey m o l.component f) = some key := by
  rw [contributes] at h
  obtain ⟨_, h⟩ := Option.ite_none_right_eq_some.1 h
  split at h
  · cases h
    rfl
  · obtain ⟨_, h⟩ := Option.ite_none_right_eq_some.1 h
    obtain ⟨arguments, harguments, he⟩ := Option.map_eq_some_iff.1 h
    cases he
    exact Option.map_eq_some_iff.2 ⟨arguments, harguments, rfl⟩

/-- What is recorded of a level: a member of its chain that no earlier member of the chain
overrides, with the accessor of the level, and with no scope other than that of the level. -/
structure RecordedAt (m : Model) (l : Level) (p : Provider) : Prop where
  member : ∃ before after, (l.component.chain m).flatMap (Classifier.members m)
    = before ++ p.callable :: after ∧ ∀ g ∈ before, g.overrides p.callable = false
  accessor : p.accessor = l.accessor
  scope : ∀ owner, p.scope = some owner → l.scope = some owner

/-- A member that a class is left with stands behind none of its shape, in the class and its
ancestors. -/
theorem exists_split_of_mem_allMembers {f : Callable} (h : f ∈ d.allMembers m) :
    ∃ before after, (d.chain m).flatMap (Classifier.members m) = before ++ f :: after ∧
      ∀ g ∈ before, g.overrides f = false :=
  Classifier.mem_dropOverridden_iff.1 h

/-- An offer that is kept is kept by the owner of its level. -/
theorem scope_of_offerScope {l : Level} {f : Callable} {owner : ScopeOwner}
    (h : offerScope o l f = some owner) : l.scope = some owner :=
  scope_of_memberScope (Option.ite_none_right_eq_some.1 h).2

/-- What a level offers is recorded at it under the key that its component sees. -/
theorem Offers.recordedAt {l : Level} {f : Callable} {key : Key} (h : Offers m o l f key) :
    RecordedAt m l ⟨f, l.accessor, offerScope o l f⟩ ∧ askedKey m o l.component f = key := by
  refine ⟨⟨exists_split_of_mem_allMembers h.member, rfl, fun _ => scope_of_offerScope⟩, ?_⟩
  rw [askedKey, h.returns, h.qualifier]

end Collect

namespace Catalogue

variable {m : Model} {o : Options} {c : Classifier}

/-- Every entry of a catalogue belongs to one of the given levels, each of which is at the class
that its accessor leads to, and no two of which are at one class. -/
structure RecordsLevels (m : Model) (o : Options) (c : Classifier) (k : Catalogue)
    (ls : List Level) : Prop where
  /-- A level is where its accessor leads. -/
  reached : ∀ l ∈ ls, Reached m c l.accessor l.component
  /-- No class is gone through under two accessors. -/
  apart : (ls.map fun l => l.component.path).Nodup
  /-- The scope of a level is the first one of its chain. -/
  owned : ∀ l ∈ ls, ∀ owner, l.scope = some owner →
    owner.accessor = l.accessor ∧ FirstScoped m o l.component owner.component owner.scope
  owners : ∀ owner ∈ k.owners, ∃ d, Reached m c owner.accessor d ∧
    FirstScoped m o d owner.component owner.scope
  bindings : ∀ key p, k.bindings.lookup key = some p →
    ∃ l ∈ ls, RecordedAt m l p ∧ askedKey m o l.component p.callable = key
  parts : ∀ key b, k.containers.lookup key = some b → ∀ p ∈ b.parts,
    ∃ l ∈ ls, RecordedAt m l p ∧ collectionKey b.builder (askedKey m o l.component p.callable) = key
  /-- The scope of a collection is that of the level of one of its contributors. -/
  collections : ∀ key b owner, k.containers.lookup key = some b → b.scope = some owner →
    ∃ l ∈ ls, l.scope = some owner ∧ ∃ p ∈ b.parts, RecordedAt m l p
  requirements : ∀ key p, k.requirements.lookup key = some p →
    ∃ l ∈ ls, RecordedAt m l p ∧ askedKey m o l.component p.callable = key
  requirementMembers : ∀ f ∈ k.requirementMembers,
    ∃ l ∈ ls, l.accessor = none ∧ RecordedAt m l ⟨f, none, none⟩

/-- An owner in reach has the first scope of the class that its accessor leads to. -/
theorem reached_of_mem_scopeOwners {owner : ScopeOwner} (h : owner ∈ scopeOwners m o c) :
    ∃ d, Reached m c owner.accessor d ∧ FirstScoped m o d owner.component owner.scope := by
  obtain ⟨n, hn, d, hd, haccessor, hfirst⟩ := exists_mem_walk_of_mem_scopeOwners h
  refine ⟨d, ?_, hfirst⟩
  rw [haccessor]
  exact reached_of_mem_walk hn hd

/-- The owner of a level is reached as the level is, and has the first scope there is on its
component and the ancestors of it. -/
theorem firstScoped_of_mem_levels {l : Level} (hl : l ∈ levels m o c) {owner : ScopeOwner}
    (h : l.scope = some owner) :
    owner.accessor = l.accessor ∧ FirstScoped m o l.component owner.component owner.scope := by
  rw [eq_levelAt_of_mem_levels hl] at h
  exact firstScoped_of_ownerOf h

/-- Whatever the parents of a component are, its catalogue is recorded level by level. -/
theorem recordsLevels_collect (m : Model) (o : Options) (c : Classifier) :
    ∃ ls, RecordsLevels m o c (collect m o c) ls := by
  refine ⟨levels m o c, ?_⟩
  exact {
    reached := fun l hl => reached_of_mem_levels hl
    apart := nodup_levels m o c
    owned := fun l hl owner h => firstScoped_of_mem_levels hl h
    owners := fun owner h => by
      rw [owners_collect] at h
      exact reached_of_mem_scopeOwners h
    bindings := fun key p h => by
      obtain ⟨l, hl, f, hoffers, rfl⟩ := offers_of_lookup_bindings h
      exact ⟨l, hl, hoffers.recordedAt⟩
    parts := fun key b h p hp => by
      obtain ⟨_, hparts, _⟩ := parts_of_lookup_containers h
      rw [hparts] at hp
      obtain ⟨n, hn, rfl⟩ := List.mem_map.1 hp
      obtain ⟨hl, hf, hc⟩ := mem_levels_of_mem_contributors hn
      exact ⟨n.1, hl, ⟨exists_split_of_mem_allMembers hf, rfl, fun _ h => by cases h⟩,
        collectionKey_of_contributes hc⟩
    collections := fun key b owner h hs => by
      obtain ⟨_, hparts, hscope⟩ := parts_of_lookup_containers h
      rw [hscope] at hs
      obtain ⟨n, hn, hs⟩ := List.exists_of_findSome?_eq_some hs
      obtain ⟨hl, hf, _⟩ := mem_levels_of_mem_contributors hn
      refine ⟨n.1, hl, scope_of_memberScope hs, ⟨n.2, n.1.accessor, none⟩, ?_,
        exists_split_of_mem_allMembers hf, rfl, fun _ h => by cases h⟩
      rw [hparts]
      exact List.mem_map.2 ⟨n, hn, rfl⟩
    requirements := fun key p h => by
      obtain ⟨l, hl, f, hoffers, rfl, _⟩ := offers_of_lookup_requirements h
      exact ⟨l, hl, hoffers.recordedAt⟩
    requirementMembers := fun f h => by
      obtain ⟨l, hl, key, hoffers, haccessor⟩ := offers_of_mem_requirementMembers h
      exact ⟨l, hl, haccessor, exists_split_of_mem_allMembers hoffers.member, haccessor.symm,
        fun _ h => by cases h⟩ }

end Catalogue

end Wiring
