import Mathlib.Logic.Relation
import Wiring.Plan.Text
import Wiring.Proofs.Catalogue.Losses
import Wiring.Proofs.Catalogue.Requirements
import Wiring.Proofs.Component.Requirements
import Wiring.Proofs.Resolve.Origins

/-!
# What parents resolve

Whatever the catalogue of a parent binds, the catalogue of a component binds too, in whatever shape
the parents are connected: a component that is met again is not gone through a second time, but it
was gone through before. What a parent asks for is a binding of the component, and what it
constructs can be constructed, since the owners of scopes that it reaches are reached by the
component. There are two exceptions. In a ring of parents the component itself may be bound to a
key, as a parent of its parent. For itself it is bound last, and an injectable class without an
owner for its scope is in the way. And another class that has the name of the component is taken for
it and not gone through.
-/

namespace Wiring

open Annotation (component)
open Collect

namespace Collect

variable {m : Model} {o : Options} {c d p : Classifier}

/-- A class holds a component of the class `d` among its constructor parameters. -/
def Holds (m : Model) (c d : Classifier) : Prop :=
  ∃ q ∈ Arrival.componentParams m c, m.classOf q.type = some d

/-- A class holds a component of the class `e`, which cannot be taken for `c`: it is no other class
that has the qualified name of `c`. -/
def HoldsApart (m : Model) (c d e : Classifier) : Prop :=
  Holds m d e ∧ (e.path = c.path → e = c)

/-- A class is reached from `c`, and no other class that has the qualified name of `c` is on the way
or is reached from there. -/
structure ReachedApart (m : Model) (c p : Classifier) : Prop where
  reached : Relation.TransGen (HoldsApart m c) c p
  onward : ∀ d, Relation.ReflTransGen (Holds m) p d → d.path = c.path → d = c

/-- What is held from there on is reached apart, too. -/
theorem ReachedApart.reaches (h : ReachedApart m c p) (hd : Relation.ReflTransGen (Holds m) p d) :
    Relation.ReflTransGen (HoldsApart m c) c d := by
  induction hd with
  | refl => exact h.reached.to_reflTransGen
  | tail hreach hstep ih => exact .tail ih ⟨hstep, h.onward _ (.tail hreach hstep)⟩

/-- Whatever is met on the walk from a component is reached from it. -/
theorem reaches_of_mem_walk {n : Arrival × Bool} (hn : n ∈ Arrival.walk m c)
    (hd : n.1.component = some d) : Relation.ReflTransGen (Holds m) c d := by
  refine Arrival.forall_mem_walk
    (P := fun a => ∀ d, a.component = some d → Relation.ReflTransGen (Holds m) c d)
    ?_ ?_ n hn d hd
  · intro d hd
    cases hd
    exact .refl
  · intro a e q ha he hq d hd
    exact .tail (ha e he) ⟨q, hq, hd⟩

/-- The component of a level is reached through component parameters. -/
theorem reaches_of_mem_levels {l : Level} (hl : l ∈ levels m o c) :
    Relation.ReflTransGen (Holds m) c l.component := by
  obtain ⟨a, ha, hcomponent, _⟩ := mem_levels_iff.1 hl
  exact reaches_of_mem_walk ha hcomponent

/-- Every class that is reached from a component is a level of it, unless a class on the way is
taken for the component. -/
theorem exists_level_of_reaches (h : Relation.ReflTransGen (HoldsApart m c) c d) :
    ∃ l ∈ levels m o c, l.component = d := by
  obtain ⟨rest, hlevels⟩ := exists_levels_eq_cons m o c
  have hfirst : levelAt m o none c ∈ levels m o c := by
    rw [hlevels]
    exact List.mem_cons_self ..
  induction h with
  | refl => exact ⟨_, hfirst, rfl⟩
  | @tail e d _ hstep ih =>
    obtain ⟨l, hl, rfl⟩ := ih
    obtain ⟨a, ha, hcomponent, _⟩ := mem_levels_iff.1 hl
    obtain ⟨⟨q, hq, hclass⟩, hapart⟩ := hstep
    -- The class follows one that is entered, so a class of its name is entered.
    have hnext : (⟨some q, a.accessor.isNone, some d, some (Arrival.extend a.accessor q.name)⟩ :
        Arrival) ∈ Arrival.onward m a :=
      Arrival.mem_onward_iff.2 ⟨_, hcomponent, q, hq, by rw [hclass]⟩
    rcases (Arrival.walk_runs m c).closed.2 a (Walk.mem_entered.2 ha) _ hnext with hseen | hkey
    · exact absurd hseen List.not_mem_nil
    · obtain ⟨b, hb, hpath⟩ := List.mem_map.1 hkey
      obtain ⟨d', hd', hpath⟩ := Option.map_eq_some_iff.1 hpath
      have hb := Walk.mem_entered.1 hb
      have hlevel : levelAt m o b.accessor d' ∈ levels m o c :=
        mem_levels_iff.2 ⟨b, hb, hd', rfl⟩
      rcases eq_or_classNamed_of_mem_walk hb hd' with rfl | hnamed
      · exact ⟨_, hfirst, (hapart hpath.symm).symm⟩
      · rw [hpath, Model.classNamed_path hclass] at hnamed
        exact ⟨_, hlevel, (Option.some.inj hnamed).symm⟩

/-- A class whose scope is found on the walk from a parent is found on the walk from the component,
so the scope has an owner there. -/
theorem exists_owner_of_reached (hp : ReachedApart m c p) {owner : ScopeOwner}
    (h : owner ∈ scopeOwners m o p) :
    ∃ owner' ∈ scopeOwners m o c, owner'.scope = owner.scope := by
  obtain ⟨n, hn, howner⟩ := List.mem_filterMap.1 h
  obtain ⟨d, hd, howner⟩ := Option.bind_eq_some_iff.1 howner
  obtain ⟨l, hl, rfl⟩ := exists_level_of_reaches (o := o) (hp.reaches (reaches_of_mem_walk hn hd))
  obtain ⟨found, hfound, rfl⟩ := Option.map_eq_some_iff.1 howner
  refine ⟨⟨found.1, l.accessor, found.2⟩, mem_scopeOwners_of_level hl ?_, rfl⟩
  rw [eq_levelAt_of_mem_levels hl]
  exact Option.map_eq_some_iff.2 ⟨found, hfound, rfl⟩

/-- A member that binds a key provides it at every level of its class, or asks for it. -/
theorem bindsKey_cases {l : Level} {f : Callable} {key : Key} (h : bindsKey m o l f = some key) :
    (∀ l' : Level, l'.component = l.component → bindsKey m o l' f = some key)
      ∨ Role.isProvider f = true ∧ askedKey m o l.component f = key := by
  by_cases hp : Role.isProvides f = true
  · refine .inl fun l' hl => ?_
    rw [bindsKey, if_pos hp] at h ⊢
    rw [hl]
    exact h
  · rw [bindsKey, if_neg hp] at h
    obtain ⟨hr, hk⟩ := Option.ite_none_right_eq_some.1 h
    exact .inr ⟨(Bool.and_eq_true_iff.1 hr).1, Option.some.inj hk⟩

/-- A parent binds what it asks for. -/
theorem bindsKey_of_asks {l : Level} {f : Callable} (h : Role.isProvider f = true)
    (ha : l.accessor ≠ none) : bindsKey m o l f = some (askedKey m o l.component f) := by
  have hparent : (Role.isProvider f && l.accessor.isSome) = true := by
    rw [h, Bool.true_and]
    exact Option.isSome_iff_ne_none.2 ha
  rw [bindsKey, if_neg (Bool.eq_false_iff.1 (isProvides_of_isProvider h)), if_pos hparent]
  rfl

end Collect

namespace Catalogue

variable {m : Model} {o : Options} {c d p : Classifier} {key : Key}

/-- A class that is reached from a component binds for it what it provides itself. -/
theorem binders_ne_nil (hd : Relation.ReflTransGen (HoldsApart m c) c d) {f : Callable}
    (hf : f ∈ d.allMembers m) (h : ∀ l : Level, l.component = d → bindsKey m o l f = some key) :
    binders m o c key ≠ [] := by
  obtain ⟨l, hl, rfl⟩ := exists_level_of_reaches (o := o) hd
  exact List.ne_nil_of_mem (mem_binders_iff (n := (l, f)).2 ⟨hl, hf, h l rfl⟩)

/-- A class that is reached from a component binds for it what it asks for, or is the component
itself. -/
theorem binders_ne_nil_or_eq (hd : Relation.ReflTransGen (HoldsApart m c) c d) {f : Callable}
    (hf : f ∈ askers m d) (hk : askedKey m o d f = key) :
    binders m o c key ≠ [] ∨ d = c := by
  obtain ⟨l, hl, rfl⟩ := exists_level_of_reaches (o := o) hd
  obtain ⟨hf, hprovider⟩ := mem_askers_iff.1 hf
  by_cases ha : l.accessor = none
  · exact .inr (component_of_accessor hl ha)
  · have hbinds := bindsKey_of_asks (m := m) (o := o) hprovider ha
    rw [hk] at hbinds
    exact .inl (List.ne_nil_of_mem (mem_binders_iff (n := (l, f)).2 ⟨hl, hf, hbinds⟩))

/-- A class that is reached from a component contributes for it to the collections that it
contributes to. -/
theorem contributors_ne_nil (hd : Relation.ReflTransGen (HoldsApart m c) c d) {l : Level}
    (hl : l.component = d) {f : Callable} (hf : f ∈ d.allMembers m) {b : Builder}
    (h : contributes m o l f = some (b, key)) : contributors m o c b key ≠ [] := by
  obtain ⟨l', hl', rfl⟩ := exists_level_of_reaches (o := o) hd
  have hsame : contributes m o l' f = some (b, key) := by
    simp only [contributes, hl] at h ⊢
    exact h
  refine List.ne_nil_of_mem (a := (l', f)) (List.mem_flatMap.2 ⟨l', hl', ?_⟩)
  exact List.mem_map.2 ⟨f, List.mem_filter.2 ⟨hf, decide_eq_true hsame⟩, rfl⟩

/-- An injectable class that a parent can construct can be constructed by the component. -/
theorem constructorBinding_of_reached (hp : ReachedApart m c p) {t : TypeExpr} {cls : Classifier}
    {k : Constructor} {scope : Option ScopeOwner} (hcls : m.classOf t = some cls)
    (hi : Role.isInjectClass m o cls = true) (hk : cls.constructor? m = some k)
    (hs : Role.scope? o (cls.annotations m) = scope.map (·.scope))
    (ho : ∀ owner, scope = some owner → (collect m o p).ownerOf? owner.scope = some owner) :
    ∃ b, (collect m o c).constructorBinding m o t = .ok (some b) := by
  rw [constructorBinding]
  simp only [hcls, hi, if_true, hk, hs]
  cases scope with
  | none => exact ⟨_, rfl⟩
  | some owner =>
    have howner := ho owner rfl
    rw [ownerOf?, owners_collect] at howner
    obtain ⟨owner', hmem, hscope⟩ :=
      exists_owner_of_reached hp (List.mem_of_find?_eq_some howner)
    have hfound : ((collect m o c).ownerOf? owner.scope).isSome = true := by
      rw [ownerOf?, owners_collect, List.find?_isSome]
      exact ⟨owner', hmem, by rw [hscope, beq_self_eq_true]⟩
    obtain ⟨first, hfirst⟩ := Option.isSome_iff_exists.1 hfound
    rw [Option.map_some]
    simp only [hfirst]
    exact ⟨_, rfl⟩

/-- A component asks for an injectable class with a scope that no component in reach owns. The class
comes before what the component asks for, so its key cannot be looked up. -/
structure AsksUnowned (m : Model) (o : Options) (c : Classifier) (key : Key) : Prop where
  asked : ∃ f ∈ (collect m o c).requirementMembers, askedKey m o c f = key
  unqualified : key.qualifier = none
  unowned : ∃ cls scope, m.classOf key.type = some cls ∧ Role.isInjectClass m o cls = true ∧
    Role.scope? o (cls.annotations m) = some scope ∧ (collect m o c).ownerOf? scope = none ∧
    ∀ skipOwn, (collect m o c).resolve m o key skipOwn = .error ⟨key.type, scope⟩

/-- A key that the component itself asks for is bound, if only to the requirement, unless it is that
of an injectable class without an owner for its scope. -/
theorem resolve_of_asks {f : Callable} (hf : f ∈ askers m c) (hk : askedKey m o c f = key) :
    (∃ b, (collect m o c).resolve m o key false = .ok (some b)) ∨ AsksUnowned m o c key := by
  cases h : (collect m o c).resolve m o key false with
  | error e =>
    obtain ⟨hb, hcontainer, hq, hctor⟩ := resolve_eq_error h
    obtain ⟨htype, cls, hcls, hi, _, hs, ho⟩ := constructorBinding_eq_error hctor
    refine .inr ⟨⟨f, ?_, hk⟩, hq, cls, e.scope, hcls, hi, hs, ho, fun skipOwn => ?_⟩
    · rw [requirementMembers_collect]
      exact hf
    · rw [resolve]
      simp only [hb, hcontainer, hq, hctor]
      rw [← htype]
  | ok found =>
    cases found with
    | some b => exact .inl ⟨b, rfl⟩
    | none =>
      -- The requirement itself is there when nothing else is.
      have hrequired := requirementBinding_of_resolve h
      have hfirst : ((askers m c).find? (askedKey m o c · = key)).isSome = true :=
        List.find?_isSome.2 ⟨f, hf, decide_eq_true hk⟩
      obtain ⟨first, hfirst⟩ := Option.isSome_iff_exists.1 hfirst
      rw [requirementBinding, lookup_requirements_collect, hfirst] at hrequired
      cases hrequired

/-- What a parent resolves is resolved by the component, but for a key that the component asks for
and that is found in the parent through a ring. -/
theorem resolve_of_parent (hp : ReachedApart m c p) {b : Binding}
    (h : (collect m o p).resolve m o key false = .ok (some b)) :
    (∃ b', (collect m o c).resolve m o key false = .ok (some b')) ∨
      Relation.TransGen (Holds m) p c ∧ AsksUnowned m o c key := by
  by_cases hself : p = c
  · subst hself
    exact .inl ⟨b, h⟩
  by_cases hbinders : binders m o c key = []
  swap
  · obtain ⟨n, rest, hn⟩ := List.exists_cons_of_ne_nil hbinders
    exact .inl ⟨_, resolve_of_binders (n := n) (by rw [hn]; rfl) false⟩
  by_cases hcontributors : ∀ b, contributors m o c b key = []
  swap
  · obtain ⟨builder, hne⟩ := not_forall.1 hcontributors
    obtain ⟨k, hk, _⟩ := resolve_of_contributors hbinders hne
    exact .inl ⟨_, hk false⟩
  -- Nothing binds the key, so what asks for it from the parent on is the component itself.
  have hasked : ∀ {d f}, Relation.ReflTransGen (Holds m) p d → f ∈ askers m d →
      askedKey m o d f = key →
      (∃ b', (collect m o c).resolve m o key false = .ok (some b')) ∨
        Relation.TransGen (Holds m) p c ∧ AsksUnowned m o c key := by
    intro d f hd hf hk
    rcases binders_ne_nil_or_eq (hp.reaches hd) hf hk with hne | rfl
    · exact absurd hbinders hne
    · refine (resolve_of_asks hf hk).imp_right fun hunowned => ⟨?_, hunowned⟩
      rcases Relation.reflTransGen_iff_eq_or_transGen.1 hd with he | hring
      · exact absurd he.symm hself
      · exact hring
  cases binds_of_resolve h with
  | @explicit provider hlookup =>
    rw [lookup_bindings_collect] at hlookup
    obtain ⟨n, hn, _⟩ := Option.map_eq_some_iff.1 hlookup
    obtain ⟨hl, hf, hk⟩ := mem_binders_iff.1 (List.mem_of_mem_head? hn)
    have hd := reaches_of_mem_levels hl
    rcases bindsKey_cases hk with hbinds | ⟨hprovider, hasks⟩
    · exact absurd hbinders (binders_ne_nil (hp.reaches hd) hf hbinds)
    · exact hasked hd (mem_askers_iff.2 ⟨hf, hprovider⟩) hasks
  | collection hlookup =>
    obtain ⟨n, rest, hn⟩ := List.exists_cons_of_ne_nil (parts_of_lookup_containers hlookup).1
    obtain ⟨hl, hf, hcontributes⟩ := mem_levels_of_mem_contributors (hn ▸ List.mem_cons_self ..)
    have hd := reaches_of_mem_levels hl
    exact absurd (hcontributors _) (contributors_ne_nil (hp.reaches hd) rfl hf hcontributes)
  | constructed hq hcls hi hk hs ho =>
    obtain ⟨hnone, hnone'⟩ := lookups_eq_none hbinders hcontributors
    obtain ⟨b', hctor⟩ :=
      constructorBinding_of_reached hp hcls hi hk hs ho
    refine .inl ⟨b', ?_⟩
    rw [resolve]
    simp only [hnone, hnone', hq, hctor]
  | required hlookup =>
    rw [lookup_requirements_collect] at hlookup
    obtain ⟨f, hf, _⟩ := Option.map_eq_some_iff.1 hlookup
    have hk : askedKey m o p f = key := by simpa using List.find?_some hf
    exact hasked .refl (List.mem_of_find?_eq_some hf) hk

end Catalogue

namespace Component

open Resolver Catalogue

/-- Whatever the catalogue of a parent binds, the catalogue of the component binds. -/
def ResolvesAsParents (m : Model) (o : Options) (c : Classifier) : Prop :=
  ∀ p, Relation.TransGen (Holds m) c p → ∀ key b,
    (collect m o p).resolve m o key false = .ok (some b) →
    ∃ b', (collect m o c).resolve m o key false = .ok (some b')

/-- Whatever the catalogue of a parent binds, the catalogue of the component binds, unless it asks
for the very key in a ring of parents and cannot be planned. No class on the way to the parent, and
none that is reached from there, may be taken for the component. -/
structure ResolvesAsParentsOrFails (m : Model) (o : Options) (c : Classifier) : Prop where
  resolved : ∀ p, ReachedApart m c p → ∀ key b,
    (collect m o p).resolve m o key false = .ok (some b) →
    (∃ b', (collect m o c).resolve m o key false = .ok (some b')) ∨
      Relation.TransGen (Holds m) p c ∧ AsksUnowned m o c key
  /-- A component that asks for a class with a scope that no component in reach owns cannot be
  planned. -/
  failed : ∀ key, AsksUnowned m o c key → (plan m o c).failure.isSome = true

variable {m : Model} {o : Options} {c : Classifier}

/-- A requirement that cannot be looked up ends planning. -/
theorem isSome_failure_of_asksUnowned (hc : c ∈ m.classifiers) {key : Key}
    (h : AsksUnowned m o c key) : (plan m o c).failure.isSome = true := by
  obtain ⟨⟨f, hf, rfl⟩, _, cls, scope, _, _, _, _, hmissing⟩ := h
  by_contra hnone
  rw [Option.not_isSome_iff_eq_none] at hnone
  rw [← callables_of_failure hnone] at hf
  obtain ⟨p, hp, rfl⟩ := List.mem_map.1 hf
  have ha := answer_of_mem_providers hp
  rw [answer_eq_step hc] at ha
  obtain ⟨candidate, _, hcand, _⟩ := step_eq_ok_iff.1 ha
  cases hcand.symm.trans (candidate_of_missing rfl (hmissing _))

/-- Components resolve what their parents resolve, in all programs, but for what they cannot be
planned with themselves. -/
theorem resolvesAsParentsOrFails (m : Model) (o : Options) (c : Classifier)
    (hc : c ∈ m.classifiers) : ResolvesAsParentsOrFails m o c where
  resolved _ hp _ _ h := resolve_of_parent hp h
  failed _ h := isSome_failure_of_asksUnowned hc h

/-- A river mouth with two arms that have one spring. -/
def mouth : ClassDecl :=
  Sketch.component "Mouth" []
    [Sketch.param "west" (Sketch.type "West") [component],
      Sketch.param "east" (Sketch.type "East") [component]]
    [Sketch.requirement "mill" (Sketch.type "Mill") []]

/-- An arm of the river. -/
def arm (name : String) : ClassDecl :=
  Sketch.component name [] [Sketch.param "spring" (Sketch.type "Spring") [component]] []

/-- The program of the river, where the spring knows its mouth. -/
def mouthProgram : Model :=
  Sketch.program [mouth, arm "West", arm "East",
    Sketch.component "Spring" ["app.Single"]
      [Sketch.param "mouth" (Sketch.type "Mouth") [component]]
      [Sketch.requirement "water" (Sketch.type "Water") []],
    Sketch.plain "Water",
    Sketch.injectable "Mill" ["app.Single"] [Sketch.param "water" (Sketch.type "Water") []]]

/-- The spring is gone through once, on the way through the first arm. -/
theorem resolvesAsParentsOrFails_mouth : ⟨0, mouth, false⟩ ∈ mouthProgram.classifiers ∧
    (plan mouthProgram {} ⟨0, mouth, false⟩).providers.map (·.plan.displayText)
      = ["Scoped(Constructor(app.Mill, Provides(west.spring.water)))"] ∧
    ResolvesAsParentsOrFails mouthProgram {} ⟨0, mouth, false⟩ := by
  have hc : ⟨0, mouth, false⟩ ∈ mouthProgram.classifiers := Model.mem_classifiers.2 ⟨rfl, rfl⟩
  exact ⟨hc, by decide +kernel, resolvesAsParentsOrFails mouthProgram {} ⟨0, mouth, false⟩ hc⟩

/-- A quay that asks for a ship, which only a port with a register can have. -/
def quay : ClassDecl :=
  Sketch.component "Quay" [] [Sketch.param "port" (Sketch.type "Port") [component]]
    [Sketch.requirement "ship" (Sketch.type "Ship") []]

/-- A port that keeps no register, and has the ship from its quay. -/
def port : ClassDecl :=
  Sketch.component "Port" [] [Sketch.param "quay" (Sketch.type "Quay") [component]] []

/-- The program of the port. -/
def quayProgram : Model :=
  Sketch.program [quay, port, Sketch.injectable "Ship" ["app.Single"] []]

/-- A yard that is entered through a stable. -/
def yard : ClassDecl :=
  Sketch.component "Yard" [] [Sketch.param "stable" (Sketch.type "Stable") [component]]
    [Sketch.requirement "coach" (Sketch.type "Coach") []]

/-- The stable, which belongs to another yard of the same name. -/
def stable : ClassDecl :=
  Sketch.component "Stable" [] [Sketch.param "yard" (Sketch.type "Yard") [component]] []

/-- The program of the two yards, where the second one has the horse. -/
def yardProgram : Model :=
  Sketch.program [yard, stable,
    Sketch.component "Yard" [] [] [Sketch.provider "horse" [] (Sketch.type "Horse") []],
    Sketch.plain "Horse",
    Sketch.injectable "Coach" [] [Sketch.param "horse" (Sketch.type "Horse") []]]

/-- The port has a ship that the quay does not have, and the stable has a horse that the first yard
does not have. -/
theorem not_resolvesAsParents :
    (⟨0, quay, false⟩ ∈ quayProgram.classifiers ∧
      ¬ ResolvesAsParents quayProgram {} ⟨0, quay, false⟩) ∧
    ⟨0, yard, false⟩ ∈ yardProgram.classifiers ∧
      ¬ ResolvesAsParents yardProgram {} ⟨0, yard, false⟩ := by
  refine ⟨⟨Model.mem_classifiers.2 ⟨rfl, rfl⟩, fun h => ?_⟩,
    Model.mem_classifiers.2 ⟨rfl, rfl⟩, fun h => ?_⟩
  · have hport : Holds quayProgram ⟨0, quay, false⟩ ⟨1, port, false⟩ :=
      ⟨_, List.mem_singleton.2 rfl, rfl⟩
    obtain ⟨ship, hship⟩ : ∃ b, (collect quayProgram {} ⟨1, port, false⟩).resolve quayProgram {}
        ⟨Sketch.type "Ship", none⟩ false = .ok (some b) := ⟨_, rfl⟩
    obtain ⟨b, hb⟩ := h _ (.single hport) _ _ hship
    obtain ⟨e, he⟩ : ∃ e, (collect quayProgram {} ⟨0, quay, false⟩).resolve quayProgram {}
        ⟨Sketch.type "Ship", none⟩ false = .error e := ⟨_, rfl⟩
    rw [he] at hb
    cases hb
  · have hstable : Holds yardProgram ⟨0, yard, false⟩ ⟨1, stable, false⟩ :=
      ⟨_, List.mem_singleton.2 rfl, rfl⟩
    obtain ⟨horse, hhorse⟩ : ∃ b, (collect yardProgram {} ⟨1, stable, false⟩).resolve yardProgram {}
        ⟨Sketch.type "Horse", none⟩ false = .ok (some b) := ⟨_, rfl⟩
    obtain ⟨b, hb⟩ := h _ (.single hstable) _ _ hhorse
    have hnone : (collect yardProgram {} ⟨0, yard, false⟩).resolve yardProgram {}
        ⟨Sketch.type "Horse", none⟩ false = .ok none := rfl
    rw [hnone] at hb
    cases hb

end Component

end Wiring
