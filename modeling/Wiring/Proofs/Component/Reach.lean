import Wiring.Proofs.Catalogue.Paths
import Wiring.Proofs.Component.Inclusion

/-!
# Scopes in reach

An injectable class with a scope is constructed exactly when a component in reach has the scope.
What is in reach is told without the walk: component parameters are followed from class to class,
however the parents are shared and whatever rings they form. Another class that has the qualified
name of the component is taken for the component, so its scope counts and nothing is followed from
there.
-/

namespace Wiring

open Annotation renaming component → componentMark
open Collect

namespace Collect

variable {m : Model} {o : Options} {c d e : Classifier}

/-- A component parameter is followed from one class to another. From another class that has the
qualified name of `c` none is followed. -/
def Follows (m : Model) (c d e : Classifier) : Prop := Holds m d e ∧ (d.path = c.path → d = c)

/-- Component parameters lead from a component to a class. -/
def InReach (m : Model) (c : Classifier) : Classifier → Prop :=
  Relation.ReflTransGen (Follows m c) c

/-- A class in reach is reached apart, or is held by a class that is. -/
theorem InReach.exists_holder (h : InReach m c d) :
    ∃ e, Relation.ReflTransGen (HoldsApart m c) c e ∧ (e = d ∨ Holds m e d) := by
  induction h with
  | refl => exact ⟨c, .refl, .inl rfl⟩
  | @tail d e _ hstep ih =>
    obtain ⟨hholds, hapart⟩ := hstep
    obtain ⟨b, hb, rfl | hd⟩ := ih
    · exact ⟨b, hb, .inr hholds⟩
    · exact ⟨d, .tail hb ⟨hd, hapart⟩, .inr hholds⟩

/-- A class that is entered on the walk and has the name of the component is the component. -/
theorem eq_of_mem_entered {a : Arrival} (ha : a ∈ Walk.entered (Arrival.walk m c))
    (hd : a.component = some d) (hpath : d.path = c.path) : d = c := by
  obtain ⟨rest, hlevels⟩ := exists_levels_eq_cons m {} c
  have hfirst : levelAt m {} none c ∈ levels m {} c := by
    rw [hlevels]
    exact List.mem_cons_self ..
  have hlevel : levelAt m {} a.accessor d ∈ levels m {} c :=
    mem_levels_iff.2 ⟨a, Walk.mem_entered.1 ha, hd, rfl⟩
  exact congrArg Level.component
    (List.inj_on_of_nodup_map (nodup_levels m {} c) hlevel hfirst hpath)

/-- The classes that are met on the walk from a component are those in reach. -/
theorem inReach_iff_met :
    InReach m c d ↔ ∃ n ∈ Arrival.walk m c, n.1.component = some d := by
  have hruns := Arrival.walk_runs m c
  constructor
  · intro h
    obtain ⟨e, he, hd⟩ := h.exists_holder
    obtain ⟨l, hl, rfl⟩ := exists_level_of_reaches (o := {}) he
    obtain ⟨a, ha, hcomponent, _⟩ := mem_levels_iff.1 hl
    rcases hd with rfl | ⟨q, hq, hclass⟩
    · exact ⟨_, ha, hcomponent⟩
    · have hnext : (⟨some q, a.accessor.isNone, some d, some (Arrival.extend a.accessor q.name)⟩ :
          Arrival) ∈ Arrival.onward m a :=
        Arrival.mem_onward_iff.2 ⟨_, hcomponent, q, hq, by rw [hclass]⟩
      obtain ⟨isNew, hmet⟩ := hruns.met_iff.2 (.inr ⟨a, Walk.mem_entered.2 ha, hnext⟩)
      exact ⟨_, hmet, rfl⟩
  · rintro ⟨⟨a, isNew⟩, hn, hd⟩
    -- Whatever is entered is in reach, and passes this on.
    have hpass : ∀ b ∈ Walk.entered (Arrival.walk m c),
        (∀ d, b.component = some d → InReach m c d) →
        ∀ a ∈ Arrival.onward m b, ∀ d, a.component = some d → InReach m c d := by
      intro b hb hreach a ha d hd
      obtain ⟨e, he, q, hq, rfl⟩ := Arrival.mem_onward_iff.1 ha
      exact .tail (hreach e he) ⟨⟨q, hq, hd⟩, eq_of_mem_entered hb he⟩
    have hstart : ∀ a ∈ [Arrival.start c], ∀ d, a.component = some d → InReach m c d := by
      intro a ha d hd
      rw [List.mem_singleton.1 ha] at hd
      cases hd
      exact .refl
    have hentered := hruns.forall_mem_entered hstart hpass
    rcases hruns.met_iff.1 ⟨isNew, hn⟩ with hmem | ⟨b, hb, hnext⟩
    · exact hstart a hmem d hd
    · exact hpass b hb (hentered b hb) a hnext d hd

/-- Where the name of the component is its own, all that parameters lead to is in reach. -/
theorem inReach_iff_of_classNamed (h : m.classNamed c.path = some c) :
    InReach m c d ↔ Relation.ReflTransGen (Holds m) c d := by
  constructor
  · exact fun hreach => hreach.lift id fun _ _ hstep => hstep.1
  · intro hreach
    have hself : ∀ d, Relation.ReflTransGen (Holds m) c d → d.path = c.path → d = c := by
      intro d hd hpath
      rcases Relation.ReflTransGen.cases_tail hd with rfl | ⟨e, _, q, _, hclass⟩
      · rfl
      · have hnamed := Model.classNamed_path hclass
        rw [hpath, h] at hnamed
        exact (Option.some.inj hnamed).symm
    induction hreach with
    | refl => exact .refl
    | tail hd hstep ih => exact .tail ih ⟨hstep, hself _ hd⟩

/-- An owner that is recorded leads to the class in reach that it is recorded for. -/
theorem inReach_of_mem_scopeOwners {owner : ScopeOwner} (h : owner ∈ scopeOwners m o c) :
    ∃ d, InReach m c d ∧ Reached m c owner.accessor d ∧
      FirstScoped m o d owner.component owner.scope := by
  obtain ⟨n, hn, d, hd, haccessor, hfirst⟩ := exists_mem_walk_of_mem_scopeOwners h
  refine ⟨d, inReach_iff_met.2 ⟨n, hn, hd⟩, ?_, hfirst⟩
  rw [haccessor]
  exact reached_of_mem_walk hn hd

/-- A scope is owned on the walk exactly when it is the first one of a class in reach. -/
theorem exists_owner_iff {scope : TypeExpr} :
    (∃ owner ∈ scopeOwners m o c, owner.scope = scope) ↔
      ∃ d a, InReach m c d ∧ FirstScoped m o d a scope := by
  constructor
  · rintro ⟨owner, howner, rfl⟩
    obtain ⟨d, hreach, _, hfirst⟩ := inReach_of_mem_scopeOwners howner
    exact ⟨d, _, hreach, hfirst⟩
  · rintro ⟨d, a, hreach, hfirst⟩
    obtain ⟨n, hn, hd⟩ := inReach_iff_met.1 hreach
    refine ⟨⟨a, n.1.accessor, scope⟩, List.mem_filterMap.2 ⟨n, hn, ?_⟩, rfl⟩
    rw [hd, Option.bind_some, ownerOf, found_findScope_iff.2 hfirst]
    rfl

end Collect

namespace Catalogue

variable {m : Model} {o : Options} {c : Classifier} {key : Key} {k : Constructor}
  {scope : TypeExpr}

/-- A key without qualifier that has no binding and no collection asks for an injectable class with
a scope. -/
structure AsksScoped (m : Model) (o : Options) (c : Classifier) (key : Key) (k : Constructor)
    (scope : TypeExpr) : Prop where
  unqualified : key.qualifier = none
  unbound : (collect m o c).bindings.lookup key = none
  uncollected : (collect m o c).containers.lookup key = none
  injectable : ∃ cls, m.classOf key.type = some cls ∧ Role.isInjectClass m o cls = true ∧
    cls.constructor? m = some k ∧ Role.scope? o (cls.annotations m) = some scope

/-- The scope alone decides whether the class is found. -/
theorem AsksScoped.resolve_eq (h : AsksScoped m o c key k scope) (skipOwn : Bool) :
    (collect m o c).resolve m o key skipOwn
      = match (collect m o c).ownerOf? scope with
        | some owner => .ok (some (.constructor k (some owner)))
        | none => .error ⟨key.type, scope⟩ := by
  obtain ⟨cls, hcls, hi, hk, hs⟩ := h.injectable
  rw [resolve]
  simp only [h.unbound, h.uncollected, h.unqualified, constructorBinding, hcls, hi, if_true, hk, hs]
  cases (collect m o c).ownerOf? scope <;> rfl

/-- Owners that are found are owners in reach. -/
theorem ownerOf?_collect_isSome :
    ((collect m o c).ownerOf? scope).isSome = true ↔
      ∃ owner ∈ scopeOwners m o c, owner.scope = scope := by
  rw [ownerOf?, owners_collect, List.find?_isSome]
  simp only [beq_iff_eq]

/-- A key is resolved to a constructor with an owner of its scope when a class that is reached has
the scope, and for want of an owner planning fails. -/
structure ScopedBy (m : Model) (o : Options) (c : Classifier) (reached : Classifier → Prop)
    (key : Key) (k : Constructor) (scope : TypeExpr) : Prop where
  found : ∀ skipOwn,
    (∃ owner, owner.scope = scope ∧
        (collect m o c).resolve m o key skipOwn = .ok (some (.constructor k (some owner)))) ↔
      ∃ d a, reached d ∧ FirstScoped m o d a scope
  missing : (¬ ∃ d a, reached d ∧ FirstScoped m o d a scope) → ∀ skipOwn,
    (collect m o c).resolve m o key skipOwn = .error ⟨key.type, scope⟩
  fails : (¬ ∃ d a, reached d ∧ FirstScoped m o d a scope) → ∀ context : Context,
    (Component.resolver m o c).provide key context
      = .error (.unresolvableScope key.type scope context.path.trace context.source)

/-- A class with a scope is found when the scope is in reach, and is cached where it is. -/
structure ScopedInReach (m : Model) (o : Options) (c : Classifier) (key : Key) (k : Constructor)
    (scope : TypeExpr) : Prop extends ScopedBy m o c (InReach m c) key k scope where
  /-- The owner is the first class with a scope in the chain of a class in reach, and has the
  accessor that leads there. -/
  origin : ∀ skipOwn owner,
    (collect m o c).resolve m o key skipOwn = .ok (some (.constructor k (some owner))) →
    ∃ d, InReach m c d ∧ Reached m c owner.accessor d ∧
      FirstScoped m o d owner.component owner.scope
  /-- No way is blocked for a component whose name is its own. -/
  plain : m.classNamed c.path = some c →
    ∀ d, InReach m c d ↔ Relation.ReflTransGen (Holds m) c d

/-- Without an owner nothing is planned for the key. -/
theorem provide_of_missing {missing : MissingScope}
    (h : ∀ skipOwn, (collect m o c).resolve m o key skipOwn = .error missing) (context : Context) :
    (Component.resolver m o c).provide key context
      = .error
        (.unresolvableScope missing.type missing.scope context.path.trace context.source) := by
  have hcandidate : (Component.resolver m o c).candidate key context none
      = .error (.unresolvableScope missing.type missing.scope context.path.trace context.source) :=
    Resolver.candidate_of_missing rfl (h (context.skipProvider == some key.type))
  rw [Resolver.provide, Resolver.depthBound, Resolver.provideWithin, Resolver.step, hcandidate]
  rfl

/-- Scopes are found in shared parents and in rings of parents alike, in all programs. -/
theorem scopedInReach (h : AsksScoped m o c key k scope) : ScopedInReach m o c key k scope := by
  have howned : ((collect m o c).ownerOf? scope).isSome = true ↔
      ∃ d a, InReach m c d ∧ FirstScoped m o d a scope :=
    ownerOf?_collect_isSome.trans exists_owner_iff
  have hmissing : (¬ ∃ d a, InReach m c d ∧ FirstScoped m o d a scope) → ∀ skipOwn,
      (collect m o c).resolve m o key skipOwn = .error ⟨key.type, scope⟩ := by
    intro hnone skipOwn
    rw [← howned, Option.not_isSome_iff_eq_none] at hnone
    rw [h.resolve_eq, hnone]
  have hresolved : ∀ {skipOwn owner},
      (collect m o c).resolve m o key skipOwn = .ok (some (.constructor k (some owner))) →
      (collect m o c).ownerOf? scope = some owner := by
    intro skipOwn owner hresolve
    rw [h.resolve_eq] at hresolve
    cases howner : (collect m o c).ownerOf? scope with
    | none =>
      rw [howner] at hresolve
      cases hresolve
    | some owner' =>
      rw [howner] at hresolve
      cases hresolve
      rfl
  exact {
    found := fun skipOwn => by
      rw [← howned, Option.isSome_iff_exists]
      constructor
      · rintro ⟨owner, _, hresolve⟩
        exact ⟨owner, hresolved hresolve⟩
      · rintro ⟨owner, howner⟩
        refine ⟨owner, by simpa using List.find?_some howner, ?_⟩
        rw [h.resolve_eq, howner]
    missing := hmissing
    fails := fun hnone context => provide_of_missing (hmissing hnone) context
    origin := fun skipOwn owner hresolve => by
      have howner := List.mem_of_find?_eq_some (hresolved hresolve)
      rw [owners_collect] at howner
      exact inReach_of_mem_scopeOwners howner
    plain := fun hnamed d => inReach_iff_of_classNamed hnamed }

/-- A harbour with two piers, which stand on one shore. -/
def harbour : ClassDecl :=
  Sketch.component "Harbour" []
    [Sketch.param "north" (Sketch.type "North") [componentMark],
      Sketch.param "south" (Sketch.type "South") [componentMark]]
    [Sketch.requirement "ferry" (Sketch.type "Ferry") []]

/-- A pier of the harbour. -/
def pier (name : String) : ClassDecl :=
  Sketch.component name [] [Sketch.param "shore" (Sketch.type "Shore") [componentMark]] []

/-- A ferry that runs once for all. -/
def ferry : ClassDecl := Sketch.injectable "Ferry" ["app.Single"] []

/-- The program of the harbour, where the shore has the scope and leads back to the harbour. -/
def harbourProgram : Model :=
  Sketch.program [harbour, pier "North", pier "South",
    Sketch.component "Shore" ["app.Single"]
      [Sketch.param "harbour" (Sketch.type "Harbour") [componentMark]] [],
    ferry]

/-- The scope of the shore is in reach through the first pier. -/
theorem scopedInReach_harbour : ∃ k,
    AsksScoped harbourProgram {} ⟨0, harbour, false⟩ ⟨Sketch.type "Ferry", none⟩ k
        (Sketch.type "Single") ∧
      ScopedInReach harbourProgram {} ⟨0, harbour, false⟩ ⟨Sketch.type "Ferry", none⟩ k
        (Sketch.type "Single") ∧
      ∃ owner, owner.accessor = some "north.shore" ∧
        (collect harbourProgram {} ⟨0, harbour, false⟩).resolve harbourProgram {}
          ⟨Sketch.type "Ferry", none⟩ false = .ok (some (.constructor k (some owner))) := by
  obtain ⟨k, hk⟩ : ∃ k, (⟨4, ferry, false⟩ : Classifier).constructor? harbourProgram = some k :=
    ⟨_, rfl⟩
  have hasks : AsksScoped harbourProgram {} ⟨0, harbour, false⟩ ⟨Sketch.type "Ferry", none⟩ k
      (Sketch.type "Single") := ⟨rfl, rfl, rfl, ⟨4, ferry, false⟩, rfl, rfl, hk, rfl⟩
  refine ⟨k, hasks, scopedInReach hasks, ?_⟩
  cases hk
  exact ⟨_, rfl, rfl⟩

/-- Whatever the parents are, a scope is found when component parameters lead to it. -/
def FindsScopes (m : Model) (o : Options) (c : Classifier) : Prop :=
  ∀ key k scope, AsksScoped m o c key k scope →
    ScopedBy m o c (Relation.ReflTransGen (Holds m) c) key k scope

/-- A court that is entered through a lane. -/
def court : ClassDecl :=
  Sketch.component "Court" [] [Sketch.param "lane" (Sketch.type "Lane") [componentMark]]
    [Sketch.requirement "coach" (Sketch.type "Coach") []]

/-- The lane, which leads to another court of the same name. -/
def lane : ClassDecl :=
  Sketch.component "Lane" [] [Sketch.param "court" (Sketch.type "Court") [componentMark]] []

/-- The court at the end of the lane, with a barn. -/
def backCourt : ClassDecl :=
  Sketch.injectable "Court" [] [Sketch.param "barn" (Sketch.type "Barn") [componentMark]]

/-- The barn, which has the scope. -/
def barn : ClassDecl := Sketch.component "Barn" ["app.Single"] [] []

/-- A coach that is kept in the barn. -/
def coach : ClassDecl := Sketch.injectable "Coach" ["app.Single"] []

/-- The program of the two courts. -/
def courtProgram : Model := Sketch.program [court, lane, backCourt, barn, coach]

/-- The court behind is taken for the one in front, so the barn is not found. -/
theorem not_findsScopes_court : ⟨0, court, false⟩ ∈ courtProgram.classifiers ∧
    ¬ FindsScopes courtProgram {} ⟨0, court, false⟩ := by
  refine ⟨Model.mem_classifiers.2 ⟨rfl, rfl⟩, fun h => ?_⟩
  obtain ⟨k, hk⟩ : ∃ k, (⟨4, coach, false⟩ : Classifier).constructor? courtProgram = some k :=
    ⟨_, rfl⟩
  have hlane : Holds courtProgram ⟨0, court, false⟩ ⟨1, lane, false⟩ :=
    ⟨_, List.mem_singleton.2 rfl, rfl⟩
  have hcourt : Holds courtProgram ⟨1, lane, false⟩ ⟨2, backCourt, false⟩ :=
    ⟨_, List.mem_singleton.2 rfl, rfl⟩
  have hbarn : Holds courtProgram ⟨2, backCourt, false⟩ ⟨3, barn, false⟩ :=
    ⟨_, List.mem_singleton.2 rfl, rfl⟩
  have hfirst : FirstScoped courtProgram {} ⟨3, barn, false⟩ ⟨3, barn, false⟩
      (Sketch.type "Single") := ⟨[], [], rfl, rfl, fun b hb => absurd hb List.not_mem_nil⟩
  have hscoped := h ⟨Sketch.type "Coach", none⟩ k (Sketch.type "Single")
    ⟨rfl, rfl, rfl, ⟨4, coach, false⟩, rfl, rfl, hk, rfl⟩
  obtain ⟨owner, _, hresolve⟩ := (hscoped.found false).2
    ⟨_, _, .tail (.tail (.single hlane) hcourt) hbarn, hfirst⟩
  have hmissing : (collect courtProgram {} ⟨0, court, false⟩).resolve courtProgram {}
      ⟨Sketch.type "Coach", none⟩ false
        = .error ⟨Sketch.type "Coach", Sketch.type "Single"⟩ := rfl
  rw [hmissing] at hresolve
  cases hresolve

end Catalogue

end Wiring
