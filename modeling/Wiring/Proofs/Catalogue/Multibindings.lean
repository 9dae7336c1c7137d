import Mathlib.Data.List.Infix
import Wiring.Proofs.Catalogue.Places
import Wiring.Proofs.Descent
import Wiring.Proofs.Model.Ancestry
import Wiring.Proofs.Sketch

/-!
# Collections with many contributors

A set and a map are put together from members of all components in reach. Here it is said from the
declarations which members these are. The components follow each other as in a descent through
component parameters, the members of one component as in its chain, less those that an earlier one
overrides. A collection has every member with its key, once and in this order, and nothing else. An
entry of a map that has no place in one is reported.
-/

namespace Wiring

open Annotation (intoMap intoSet)
open Annotation renaming component → componentMark
open Collect

/-- The components that the parameters of a component hold, each where its parameter leads. -/
def Place.parents (m : Model) (p : Place) : List Place :=
  (Arrival.componentParams m p.component).filterMap fun q =>
    (m.classOf q.type).map fun d => ⟨d, some (Arrival.extend p.accessor q.name)⟩

/-- A chain of aliases ends in the name of a class. -/
theorem TypeExpr.exists_resolved_eq (t : TypeExpr) :
    ∃ package name arguments nullable, t.resolved = .declared package name arguments nullable := by
  induction t using resolved.induct with
  | case1 package name arguments nullable => exact ⟨package, name, arguments, nullable, rfl⟩
  | case2 _ _ _ _ _ ih => exact ih

/-- The callables that nothing before them overrides. -/
def Callable.unoverridden (fs : List Callable) : List Callable :=
  (fs.inits.zip fs).filterMap fun (before, f) =>
    if before.any (·.overrides f) then none else some f

namespace Arrival

/-- The place of an arrival, when its parameter holds a component. -/
def place? (a : Arrival) : Option Place := a.component.map (⟨·, a.accessor⟩)

/-- A walk of arrivals goes on to the places of the parents. -/
theorem filterMap_onward (m : Model) (a : Arrival) :
    (onward m a).filterMap place? = a.place?.elim [] (Place.parents m) := by
  obtain ⟨via, fromStart, component, accessor⟩ := a
  cases component with
  | none => rfl
  | some d =>
    simp only [onward, List.filterMap_map]
    rfl

/-- A descent through arrivals goes through their places. -/
theorem descent_places {m : Model} {seen last : List (Option String)} {todo order : List Arrival}
    (h : Walk.Descent (fun a => a.component.map (·.path)) (onward m) seen todo order last) :
    Walk.Descent (fun p : Place => p.component.path) (Place.parents m) (seen.filterMap id)
      (todo.filterMap place?) (order.filterMap place?) (last.filterMap id) := by
  induction h with
  | done => exact .done
  | @again seen a todo order last hs _ ih =>
    obtain ⟨via, fromStart, component, accessor⟩ := a
    cases component with
    | none => exact ih
    | some d => exact .again (List.mem_filterMap.2 ⟨_, hs, rfl⟩) ih
  | @enter seen a todo below between order last hs hb _ ihb ihr =>
    obtain ⟨via, fromStart, component, accessor⟩ := a
    rw [filterMap_onward] at ihb
    cases component with
    | none =>
      -- Nothing is held by a parameter that names no class.
      obtain ⟨rfl, rfl⟩ := hb.unique .done
      exact ihr
    | some d =>
      have hcons : ∀ as, List.filterMap place? (⟨via, fromStart, some d, accessor⟩ :: as)
          = ⟨d, accessor⟩ :: as.filterMap place? := fun _ => rfl
      rw [hcons, hcons, List.filterMap_append]
      refine .enter (fun hmem => hs ?_) ihb ihr
      obtain ⟨path, hpath, he⟩ := List.mem_filterMap.1 hmem
      obtain rfl : path = some d.path := he
      exact hpath

end Arrival

namespace Collect

variable {m : Model} {o : Options} {c : Classifier} {n : Level × Callable} {t k v : TypeExpr}
  {qualifier : Option TypeExpr}

/-- The levels are the components that a descent enters. -/
theorem descent_levels (m : Model) (o : Options) (c : Classifier) :
    ∃ last, Walk.Descent (fun p : Place => p.component.path) (Place.parents m) [] [⟨c, none⟩]
      ((levels m o c).map Level.place) last := by
  obtain ⟨last, hwalk⟩ := (Arrival.walk_runs m c).descent
  have hplaces : (levels m o c).map Level.place
      = (Walk.entered (Arrival.walk m c)).filterMap Arrival.place? := by
    rw [levels_eq, List.map_filterMap]
    refine List.filterMap_congr fun a _ => ?_
    rw [Arrival.place?, Option.map_map]
    rfl
  rw [hplaces]
  exact ⟨_, Arrival.descent_places hwalk⟩

/-- The places of the levels are the one outcome of a descent. -/
theorem eq_places_iff (places : List Place) : places = (levels m o c).map Level.place ↔
    ∃ last, Walk.Descent (fun p : Place => p.component.path) (Place.parents m) [] [⟨c, none⟩]
      places last := by
  obtain ⟨last, hlevels⟩ := descent_levels m o c
  constructor
  · rintro rfl
    exact ⟨last, hlevels⟩
  · rintro ⟨last', hplaces⟩
    exact (hplaces.unique hlevels).1

/-- Callables are dropped exactly when something before them overrides them. What is dropped
overrides nothing else than what was kept. -/
theorem dropOverridden_eq_filterMap : ∀ fs earlier before : List Callable,
    (∀ f : Callable, before.any (·.overrides f) = earlier.any (·.overrides f)) →
    Classifier.dropOverridden earlier fs
      = ((fs.inits.map (before ++ ·)).zip fs).filterMap fun (before, f) =>
          if before.any (·.overrides f) then none else some f := by
  intro fs
  induction fs with
  | nil =>
    intro _ _ _
    rfl
  | cons f fs ih =>
    intro earlier before hsame
    have hnext : ((f :: fs).inits.map (before ++ ·)).zip (f :: fs)
        = (before, f) :: (fs.inits.map ((before ++ [f]) ++ ·)).zip fs := by
      simp only [List.inits_cons, List.map_cons, List.append_nil, List.map_map, List.zip_cons_cons,
        Function.comp_def, List.append_assoc, List.singleton_append]
    rw [hnext, List.filterMap_cons, Classifier.dropOverridden]
    dsimp only
    rw [hsame f]
    by_cases hf : earlier.any (·.overrides f) = true
    · rw [if_pos hf, if_pos hf]
      refine ih earlier (before ++ [f]) fun g => ?_
      rw [List.any_append, hsame g, List.any_cons, List.any_nil, Bool.or_false]
      cases hfg : f.overrides g with
      | false => rw [Bool.or_false]
      | true =>
        obtain ⟨y, hy, hyf⟩ := List.any_eq_true.1 hf
        have hany : earlier.any (·.overrides g) = true :=
          List.any_eq_true.2 ⟨y, hy, Callable.overrides_trans hyf hfg⟩
        rw [hany, Bool.or_true]
    · rw [if_neg hf, if_neg hf]
      dsimp only
      rw [ih (earlier ++ [f]) (before ++ [f])]
      intro g
      rw [List.any_append, List.any_append, hsame g]

/-- What is kept of the members of a class is what nothing before it overrides. -/
theorem allMembers_eq (m : Model) (d : Classifier) :
    d.allMembers m = Callable.unoverridden ((d.chain m).flatMap (Classifier.members m)) := by
  rw [Classifier.allMembers, dropOverridden_eq_filterMap _ [] [] fun _ => rfl]
  simp only [List.nil_append, List.map_id']
  rfl

/-- The members of all levels that count, each with its level, in the order of collection. -/
def gathered (m : Model) (o : Options) (c : Classifier) : List (Level × Callable) :=
  (levels m o c).flatMap fun l =>
    (Callable.unoverridden ((l.component.chain m).flatMap (Classifier.members m))).map (l, ·)

/-- A member of a level provides an element of the sets of `t`. -/
structure IntoSet (m : Model) (o : Options) (t : TypeExpr) (qualifier : Option TypeExpr)
    (n : Level × Callable) : Prop where
  provides : Role.isProvides n.2 = true
  into : Role.isIntoSet n.2 = true
  visible : n.2.isPrivate = false
  returns : n.2.returnsFor m n.1.component = t
  value : t.isUnit = false
  qualified : Role.qualifier? o n.2.annotations = qualifier

/-- A member of a level provides an entry of the maps from `k` to `v`. -/
structure IntoMap (m : Model) (o : Options) (k v : TypeExpr) (qualifier : Option TypeExpr)
    (n : Level × Callable) : Prop where
  provides : Role.isProvides n.2 = true
  into : Role.isIntoMap n.2 = true
  no_element : Role.isIntoSet n.2 = false
  visible : n.2.isPrivate = false
  returns : ∃ nullable, (n.2.returnsFor m n.1.component).resolved
    = .declared TypeExpr.Known.pair.package TypeExpr.Known.pair.name [k, v] nullable
  qualified : Role.qualifier? o n.2.annotations = qualifier

/-- A member contributes to a collection exactly if it provides a value that can be read, and is
marked as an element of a set, or is not, is marked as entries of a map, and gives a pair of a key
and a value. -/
theorem contributes_eq_some_iff {b : Builder} {key : Key} :
    contributes m o n.1 n.2 = some (b, key) ↔
      (Role.isProvides n.2 = true ∧ n.2.isPrivate = false ∧
        (n.2.returnsFor m n.1.component).isUnit = false) ∧
      ((Role.isIntoSet n.2 = true ∧ b = .setOf ∧
          key = ⟨.known .set [n.2.returnsFor m n.1.component], Role.qualifier? o n.2.annotations⟩) ∨
        Role.isIntoSet n.2 = false ∧ Role.isIntoMap n.2 = true ∧ b = .mapOf ∧
          ∃ arguments, pairArguments? (n.2.returnsFor m n.1.component) = some arguments ∧
            key = ⟨.known .map arguments, Role.qualifier? o n.2.annotations⟩) := by
  rw [contributes, Option.ite_none_right_eq_some]
  refine and_congr ?_ ?_
  · simp only [Bool.and_eq_true, Bool.not_eq_true', and_assoc]
  · cases hset : Role.isIntoSet n.2 with
    | true =>
      simp only [if_true, Option.some.injEq, Prod.mk.injEq, true_and, reduceCtorEq, false_and,
        or_false, eq_comm]
    | false =>
      simp only [Bool.false_eq_true, if_false, Option.ite_none_right_eq_some,
        Option.map_eq_some_iff, Prod.mk.injEq, false_and, false_or, true_and]
      refine and_congr_right fun _ => ?_
      constructor
      · rintro ⟨arguments, harguments, rfl, rfl⟩
        exact ⟨rfl, arguments, harguments, rfl⟩
      · rintro ⟨rfl, arguments, harguments, rfl⟩
        exact ⟨arguments, harguments, rfl, rfl⟩

/-- A pair type, seen through aliases, is the class of pairs applied to two types. -/
theorem pairArguments?_eq_some_iff : pairArguments? t = some [k, v] ↔ ∃ nullable, t.resolved
    = .declared TypeExpr.Known.pair.package TypeExpr.Known.pair.name [k, v] nullable := by
  obtain ⟨p, name, as, q, hresolved⟩ := t.exists_resolved_eq
  simp only [pairArguments?, TypeExpr.isKnown, hresolved, TypeExpr.package, TypeExpr.name,
    TypeExpr.arguments, Option.ite_none_right_eq_some, Bool.and_eq_true, beq_iff_eq,
    Option.some.injEq, TypeExpr.declared.injEq]
  constructor
  · rintro ⟨⟨⟨rfl, rfl⟩, _⟩, rfl⟩
    exact ⟨q, rfl, rfl, rfl, rfl⟩
  · rintro ⟨nullable, rfl, rfl, rfl, _⟩
    exact ⟨⟨⟨rfl, rfl⟩, rfl⟩, rfl⟩

/-- The elements of a set are its contributors. -/
theorem intoSet_iff : IntoSet m o t qualifier n ↔
    contributes m o n.1 n.2 = some (.setOf, ⟨.known .set [t], qualifier⟩) := by
  rw [contributes_eq_some_iff]
  constructor
  · rintro ⟨hprovides, hinto, hvisible, rfl, hvalue, rfl⟩
    exact ⟨⟨hprovides, hvisible, hvalue⟩, .inl ⟨hinto, rfl, rfl⟩⟩
  · rintro ⟨⟨hprovides, hvisible, hvalue⟩, ⟨hinto, _, hkey⟩ | ⟨_, _, hbuilder, _⟩⟩
    · obtain ⟨htype, rfl⟩ := Key.mk.inj hkey
      cases htype
      exact ⟨hprovides, hinto, hvisible, rfl, hvalue, rfl⟩
    · cases hbuilder

/-- The entries of a map are its contributors. -/
theorem intoMap_iff : IntoMap m o k v qualifier n ↔
    contributes m o n.1 n.2 = some (.mapOf, ⟨.known .map [k, v], qualifier⟩) := by
  rw [contributes_eq_some_iff]
  constructor
  · rintro ⟨hprovides, hinto, hno, hvisible, ⟨nullable, hreturns⟩, rfl⟩
    have hvalue : (n.2.returnsFor m n.1.component).isUnit = false := by
      rw [TypeExpr.isUnit, hreturns]
      rfl
    exact ⟨⟨hprovides, hvisible, hvalue⟩, .inr ⟨hno, hinto, rfl, [k, v],
      pairArguments?_eq_some_iff.2 ⟨nullable, hreturns⟩, rfl⟩⟩
  · rintro ⟨⟨hprovides, hvisible, _⟩, ⟨_, hbuilder, _⟩ | ⟨hno, hinto, _, as, has, hkey⟩⟩
    · cases hbuilder
    · obtain ⟨htype, rfl⟩ := Key.mk.inj hkey
      cases htype
      exact ⟨hprovides, hinto, hno, hvisible, pairArguments?_eq_some_iff.1 has, rfl⟩

instance : DecidablePred (IntoSet m o t qualifier) := fun _ => decidable_of_iff _ intoSet_iff.symm

instance : DecidablePred (IntoMap m o k v qualifier) := fun _ => decidable_of_iff _ intoMap_iff.symm

/-- The members that are gathered are those of the levels. -/
theorem mem_gathered_iff : n ∈ gathered m o c ↔
    n.1 ∈ levels m o c ∧ n.2 ∈ n.1.component.allMembers m := by
  obtain ⟨l, f⟩ := n
  simp only [gathered, ← allMembers_eq, List.mem_flatMap, List.mem_map, Prod.mk.injEq]
  constructor
  · rintro ⟨_, hl, _, hf, rfl, rfl⟩
    exact ⟨hl, hf⟩
  · rintro ⟨hl, hf⟩
    exact ⟨l, hl, f, hf, rfl, rfl⟩

/-- No member of a level is gathered twice. -/
theorem nodup_gathered (m : Model) (o : Options) (c : Classifier) : (gathered m o c).Nodup := by
  simp only [gathered, ← allMembers_eq]
  exact nodup_flatMap_levels fun l _ => l.component.nodup_allMembers m

/-- The contributors to a collection are gathered members. -/
theorem contributors_eq (b : Builder) (key : Key) : contributors m o c b key
    = (gathered m o c).filter fun n => contributes m o n.1 n.2 = some (b, key) := by
  simp only [contributors, gathered, ← allMembers_eq, List.filter_flatMap, List.filter_map,
    Function.comp_def]

/-- Whether the scope on a member of a level is the scope that the level owns. -/
def keepsScope (o : Options) (n : Level × Callable) : Bool :=
  n.1.scope.any fun owner => Role.scope? o n.2.annotations = some owner.scope

/-- The owner that keeps a member is the owner of its level, if it is kept at all. -/
theorem memberScope_eq (o : Options) (n : Level × Callable) :
    memberScope o n.1 n.2 = if keepsScope o n then n.1.scope else none := by
  rw [memberScope, keepsScope]
  cases n.1.scope with
  | none => cases Role.scope? o n.2.annotations <;> rfl
  | some owner =>
    cases Role.scope? o n.2.annotations with
    | none => rfl
    | some scope =>
      simp only [Option.any_some, decide_eq_true_eq, Option.some.injEq]
      by_cases hscope : owner.scope = scope
      · rw [if_pos hscope, if_pos hscope.symm]
      · rw [if_neg hscope, if_neg fun h => hscope h.symm]

/-- The first scope among members is that of the first member whose scope its level owns. -/
theorem findSome?_memberScope (o : Options) (found : List (Level × Callable)) :
    (found.findSome? fun n => memberScope o n.1 n.2)
      = (found.find? (keepsScope o)).bind (·.1.scope) := by
  induction found with
  | nil => rfl
  | cons n found ih =>
    rw [List.findSome?_cons, List.find?_cons, memberScope_eq]
    cases hn : keepsScope o n with
    | false => exact ih
    | true =>
      cases hscope : n.1.scope with
      | none =>
        rw [keepsScope, hscope] at hn
        cases hn
      | some owner =>
        rw [Option.bind_some, hscope]
        rfl

/-- The class that the function makes a collection of. -/
def collectionClass : Builder → TypeExpr.Known
  | .setOf => .set
  | .mapOf => .map

/-- Sets and maps have classes of different names. -/
theorem eq_of_name_collectionClass {b b' : Builder}
    (h : (collectionClass b).name = (collectionClass b').name) : b = b' := by
  cases b <;> cases b' <;> first | rfl | exact absurd h (by decide)

/-- Only members of the kind of a collection contribute to it. -/
theorem builder_eq_of_contributes {b b' : Builder} {as : List TypeExpr}
    (h : contributes m o n.1 n.2 = some (b', ⟨.known (collectionClass b) as, qualifier⟩)) :
    b' = b := by
  obtain ⟨_, ⟨_, rfl, hkey⟩ | ⟨_, _, rfl, _, _, hkey⟩⟩ := contributes_eq_some_iff.1 h
  · exact eq_of_name_collectionClass (congrArg (fun key : Key => key.type.name) hkey.symm)
  · exact eq_of_name_collectionClass (congrArg (fun key : Key => key.type.name) hkey.symm)

/-- The collection of members: none without any, else all of them in order, none with a scope of its
own, under the scope of the first of them whose scope its level owns. -/
def collectionOf (b : Builder) (o : Options) (found : List (Level × Callable)) : Option Container :=
  if found = [] then none
  else some {
    builder := b
    parts := found.map fun n => ⟨n.2, n.1.accessor, none⟩
    scope := (found.find? (keepsScope o)).bind (·.1.scope) }

/-- The container of the members that were found is the collection of them. -/
theorem ofParts_eq_collectionOf (b : Builder) (found : List (Level × Callable)) :
    Container.ofParts (found.map fun n => (b, ⟨n.2, n.1.accessor, memberScope o n.1 n.2⟩))
      = collectionOf b o found := by
  rw [collectionOf, ← findSome?_memberScope]
  cases found with
  | nil => rfl
  | cons n found =>
    simp only [if_neg (List.cons_ne_nil n found), Container.ofParts, List.map_cons, List.map_map,
      List.findSome?_cons, List.findSome?_map]
    rfl

/-- The collection of a key is that of its contributors. -/
theorem lookup_containers_collect (b : Builder) (as : List TypeExpr) :
    (Catalogue.collect m o c).containers.lookup ⟨.known (collectionClass b) as, qualifier⟩
      = collectionOf b o (contributors m o c b ⟨.known (collectionClass b) as, qualifier⟩) := by
  rw [(Catalogue.describes_collect m o c).containers,
    Catalogue.filterMap_part_findings fun l f _ => builder_eq_of_contributes (n := (l, f)),
    ofParts_eq_collectionOf]

/-- A member for a map that is no entry of one is found to be a problem. -/
theorem exists_problem_of_not_intoMap (hprovides : Role.isProvides n.2 = true)
    (hinto : Role.isIntoMap n.2 = true) (hno : Role.isIntoSet n.2 = false)
    (h : ∀ k v qualifier, ¬ IntoMap m o k v qualifier n) :
    ∃ message, .problem (.errorAt Code.invalidProvides message n.2.element)
      ∈ memberFindings m o n.1 n.2 := by
  rw [memberFindings, if_pos hprovides, providesFindings]
  cases hprivate : n.2.isPrivate with
  | true => exact ⟨_, List.mem_singleton.2 rfl⟩
  | false =>
    cases hunit : (n.2.returnsFor m n.1.component).isUnit with
    | true => exact ⟨_, List.mem_singleton.2 rfl⟩
    | false =>
      cases hpair : pairArguments? (n.2.returnsFor m n.1.component) with
      | none =>
        simp only [Bool.false_eq_true, if_false, contribution, hno, hinto, if_true, hpair]
        exact ⟨_, List.mem_append_right _ (List.mem_singleton.2 rfl)⟩
      | some as =>
        have htwo : as.length = 2 := by
          rw [pairArguments?] at hpair
          obtain ⟨⟨_, hlength⟩, has⟩ := Option.ite_none_right_eq_some.1 hpair
          rw [← Option.some.inj has, hlength]
        obtain ⟨k, v, rfl⟩ := List.length_eq_two.1 htwo
        exact absurd ⟨hprovides, hinto, hno, hprivate, pairArguments?_eq_some_iff.1 hpair, rfl⟩
          (h k v _)

end Collect

namespace Catalogue

variable {m : Model} {o : Options} {c : Classifier}

/-- The collections of a component hold every member for them once and in order, and what has no
place in them is reported. -/
structure Multibound (m : Model) (o : Options) (c : Classifier) : Prop where
  /-- The levels are what a descent through component parameters enters. -/
  descends : ∀ places, places = (levels m o c).map Level.place ↔
    ∃ last, Walk.Descent (fun p : Place => p.component.path) (Place.parents m) [] [⟨c, none⟩]
      places last
  owns : ∀ l ∈ levels m o c, l.scope = ownerOf l.accessor (Role.findScope m o l.component)
  once : ((levels m o c).map (·.component.path)).Nodup ∧ (gathered m o c).Nodup
  sets : ∀ t qualifier, (collect m o c).containers.lookup ⟨.known .set [t], qualifier⟩
    = collectionOf .setOf o ((gathered m o c).filter (IntoSet m o t qualifier))
  maps : ∀ k v qualifier, (collect m o c).containers.lookup ⟨.known .map [k, v], qualifier⟩
    = collectionOf .mapOf o ((gathered m o c).filter (IntoMap m o k v qualifier))
  reports : ∀ n ∈ gathered m o c, Role.isProvides n.2 = true → Role.isIntoMap n.2 = true →
    Role.isIntoSet n.2 = false → (∀ k v qualifier, ¬ IntoMap m o k v qualifier n) →
    ∃ message, .errorAt Code.invalidProvides message n.2.element ∈ (collect m o c).diagnostics

/-- Sets and maps are complete and hold nothing twice, in all programs. -/
theorem multibound (m : Model) (o : Options) (c : Classifier) : Multibound m o c where
  descends := eq_places_iff
  owns l hl := by rw [eq_levelAt_of_mem_levels hl, levelAt]
  once := ⟨nodup_levels m o c, nodup_gathered m o c⟩
  sets t qualifier := by
    refine (lookup_containers_collect .setOf [t]).trans (congrArg (collectionOf .setOf o) ?_)
    rw [contributors_eq]
    exact List.filter_congr fun n _ => decide_eq_decide.2 intoSet_iff.symm
  maps k v qualifier := by
    refine (lookup_containers_collect .mapOf [k, v]).trans (congrArg (collectionOf .mapOf o) ?_)
    rw [contributors_eq]
    exact List.filter_congr fun n _ => decide_eq_decide.2 intoMap_iff.symm
  reports n hn hprovides hinto hno h := by
    obtain ⟨hl, hf⟩ := mem_gathered_iff.1 hn
    obtain ⟨message, hproblem⟩ := exists_problem_of_not_intoMap hprovides hinto hno h
    refine ⟨message, mem_diagnostics_collect.2 (.inl ?_)⟩
    exact mem_findings_iff.2 (.inr (.inr ⟨n.1, hl, n.2, hf, hproblem⟩))

/-- A stand that sells bread and fish. -/
def stand : ClassDecl :=
  { package := "app", name := "Stand", isInterface := true
    members := [Sketch.provider "bread" [] (Sketch.type "Good") [intoSet],
      Sketch.provider "fish" [] (Sketch.type "Good") [intoSet]] }

/-- A feast with a stand and two gates, which bakes its own bread. -/
def feast : ClassDecl :=
  { Sketch.component "Feast" []
      [Sketch.param "north" (Sketch.type "North") [componentMark],
        Sketch.param "south" (Sketch.type "South") [componentMark]]
      [Sketch.provider "bread" [] (Sketch.type "Good") [intoSet],
        Sketch.provider "price" [] (Sketch.type "Good") [intoMap]] with
    superTypes := [Sketch.type "Stand"] }

/-- A gate to the town. -/
def gate (name : String) : ClassDecl :=
  Sketch.component name [] [Sketch.param "town" (Sketch.type "Town") [componentMark]] []

/-- The program of the feast, where the town has the feast. -/
def feastProgram : Model :=
  Sketch.program [feast, stand, gate "North", gate "South",
    Sketch.component "Town" ["app.Single"]
      [Sketch.param "feast" (Sketch.type "Feast") [componentMark]]
      [Sketch.provider "cloth" [] (Sketch.type "Good") [intoSet, "app.Single"],
        Sketch.provider "toll" [] (.known .pair [Sketch.type "Good", Sketch.type "Coin"])
          [intoMap]],
    Sketch.plain "Good", Sketch.plain "Coin"]

/-- The bread of the stand is overridden, the cloth of the town counts once and caches the set, and
a price without a coin is reported. -/
theorem multibound_feast :
    Multibound feastProgram {} ⟨0, feast, false⟩ ∧
    (collect feastProgram {} ⟨0, feast, false⟩).containers.map (fun e =>
        (e.1.displayText, e.2.parts.map fun p => (p.callable.name, p.accessor),
          e.2.scope.bind (·.accessor)))
      = [("Set<app.Good>", [("bread", none), ("fish", none), ("cloth", some "north.town")],
          some "north.town"),
        ("Map<app.Good, app.Coin>", [("toll", some "north.town")], none)] ∧
    (collect feastProgram {} ⟨0, feast, false⟩).diagnostics.map (·.message)
      = ["@IntoMap must have return type of type: Pair, found: app.Good"] :=
  ⟨multibound feastProgram {} ⟨0, feast, false⟩, by decide +kernel, by decide +kernel⟩

end Catalogue

end Wiring
