import Wiring.Proofs.Catalogue.Places
import Wiring.Proofs.Component.Captures
import Wiring.Proofs.Plan.Derivation
import Wiring.Proofs.Resolve.Origins

/-!
# What accessors denote

A call of an extension member of a parent is written inside that parent, and names in it are looked
up there first. Accessors are written relative to the components they stand inside of, by leaving
out the joined accessors of those at their beginning. What is written leads to the level it is meant
for wherever names are clear, that is, where no parent that calls are written inside of declares a
name that the calls use for something of the generated component. Then what is left out of an
accessor either is the path of the innermost component or is the beginning of no path at all.
-/

namespace Wiring

open Annotation (component)
open Collect

/-- The accessor and the name that the text of a call or of a cache begins with: with an accessor
the name follows it. The text of an extension call that is written inside no component begins with
its receiver. -/
def Plan.reference? : Plan → Option (Option String × String)
  | .call accessor f _ => some (accessor, f.callName)
  | .extensionCall (some accessor) f _ _ => some (some accessor, f.callName)
  | .cached accessor _ _ _ => some (accessor, "_scoped")
  | _ => none

namespace Place

/-- The place that a name stands for inside places, innermost first: the first one that declares it,
or else the generated component. -/
def holder (m : Model) (c : Classifier) (around : List Place) (name : String) : Place :=
  (around.find? (·.declares m name)).getD ⟨c, none⟩

/-- The place that a reference leads to inside places, innermost first: that of its name, or with an
accessor the one where this leads from the place of its first name. -/
def denoted (m : Model) (c : Classifier) (around : List Place) : Option String × String →
    Option Place
  | (none, name) => some (holder m c around name)
  | (some accessor, _) =>
    (holder m c around ((segments accessor).headD "")).reach m (segments accessor)

end Place

/-- The accessor of the component that the call of a subject is written inside of, as it is written
inside the component `parent`. -/
def Subject.entered? (parent : Option String) : Subject → Option String
  | .member p =>
    match p.callable.receiver with
    | none => none
    | some _ => p.accessor.map (relativeAccessor parent)
  | _ => none

namespace Resolver

/-- A request below `root`, and the places that the text of its plan is written inside of, innermost
first. -/
inductive Around (r : Resolver) (c : Classifier) (root : Request) :
    Request → List Place → Prop where
  | root : Around r c root root []
  | onward {q around s q'} (h : Around r c root q around) (hq : r.Asks q s q')
      (hs : s.bind (Subject.entered? q.context.parentScope) = none) : Around r c root q' around
  | entered {q around s q' accessor place} (h : Around r c root q around) (hq : r.Asks q s q')
      (hs : s.bind (Subject.entered? q.context.parentScope) = some accessor)
      (hp : Place.denoted r.model c around (some accessor, "") = some place) :
      Around r c root q' (place :: around)

end Resolver

namespace Component

/-- Every reference in the plans of a component leads to the level that what it refers to was
collected from. -/
structure AccessorsDenote (m : Model) (o : Options) (c : Classifier) : Prop where
  /-- A call leads to the level of the member that is called. -/
  calls : ∀ p ∈ (plan m o c).providers, ∀ q around candidate provider node ref,
    (resolver m o c).Around c (request (resolver m o c) c p.callable) q around →
    (resolver m o c).candidate q.key q.context q.fromEnd = .ok (some candidate) →
    .enter (.member provider) ∈ candidate.tasks q.key q.context →
    (resolver m o c).visit (resolver m o c).answer q.context (.member provider) = .ok node →
    node.reference? = some ref →
    ∃ l ∈ levels m o c, provider.callable ∈ l.component.allMembers m ∧
      provider.accessor = l.accessor ∧ Place.denoted m c around ref = some l.place
  /-- A cache is that of the level that owns the scope. -/
  caches : ∀ p ∈ (plan m o c).providers, ∀ q around owner accessor ref component key inner,
    (resolver m o c).Around c (request (resolver m o c) c p.callable) q around →
    (resolver m o c).candidate q.key q.context q.fromEnd = .ok (some (.cached owner)) →
    (resolver m o c).answer q = .ok (.cached accessor component key inner) →
    (Plan.cached accessor component key inner).reference? = some ref →
    ∃ l ∈ levels m o c, l.scope = some owner ∧ Place.denoted m c around ref = some l.place

/-- Calls are written inside the level of a parent: it has an extension member that provides. -/
structure Opened (m : Model) (o : Options) (c : Classifier) (l : Level) : Prop where
  level : l ∈ levels m o c
  parent : l.accessor ≠ none
  extension : ∃ f ∈ l.component.allMembers m, Role.isProvides f = true ∧ f.receiver ≠ none

/-- Names mean the same inside the parents that calls are written inside of as they do outside. -/
structure NamesClear (m : Model) (o : Options) (c : Classifier) : Prop where
  /-- The component is what its name stands for. -/
  named : m.classNamed c.path = some c
  paths : PathsApart m o c
  /-- The component parameters of such a parent can be read. -/
  vals : ∀ l, Opened m o c l → ∀ p ∈ Arrival.componentParams m l.component, p.isVal = true
  /-- Such a parent declares nothing that is called like a component parameter of the generated
  component, -/
  params : ∀ l, Opened m o c l → ∀ p ∈ Arrival.componentParams m c,
    l.place.declares m p.name = false
  /-- like something that it provides, or that it asks for and nothing else is bound to, -/
  members : ∀ l, Opened m o c l → ∀ f ∈ c.allMembers m, f.receiver = none →
    Role.isProvides f = true ∨ Role.isProvider f = true ∧ (Catalogue.collect m o c).resolve m o
      ⟨f.returnsFor m c, Role.qualifier? o f.annotations⟩ true = .ok none →
    l.place.declares m f.name = false
  /-- or like its cache. -/
  cache : ∀ l, Opened m o c l → l.place.declares m "_scoped" = false

end Component

namespace Resolver

/-- What a request asks for is written inside the component that is entered for it. -/
theorem Asks.parentScope {r : Resolver} {q q' : Request} {s : Option Subject}
    (h : r.Asks q s q') : q'.context.parentScope
      = enclosing q.context.parentScope (s.bind (Subject.entered? q.context.parentScope)) := by
  cases s with
  | none =>
    rcases h.onward_cases with ⟨_, _, _, _, _, rfl⟩ | ⟨_, _, _, rfl⟩ <;> rfl
  | some s =>
    cases h with
    | inside _ _ he hn =>
      obtain ⟨hparent, _⟩ := enter?_scope he
      rw [Option.bind_some, ← hparent]
      cases s with
      | member p =>
        rw [needs] at hn
        rw [Subject.entered?]
        cases hr : p.callable.receiver with
        | none =>
          rw [hr] at hn
          rw [(mem_paramRequests hn).1]
          rfl
        | some type =>
          rw [hr] at hn
          rcases List.mem_cons.1 hn with rfl | hn
          · exact (parentScope_withParentScope _ _).1
          · rw [(mem_paramRequests hn).1]
            exact (parentScope_withParentScope _ _).1
      | constructor k =>
        rw [(mem_paramRequests hn).1]
        rfl
      | lambda type types result =>
        rw [List.mem_singleton.1 hn]
        rfl
      | function f types =>
        rw [(mem_paramRequests hn).1]
        rfl

end Resolver

namespace Component

open Resolver

variable {m : Model} {o : Options} {c : Classifier} {around : List Place}
  {parent : Option String} {l : Level} {accessor : String}

/-- How the component that accessors are relative to stands to the places around. Where the path of
a level begins with it, it is that of the innermost place. -/
structure Standing (m : Model) (o : Options) (c : Classifier) (parent : Option String)
    (around : List Place) : Prop where
  opened : ∀ p ∈ around, ∃ l, Opened m o c l ∧ p = l.place
  outside : parent = none → around = []
  inside : ∀ path, parent = some path → ∃ p rest, around = p :: rest ∧
    ∀ l ∈ levels m o c, ∀ suffix, l.accessor = some (path ++ "." ++ suffix) →
      p.accessor = some path

/-- A name that no place around declares is the component's own. -/
theorem holder_of_forall {name : String} (h : ∀ p ∈ around, p.declares m name = false) :
    Place.holder m c around name = ⟨c, none⟩ := by
  have hfind : around.find? (·.declares m name) = none := by
    refine List.find?_eq_none.2 fun p hp => ?_
    rw [h p hp]
    exact Bool.false_ne_true
  rw [Place.holder, hfind, Option.getD_none]

/-- A name that the innermost place declares is held there. -/
theorem holder_cons {p : Place} {name : String} (h : p.declares m name = true) :
    Place.holder m c (p :: around) name = p := by
  have hfind : (p :: around).find? (·.declares m name) = some p := List.find?_cons_of_pos h
  rw [Place.holder, hfind, Option.getD_some]

/-- The accessor of a level begins with the name of a parameter of the component. -/
theorem NamesClear.exists_head (h : NamesClear m o c) (hl : l ∈ levels m o c)
    (ha : l.accessor = some accessor) : ∃ name rest, segments accessor = name :: rest ∧
      ∃ q ∈ Arrival.componentParams m c, q.name = name := by
  obtain ⟨name, rest, hsegments⟩ := exists_segments_eq_cons accessor
  have hreach := h.paths.reach_segments hl ha
  rw [hsegments, Place.reach_cons] at hreach
  obtain ⟨place, hfollow, _⟩ := Option.bind_eq_some_iff.1 hreach
  exact ⟨name, rest, hsegments, Place.exists_param_of_follow hfollow⟩

/-- An accessor in full leads to its level. -/
theorem NamesClear.denoted_full (h : NamesClear m o c)
    (hopened : ∀ p ∈ around, ∃ l, Opened m o c l ∧ p = l.place) (hl : l ∈ levels m o c)
    (ha : l.accessor = some accessor) (name : String) :
    Place.denoted m c around (some accessor, name) = some l.place := by
  obtain ⟨head, rest, hsegments, q, hq, rfl⟩ := h.exists_head hl ha
  have hreach := h.paths.reach_segments hl ha
  rw [Place.denoted, hsegments, List.headD_cons, holder_of_forall, ← hsegments]
  · exact hreach
  · intro p hp
    obtain ⟨l', hl', rfl⟩ := hopened p hp
    exact h.params l' hl' q hq

/-- Where the path of a level goes on from that of a parent that calls are written inside of, it
goes on with a name that the parent declares. -/
theorem NamesClear.reach_suffix (h : NamesClear m o c) {l' : Level} (hl' : Opened m o c l')
    {path suffix : String} (ha' : l'.accessor = some path) (hl : l ∈ levels m o c)
    (ha : l.accessor = some (path ++ "." ++ suffix)) :
    l'.place.reach m (segments suffix) = some l.place ∧
      l'.place.declares m ((segments suffix).headD "") = true := by
  have hreach := h.paths.reach_segments hl ha
  rw [segments_append, Place.reach_append, h.paths.reach_segments hl'.level ha',
    Option.bind_some] at hreach
  refine ⟨hreach, ?_⟩
  obtain ⟨head, rest, hsegments⟩ := exists_segments_eq_cons suffix
  rw [hsegments, Place.reach_cons] at hreach
  obtain ⟨place, hfollow, _⟩ := Option.bind_eq_some_iff.1 hreach
  obtain ⟨q, hq, rfl⟩ := Place.exists_param_of_follow hfollow
  rw [hsegments, List.headD_cons]
  exact Place.declares_of_mem hq (h.vals l' hl' q hq)

/-- A relative accessor leads to its level from the places around. -/
theorem NamesClear.denoted_relative (h : NamesClear m o c) (hs : Standing m o c parent around)
    (hl : l ∈ levels m o c) (ha : l.accessor = some accessor) (name : String) :
    Place.denoted m c around (some (relativeAccessor parent accessor), name) = some l.place := by
  cases parent with
  | none =>
    rw [relativeAccessor]
    exact h.denoted_full hs.opened hl ha name
  | some path =>
    rw [relativeAccessor]
    cases hafter : Text.afterHead? (path ++ ".") accessor with
    | none => exact h.denoted_full hs.opened hl ha name
    | some suffix =>
      rw [Text.afterHead?_eq_some_iff.1 hafter] at ha
      obtain ⟨p, rest, rfl, hinside⟩ := hs.inside path rfl
      have hpath := hinside l hl suffix ha
      obtain ⟨l', hl', rfl⟩ := hs.opened p (List.mem_cons_self ..)
      obtain ⟨hreach, hdeclares⟩ := h.reach_suffix hl' hpath hl ha
      rw [Option.getD_some, Place.denoted, holder_cons hdeclares]
      exact hreach

/-- Entering a parent keeps the standing. Where its path does not go on from that of the innermost
place, no path begins with the two of them joined, since the innermost place would have to declare a
name of the generated component. -/
theorem Standing.enter (h : NamesClear m o c) (hs : Standing m o c parent around)
    (hl : Opened m o c l) (ha : l.accessor = some accessor) :
    Standing m o c (enclosing parent (some (relativeAccessor parent accessor)))
      (l.place :: around) where
  opened p hp := by
    rcases List.mem_cons.1 hp with rfl | hp
    · exact ⟨l, hl, rfl⟩
    · exact hs.opened p hp
  outside hnone := by cases hnone
  inside path hpath := by
    refine ⟨l.place, around, rfl, fun l' hl' suffix ha' => ?_⟩
    cases parent with
    | none =>
      cases hpath
      exact ha
    | some outer =>
      rw [enclosing, Option.elim, relativeAccessor] at hpath
      cases hafter : Text.afterHead? (outer ++ ".") accessor with
      | some rest =>
        rw [hafter, Option.getD_some] at hpath
        obtain rfl := Option.some.inj hpath
        have hwhole := Text.afterHead?_eq_some_iff.1 hafter
        rw [Level.place, ha, hwhole]
      | none =>
        rw [hafter, Option.getD_none] at hpath
        obtain rfl := Option.some.inj hpath
        obtain ⟨p, rest, rfl, hinside⟩ := hs.inside outer rfl
        have hjoined : outer ++ "." ++ accessor ++ "." ++ suffix
            = outer ++ "." ++ (accessor ++ "." ++ suffix) := by
          simp only [String.append_assoc]
        rw [hjoined] at ha'
        have hpath := hinside l' hl' _ ha'
        obtain ⟨l₀, hl₀, rfl⟩ := hs.opened p (List.mem_cons_self ..)
        obtain ⟨_, hdeclares⟩ := h.reach_suffix hl₀ hpath hl' ha'
        obtain ⟨head, tail, hsegments, q, hq, rfl⟩ := h.exists_head hl.level ha
        rw [segments_append, hsegments, List.cons_append, List.headD_cons,
          h.params l₀ hl₀ q hq] at hdeclares
        cases hdeclares

/-- The places around a request stand as they should. -/
theorem NamesClear.standing (h : NamesClear m o c) {root q : Request}
    (hroot : root.context.parentScope = none) (hq : (resolver m o c).Around c root q around) :
    Standing m o c q.context.parentScope around := by
  induction hq with
  | root =>
    refine ⟨fun p hp => absurd hp List.not_mem_nil, fun _ => rfl, fun path hpath => ?_⟩
    rw [hroot] at hpath
    cases hpath
  | onward _ hasks hs ih =>
    rw [hasks.parentScope, hs]
    exact ih
  | @entered q around s q' accessor place _ hasks hs hp ih =>
    rw [hasks.parentScope, hs]
    obtain ⟨s, rfl, hentered⟩ := Option.bind_eq_some_iff.1 hs
    cases s with
    | member p =>
      rw [Subject.entered?] at hentered
      split at hentered
      · cases hentered
      · next type hr =>
        obtain ⟨path, hpath, rfl⟩ := Option.map_eq_some_iff.1 hentered
        cases hasks with
        | inside hc ht =>
          obtain ⟨l, hl, hf, ha, hrole⟩ := exists_level_of_task hc ht
          rw [hpath] at ha
          have hplace := h.denoted_relative ih hl ha.symm ""
          obtain rfl := Option.some.inj (hplace.symm.trans hp)
          refine ih.enter h ⟨hl, ?_, p.callable, hf, ?_, ?_⟩ ha.symm
          · rw [← ha]
            exact Option.some_ne_none _
          · -- What is only asked for has no receiver.
            refine hrole.resolve_right fun ⟨hprovider, _⟩ => ?_
            simp only [Role.isProvider, hr, Option.isNone_some, Bool.and_false, Bool.false_and,
              Bool.false_eq_true] at hprovider
          · rw [hr]
            exact Option.some_ne_none _
    | _ => cases hentered

/-- The text of the call of a member begins with its relative accessor, or with its name. -/
theorem reference_of_visit {r : Resolver} {answer : Request → Except Failure Plan}
    {context : Context} {p : Provider} {node : Plan} {ref : Option String × String}
    (h : r.visit answer context (.member p) = .ok node) (href : node.reference? = some ref) :
    ref = (p.accessor.map (relativeAccessor context.parentScope), p.callable.callName) ∧
      (p.accessor = none → p.callable.receiver = none) := by
  obtain ⟨context', plans, he, _, rfl⟩ := visit_eq_ok_iff.1 h
  rw [Subject.plan, (enter?_scope he).1] at href
  cases hr : p.callable.receiver with
  | none =>
    rw [hr] at href
    cases href
    exact ⟨rfl, fun _ => rfl⟩
  | some type =>
    rw [hr] at href
    cases ha : p.accessor with
    | none =>
      rw [ha] at href
      cases href
    | some accessor =>
      rw [ha] at href
      cases href
      exact ⟨rfl, fun hnone => by cases hnone⟩

/-- Where names are clear, everything that is written leads to where it is meant to. -/
theorem accessorsDenote (m : Model) (o : Options) (c : Classifier) (h : NamesClear m o c) :
    AccessorsDenote m o c where
  calls p hp q around candidate provider node ref hq hcand ht hvisit href := by
    have hs := h.standing rfl hq
    obtain ⟨l, hl, hf, ha, hrole⟩ := exists_level_of_task hcand ht
    obtain ⟨rfl, hreceiver⟩ := reference_of_visit hvisit href
    refine ⟨l, hl, hf, ha, ?_⟩
    cases haccessor : l.accessor with
    | some accessor =>
      rw [ha, haccessor]
      exact h.denoted_relative hs hl haccessor _
    | none =>
      -- The member is one of the component itself, so no place around may declare its name.
      have hroot := component_of_accessor hl haccessor
      have hmem := hf
      rw [hroot] at hmem
      have hc := (Model.mem_classifiers_of_classNamed h.named).1
      rw [ha, haccessor] at hreceiver ⊢
      rw [Option.map_none, Place.denoted,
        Model.callName_of_mem_callables (Classifier.mem_callables_of_mem_allMembers hc hmem),
        holder_of_forall, Level.place, haccessor, hroot]
      intro p hp
      obtain ⟨l', hl', rfl⟩ := hs.opened p hp
      exact h.members l' hl' _ hmem (hreceiver rfl)
        (hrole.imp_right fun ⟨hprovider, hnone⟩ => ⟨hprovider, hnone haccessor⟩)
  caches p hp q around owner accessor ref component key inner hq hcand ha href := by
    have hs := h.standing rfl hq
    obtain ⟨l, hl, hscope⟩ := exists_level_of_cached h.named hcand
    rw [answer_eq_step (Model.mem_classifiers_of_classNamed h.named).1] at ha
    have hlevel : owner.accessor = l.accessor := by
      rw [eq_levelAt_of_mem_levels hl] at hscope
      obtain ⟨_, _, rfl⟩ := Option.map_eq_some_iff.1 hscope
      rfl
    rcases cached_of_step ha with ⟨hu, _⟩ | ⟨owner', inner', hcand', _, he⟩
    · cases hu
    rw [hcand] at hcand'
    cases hcand'
    cases he
    cases href
    refine ⟨l, hl, hscope, ?_⟩
    cases haccessor : l.accessor with
    | some accessor =>
      rw [hlevel, haccessor]
      exact h.denoted_full hs.opened hl haccessor _
    | none =>
      rw [hlevel, haccessor, Place.denoted, holder_of_forall, Level.place, haccessor,
        component_of_accessor hl haccessor]
      intro p hp
      obtain ⟨l', hl', rfl⟩ := hs.opened p hp
      exact h.cache l' hl'

/-- A lodge that is served from a manor, which is reached by `toManor` and has a farm that is
reached from there by `toFarm`. Stew is made in the manor, from a pot and over a fire. -/
def lodge (toManor : String) : ClassDecl :=
  Sketch.component "Lodge" []
    [Sketch.param toManor (Sketch.type "Manor") [component]]
    [Sketch.requirement "stew" (Sketch.type "Stew") []]

/-- The manor, with the fire if it is not on the farm. -/
def manor (toFarm : String) (fire : List MemberDecl) : ClassDecl :=
  Sketch.component "Manor" []
    [Sketch.param toFarm (Sketch.type "Farm") [component]]
    (Sketch.extension "stew" (Sketch.type "Pot") (Sketch.type "Stew") [] :: fire)

/-- The farm, with the fire if it is not in the manor. -/
def farm (fire : List MemberDecl) : ClassDecl := Sketch.component "Farm" [] [] fire

/-- The fire. -/
def hearth : List MemberDecl := [Sketch.provider "fire" [] (Sketch.type "Fire") []]

/-- The program of a lodge, a manor and a farm. -/
def lodgeProgram (toManor toFarm : String) (inManor onFarm : List MemberDecl) : Model :=
  Sketch.program [lodge toManor, manor toFarm inManor, farm onFarm, Sketch.plain "Stew",
    Sketch.plain "Fire",
    Sketch.injectable "Pot" [] [Sketch.param "fire" (Sketch.type "Fire") []]]

/-- The lodge is served over the farm's fire, which is reached from inside the manor. -/
def servedProgram : Model := lodgeProgram "manor" "farm" [] hearth

/-- In the served lodge, every name that an accessor starts with means one place. -/
theorem namesClear_served : NamesClear servedProgram {} ⟨0, lodge "manor", false⟩ := by
  have hparents : ∀ l ∈ levels servedProgram {} ⟨0, lodge "manor", false⟩, l.accessor ≠ none →
      (∀ p ∈ Arrival.componentParams servedProgram l.component, p.isVal = true) ∧
      (∀ p ∈ Arrival.componentParams servedProgram ⟨0, lodge "manor", false⟩,
        l.place.declares servedProgram p.name = false) ∧
      l.place.declares servedProgram "_scoped" = false := by decide +kernel
  obtain ⟨stew, b, hmembers, hprovides, hbound⟩ : ∃ stew b,
      Classifier.allMembers servedProgram ⟨0, lodge "manor", false⟩ = [stew] ∧
      Role.isProvides stew = false ∧
      (Catalogue.collect servedProgram {} ⟨0, lodge "manor", false⟩).resolve servedProgram {}
        ⟨stew.returnsFor servedProgram ⟨0, lodge "manor", false⟩,
          Role.qualifier? {} stew.annotations⟩ true = .ok (some b) :=
    ⟨_, _, rfl, rfl, rfl⟩
  refine ⟨by decide +kernel, ⟨by decide +kernel, by decide +kernel⟩,
    fun l hl => (hparents l hl.level hl.parent).1, fun l hl => (hparents l hl.level hl.parent).2.1,
    fun l hl f hf _ hrole => ?_, fun l hl => (hparents l hl.level hl.parent).2.2⟩
  -- The lodge provides nothing, and the stew it asks for is bound in the manor.
  rw [hmembers] at hf
  obtain rfl := List.mem_singleton.1 hf
  rw [hprovides, hbound] at hrole
  rcases hrole with h | ⟨_, h⟩ <;> cases h

/-- Inside the manor the farm is reached without the name of the manor. -/
theorem accessorsDenote_served : NamesClear servedProgram {} ⟨0, lodge "manor", false⟩ ∧
    (plan servedProgram {} ⟨0, lodge "manor", false⟩).providers.map (·.plan.displayText)
      = ["Provides(manor.stew, receiver: Constructor(app.Pot, Provides(farm.fire)))"] ∧
    AccessorsDenote servedProgram {} ⟨0, lodge "manor", false⟩ :=
  ⟨namesClear_served, by decide +kernel, accessorsDenote _ _ _ namesClear_served⟩

/-- The lodge and the manor call what they are reached by alike, and the fire is in the manor. -/
def namesakeProgram : Model := lodgeProgram "parent" "parent" hearth []

/-- Inside the manor the fire is looked for on the farm. -/
theorem not_accessorsDenote_namesake :
    ⟨0, lodge "parent", false⟩ ∈ namesakeProgram.classifiers ∧
    (plan namesakeProgram {} ⟨0, lodge "parent", false⟩).failure.isNone = true ∧
    ¬ AccessorsDenote namesakeProgram {} ⟨0, lodge "parent", false⟩ := by
  have hc : ⟨0, lodge "parent", false⟩ ∈ namesakeProgram.classifiers :=
    Model.mem_classifiers.2 ⟨rfl, rfl⟩
  refine ⟨hc, by decide +kernel, fun h => ?_⟩
  obtain ⟨r, p, root, stew, inManor, pot, forPot, inPot, forFire, fire, node, place, rfl, hp, rfl,
      hstew, henter, hneeds, hmanor, hpot, henter', hneeds', hfire, haccessor, hvisit, href, hfarm,
      hplace⟩ : ∃ r p root, ∃ stew : Provider, ∃ inManor pot, ∃ forPot : Request, ∃ inPot,
        ∃ forFire : Request, ∃ fire : Provider, ∃ node place,
        resolver namesakeProgram {} ⟨0, lodge "parent", false⟩ = r ∧
        (plan namesakeProgram {} ⟨0, lodge "parent", false⟩).providers = [p] ∧
        request r ⟨0, lodge "parent", false⟩ p.callable = root ∧
        r.candidate root.key root.context root.fromEnd = .ok (some (.provides stew)) ∧
        root.context.enter? stew.callable.element = some inManor ∧
        r.needs inManor (.member stew) = [forPot] ∧
        Subject.entered? root.context.parentScope (.member stew) = some "parent" ∧
        r.candidate forPot.key forPot.context forPot.fromEnd = .ok (some (.construct pot)) ∧
        forPot.context.enter? pot.element = some inPot ∧
        r.needs inPot (.constructor pot) = [forFire] ∧
        r.candidate forFire.key forFire.context forFire.fromEnd = .ok (some (.provides fire)) ∧
        fire.accessor = some "parent" ∧
        r.visit r.answer forFire.context (.member fire) = .ok node ∧
        node.reference? = some (some "parent", "fire") ∧
        Place.denoted namesakeProgram ⟨0, lodge "parent", false⟩ [place] (some "parent", "fire")
          = some ⟨⟨2, farm [], false⟩, some "parent.parent"⟩ ∧
        Place.denoted namesakeProgram ⟨0, lodge "parent", false⟩ [] (some "parent", "")
          = some place :=
    ⟨_, _, _, _, _, _, _, _, _, _, _, _, rfl, rfl, rfl, rfl, rfl, rfl, rfl, rfl, rfl, rfl, rfl, rfl,
      rfl, rfl, rfl, rfl⟩
  have hmem : p ∈ (plan namesakeProgram {} ⟨0, lodge "parent", false⟩).providers := by
    rw [hp]
    exact List.mem_singleton.2 rfl
  have hinManor := Around.entered .root (.inside hstew (List.mem_singleton.2 rfl) henter
    (hneeds ▸ List.mem_singleton.2 rfl)) hmanor hplace
  have hinPot := Around.onward hinManor (.inside hpot (List.mem_singleton.2 rfl) henter'
    (hneeds' ▸ List.mem_singleton.2 rfl)) rfl
  obtain ⟨l, _, _, ha, hd⟩ := h.calls p hmem forFire [place] _ fire node _ hinPot hfire
    (List.mem_singleton.2 rfl) hvisit href
  -- The fire is that of the level at `parent`, and what is written leads to `parent.parent`.
  have hpath : some "parent.parent" = fire.accessor := by
    rw [ha]
    exact congrArg Place.accessor (Option.some.inj (hfarm.symm.trans hd))
  rw [haccessor] at hpath
  exact absurd hpath (by decide)

end Component

end Wiring
