import Wiring.Plan.Text
import Wiring.Proofs.Resolve.Task
import Wiring.Proofs.Sketch

/-!
# Derivations of plans

What makes a plan a plan for a key, said by rules over the declarations of the program and the
component levels in reach, without regard to how bindings are looked up: a constructor stands for
an unqualified injectable class, a call for a member whose result its level sees at the very key,
a collection for all its contributors in order, a lambda for its function type. Every call has one
plan for each parameter, in order, for its type and qualifier. Whatever resolution builds for a key
is derivable for it.
-/

namespace Wiring

open Annotation (intoSet)
open Collect

/-- The accessor of the component that is entered from inside `parent` by an extension member. -/
def enclosing (parent : Option String) : Option String → Option String
  | none => parent
  | some name => some (parent.elim name fun outer => outer ++ "." ++ name)

section Rules

variable (m : Model) (o : Options) (c : Classifier)

mutual

/-- A plan is derivable for a key. The emitted code is inside the component `parent` and inside a
lambda with the parameters `args`. -/
inductive Derives : Option String → LambdaParams → Key → Plan → Prop where
  /-- What the key is bound to is built. -/
  | bound {parent args key scope plan} (hp : DerivesBound parent args key scope plan) :
      Derives parent args key plan
  /-- What the key is bound to is kept by the owner of its scope, under the key as it is written in
  source text. -/
  | cached {parent args key owner plan} (ho : owner ∈ scopeOwners m o c)
      (hp : DerivesBound parent args key (some owner) plan) :
      Derives parent args key (.cached owner.accessor owner.component key.type.sourceText plan)
  /-- A lambda has the parameters of the function type and builds its result. -/
  | function {parent args key types result body} (hs : key.type.signature? = some (types, result))
      (hp : Derives parent (.ofTypes types) ⟨result, key.qualifier⟩ body) :
      Derives parent args key (.function (.ofTypes types) body)
  /-- A lambda calls the injectable function that an alias of its type is named after. -/
  | namedFunction {parent args key types result f plans}
      (hs : key.type.signature? = some (types, result)) (ha : key.type.isAlias = true)
      (hf : f ∈ m.functionsNamed key.type.package key.type.name)
      (hi : Role.isInjectFunction f = true)
      (hp : DerivesParams parent (.ofTypes types) f.params plans) :
      Derives parent args key (.namedFunction f (.ofTypes types) plans)
  /-- A lazy value is built from what it holds. -/
  | lazy {parent args key inner plan} (hl : key.type.isKnown .lazy = true)
      (ha : key.type.resolved.arguments.head? = some inner)
      (hp : Derives parent args ⟨inner, key.qualifier⟩ plan) : Derives parent args key (.lazy plan)

/-- A plan builds what a key is bound to, which belongs into the cache of `scope`. -/
inductive DerivesBound : Option String → LambdaParams → Key → Option ScopeOwner → Plan →
    Prop where
  /-- A member of a level that offers the key is called. -/
  | offered {parent args l f key plan} (hl : l ∈ levels m o c) (hf : Offers m o l f key)
      (hp : DerivesCall parent args l f plan) :
      DerivesBound parent args key (offerScope o l f) plan
  /-- All contributors of a collection are called. -/
  | collected {parent args b key plans} (hb : contributors m o c b key ≠ [])
      (hp : DerivesCalls parent args (contributors m o c b key) plans) :
      DerivesBound parent args key
        ((contributors m o c b key).findSome? fun n => memberScope o n.1 n.2) (.container b plans)
  /-- The constructor of an injectable class is called. The scope is the one on the class. -/
  | constructed {parent args type cls k scope plans} (hc : m.classOf type = some cls)
      (hi : Role.isInjectClass m o cls = true) (hk : cls.constructor? m = some k)
      (hs : Role.scope? o (cls.annotations m) = scope.map (·.scope))
      (ho : ∀ owner, scope = some owner →
        (scopeOwners m o c).find? (fun other => other.scope == owner.scope) = some owner)
      (hp : DerivesParams parent args k.params plans) :
      DerivesBound parent args ⟨type, none⟩ scope (.construct k plans)

/-- A plan calls a member of a level: on a receiver exactly when the member has one, with a plan
for each of its parameters. -/
inductive DerivesCall : Option String → LambdaParams → Level → Callable → Plan → Prop where
  | call {parent args l f plans} (hr : f.receiver = none)
      (hp : DerivesParams parent args f.params plans) :
      DerivesCall parent args l f (.call (l.accessor.map (relativeAccessor parent)) f plans)
  | extensionCall {parent args l f type receiver plans} (hr : f.receiver = some type)
      (hv : Derives (enclosing parent (l.accessor.map (relativeAccessor parent))) args
        ⟨type, Role.qualifier? o f.annotations⟩ receiver)
      (hp : DerivesParams (enclosing parent (l.accessor.map (relativeAccessor parent))) args
        f.params plans) :
      DerivesCall parent args l f
        (.extensionCall (l.accessor.map (relativeAccessor parent)) f receiver plans)

/-- One plan for each member, in order. -/
inductive DerivesCalls : Option String → LambdaParams → List (Level × Callable) → List Plan →
    Prop where
  | nil {parent args} : DerivesCalls parent args [] []
  | cons {parent args l f calls plan plans} (hp : DerivesCall parent args l f plan)
      (hr : DerivesCalls parent args calls plans) :
      DerivesCalls parent args ((l, f) :: calls) (plan :: plans)

/-- One plan for each parameter, in order: a plan for its type and qualifier, or the lambda
parameter at the same distance from the end, when its type fits. -/
inductive DerivesParams : Option String → LambdaParams → List Param → List Plan → Prop where
  | nil {parent args} : DerivesParams parent args [] []
  | value {parent args p ps plan plans}
      (hp : Derives parent args ⟨p.type, Role.qualifier? o p.annotations⟩ plan)
      (hr : DerivesParams parent args ps plans) :
      DerivesParams parent args (p :: ps) (plan :: plans)
  | arg {parent args p ps type name plans} (ha : args.reverse[ps.length]? = some (type, name))
      (ht : m.isAssignable p.type type = true) (hr : DerivesParams parent args ps plans) :
      DerivesParams parent args (p :: ps) (.arg name :: plans)

end

end Rules

/-- Going into a component changes the scope that things are seen from, and no argument. -/
theorem parentScope_withParentScope (c : Context) (accessor : Option String) :
    (c.withParentScope accessor).parentScope = enclosing c.parentScope accessor
      ∧ (c.withParentScope accessor).args = c.args := by
  cases accessor with
  | none => exact ⟨rfl, rfl⟩
  | some name =>
    cases hp : c.parentScope <;> simp [Context.withParentScope, enclosing, hp]

section Soundness

variable {m : Model} {o : Options} {c : Classifier} {answer : Request → Except Failure Plan}
  {context : Context} {key : Key} {plan : Plan} {plans : List Plan}

/-- A plan is right for a request: it is a lambda parameter at the place of the request or a plan
derivable for its key, and where the cache of the key must not be used, it builds what the key is
bound to. -/
structure Answers (m : Model) (o : Options) (c : Classifier) (q : Request) (plan : Plan) :
    Prop where
  derives : (∃ i type name, q.fromEnd = some i ∧
      q.context.args.reverse[i]? = some (type, name) ∧
      m.isAssignable q.key.type type = true ∧ plan = .arg name)
    ∨ Derives m o c q.context.parentScope q.context.args q.key plan
  builds : ∀ b, (Component.resolver m o c).Finds q.key q.context q.fromEnd b →
    q.context.skipScoped = some q.key.type →
    DerivesBound m o c q.context.parentScope q.context.args q.key b.scope? plan

/-- A request that is not for a parameter is answered by a derivable plan. -/
theorem Answers.derives_of_none {q : Request} (h : Answers m o c q plan) (hq : q.fromEnd = none) :
    Derives m o c q.context.parentScope q.context.args q.key plan := by
  rcases h.derives with ⟨i, _, _, hi, _⟩ | h
  · rw [hq] at hi
    cases hi
  · exact h

/-- Parameters whose requests are answered soundly have derivations. -/
theorem derivesParams_of_answers {ps : List Param}
    (h : List.Forall₂ (Answers m o c) ((Component.resolver m o c).paramRequests context ps) plans) :
    DerivesParams m o c context.parentScope context.args ps plans := by
  induction ps generalizing plans with
  | nil =>
    cases h
    exact .nil
  | cons p ps ih =>
    cases h with
    | cons hp hps =>
      rcases hp.derives with ⟨i, type, name, hi, ha, ht, rfl⟩ | hd
      · cases hi
        exact .arg ha ht (ih hps)
      · exact .value hd (ih hps)

/-- The context inside an element has the same component and lambda around it. -/
theorem enter?_scope {c c' : Context} {e : Element} (h : c.enter? e = some c') :
    c'.parentScope = c.parentScope ∧ c'.args = c.args := by
  rw [(Context.enter?_eq_some h).2.2]
  exact ⟨rfl, rfl⟩

/-- Visiting a member of a level calls it. -/
theorem derivesCall_of_visit {l : Level} {f : Callable} {scope : Option ScopeOwner}
    (ha : ∀ q plan, answer q = .ok plan → Answers m o c q plan)
    (h : (Component.resolver m o c).visit answer context (.member ⟨f, l.accessor, scope⟩)
      = .ok plan) :
    DerivesCall m o c context.parentScope context.args l f plan := by
  obtain ⟨context', plans, henter, hplans, rfl⟩ := Resolver.visit_eq_ok_iff.1 h
  obtain ⟨hscope, hargs⟩ := enter?_scope henter
  have hplans := hplans.imp fun q plan => ha q plan
  rw [← hscope, ← hargs]
  rw [Resolver.needs] at hplans
  rw [Subject.plan]
  dsimp only at hplans ⊢
  cases hr : f.receiver with
  | none =>
    rw [hr] at hplans
    exact .call hr (derivesParams_of_answers hplans)
  | some type =>
    rw [hr] at hplans
    dsimp only at hplans ⊢
    obtain ⟨hinside, hinargs⟩ := parentScope_withParentScope context'
      (l.accessor.map (relativeAccessor context'.parentScope))
    cases hplans with
    | cons hreceiver hparams =>
      have hv := hreceiver.derives_of_none rfl
      have hp := derivesParams_of_answers hparams
      rw [hinside, hinargs] at hv hp
      exact .extensionCall hr hv hp

/-- Members that are called one after the other have derivations if all answers are sound. -/
theorem derivesCalls_of_perform {calls : List (Level × Callable)}
    (ha : ∀ q plan, answer q = .ok plan → Answers m o c q plan)
    (h : List.Forall₂ (fun t p => (Component.resolver m o c).perform answer context t = .ok p)
      (calls.map fun n => .enter (.member ⟨n.2, n.1.accessor, none⟩)) plans) :
    DerivesCalls m o c context.parentScope context.args calls plans := by
  induction calls generalizing plans with
  | nil =>
    cases h
    exact .nil
  | cons n calls ih =>
    cases h with
    | cons hp hr => exact .cons (derivesCall_of_visit ha hp) (ih hr)

/-- Building a binding is derivable for its key. -/
theorem derivesBound_of_perform {b : Binding}
    (ha : ∀ q plan, answer q = .ok plan → Answers m o c q plan)
    (hb : Catalogue.Binds m o (Catalogue.collect m o c) key b)
    (h : List.Forall₂ (fun t p => (Component.resolver m o c).perform answer context t = .ok p)
      (b.unscoped.tasks key context) plans) :
    DerivesBound m o c context.parentScope context.args key b.scope?
      (b.unscoped.plan key plans) := by
  cases hb with
  | explicit hlookup =>
    obtain ⟨l, hl, f, hf, rfl⟩ := Catalogue.offers_of_lookup_bindings hlookup
    cases h with
    | cons hp hr =>
      cases hr
      exact .offered hl hf (derivesCall_of_visit ha hp)
  | collection hlookup =>
    obtain ⟨hne, hparts, hscope⟩ := Catalogue.parts_of_lookup_containers hlookup
    rw [Binding.scope?, hscope]
    simp only [Binding.unscoped, Candidate.tasks, hparts, List.map_map] at h
    exact .collected hne (derivesCalls_of_perform ha h)
  | constructed hq hc hi hk hs ho =>
    simp only [Catalogue.ownerOf?, Catalogue.owners_collect] at ho
    cases h with
    | cons hp hr =>
      cases hr
      obtain ⟨context', plans, henter, hplans, rfl⟩ := Resolver.visit_eq_ok_iff.1 hp
      obtain ⟨hscope, hargs⟩ := enter?_scope henter
      have hparams := derivesParams_of_answers (hplans.imp fun q plan => ha q plan)
      rw [hscope, hargs] at hparams
      obtain ⟨type, qualifier⟩ := key
      cases hq
      exact .constructed hc hi hk hs ho hparams
  | required hlookup =>
    obtain ⟨l, hl, f, hf, rfl, _⟩ := Catalogue.offers_of_lookup_requirements hlookup
    cases h with
    | cons hp hr =>
      cases hr
      exact .offered hl hf (derivesCall_of_visit ha hp)

/-- What a type offers by itself is derivable for its key. -/
theorem derives_of_offered {candidate : Candidate}
    (ha : ∀ q plan, answer q = .ok plan → Answers m o c q plan)
    (ho : (Component.resolver m o c).Offered key candidate)
    (h : List.Forall₂ (fun t p => (Component.resolver m o c).perform answer context t = .ok p)
      (candidate.tasks key context) plans) :
    Derives m o c context.parentScope context.args key (candidate.plan key plans) := by
  cases ho with
  | @namedFunction types result f hs hf =>
    cases h with
    | cons hp hr =>
      cases hr
      obtain ⟨context', plans, henter, hplans, rfl⟩ := Resolver.visit_eq_ok_iff.1 hp
      obtain ⟨hscope, _⟩ := enter?_scope henter
      have hparams := derivesParams_of_answers (hplans.imp fun q plan => ha q plan)
      rw [← hscope]
      rw [Resolver.namedFunction?] at hf
      split at hf
      · next halias =>
        exact .namedFunction hs halias (List.mem_of_find?_eq_some hf) (List.find?_some hf) hparams
      · cases hf
  | @function types result hs =>
    cases h with
    | cons hp hr =>
      cases hr
      obtain ⟨context', plans, henter, hplans, rfl⟩ := Resolver.visit_eq_ok_iff.1 hp
      obtain ⟨hscope, _⟩ := enter?_scope henter
      rw [← hscope]
      cases hplans with
      | cons hbody hnil =>
        cases hnil
        exact .function hs ((ha _ _ hbody).derives_of_none rfl)
  | lazy hl hinner =>
    cases h with
    | cons hp hr =>
      cases hr
      exact .lazy hl hinner ((ha _ _ hp).derives_of_none rfl)

/-- The owner of the scope of a binding is in reach. -/
theorem mem_scopeOwners_of_binds {b : Binding} {owner : ScopeOwner}
    (hb : Catalogue.Binds m o (Catalogue.collect m o c) key b) (hs : b.scope? = some owner) :
    owner ∈ scopeOwners m o c := by
  have hoffer : ∀ {l : Level} {f : Callable}, l ∈ levels m o c → offerScope o l f = some owner →
      owner ∈ scopeOwners m o c := by
    intro l f hl h
    rw [offerScope] at h
    split at h
    · exact mem_scopeOwners_of_level hl (scope_of_memberScope h)
    · cases h
  cases hb with
  | explicit hlookup =>
    obtain ⟨l, hl, f, _, rfl⟩ := Catalogue.offers_of_lookup_bindings hlookup
    exact hoffer hl hs
  | collection hlookup =>
    obtain ⟨_, _, hscope⟩ := Catalogue.parts_of_lookup_containers hlookup
    rw [Binding.scope?, hscope] at hs
    obtain ⟨n, hn, hs⟩ := List.exists_of_findSome?_eq_some hs
    exact mem_scopeOwners_of_level (Catalogue.mem_levels_of_mem_contributors hn).1
      (scope_of_memberScope hs)
  | constructed _ _ _ _ _ ho =>
    rw [← Catalogue.owners_collect]
    exact List.mem_of_find?_eq_some (ho owner hs)
  | required hlookup =>
    obtain ⟨l, hl, f, _, rfl, _⟩ := Catalogue.offers_of_lookup_requirements hlookup
    exact hoffer hl hs

/-- A step that is given right answers gives a right answer. -/
theorem answers_step {q : Request} (ha : ∀ q plan, answer q = .ok plan → Answers m o c q plan)
    (h : (Component.resolver m o c).step answer q = .ok plan) : Answers m o c q plan := by
  obtain ⟨candidate, plans, hcandidate, hplans, rfl⟩ := Resolver.step_eq_ok_iff.1 h
  constructor
  · cases Resolver.chosen_of_candidate hcandidate with
    | arg hname =>
      obtain ⟨i, hi, hname⟩ := Option.bind_eq_some_iff.1 hname
      rw [Resolver.argAt?] at hname
      split at hname
      · next type name hat =>
        obtain ⟨ht, hn⟩ := Option.ite_none_right_eq_some.1 hname
        cases hn
        exact .inl ⟨i, type, _, hi, hat, ht, rfl⟩
      · cases hname
    | offered ho => exact .inr (derives_of_offered ha ho hplans)
    | @bound b hf =>
      have hb := Catalogue.binds_of_resolve hf.found
      rcases Resolver.ofBinding_cases q.key q.context b with ⟨he, _⟩ | ⟨owner, hs, he, _⟩
      · rw [he] at hplans ⊢
        exact .inr (.bound (derivesBound_of_perform ha hb hplans))
      · rw [he] at hplans ⊢
        cases hplans with
        | cons hp hr =>
          cases hr
          -- The same binding is found again for the cache entry, and now it has to be built.
          have hbuilds := (ha _ _ hp).builds b ⟨rfl, hf.found⟩ rfl
          rw [hs] at hbuilds
          exact .inr (.cached (mem_scopeOwners_of_binds hb hs) hbuilds)
  · intro b hf hskip
    have hb := Catalogue.binds_of_resolve hf.found
    have he := hf.candidate
    rw [hcandidate] at he
    cases he
    rcases Resolver.ofBinding_cases q.key q.context b with ⟨he, _⟩ | ⟨owner, _, _, hne⟩
    · rw [he] at hplans ⊢
      exact derivesBound_of_perform ha hb hplans
    · exact absurd hskip hne

end Soundness

/-- Whatever resolution builds for a key is derivable for it, inside the component and the lambda
that the request is made under. -/
theorem derives_of_provide (m : Model) (o : Options) (c : Classifier) (key : Key)
    (context : Context) (plan : Plan)
    (h : (Component.resolver m o c).provide key context = .ok plan) :
    Derives m o c context.parentScope context.args key plan := by
  have hall : ∀ (depth : Nat) (q : Request) (plan : Plan),
      (Component.resolver m o c).provideWithin depth q = .ok plan → Answers m o c q plan := by
    intro depth
    induction depth with
    | zero =>
      intro q plan h
      cases h
    | succ depth ih =>
      intro q plan h
      exact answers_step ih h
  exact (hall _ _ _ h).derives_of_none rfl

/-- A component that is asked for a function which makes a shop out of a car that is kept, a set
with two contributors, one of them an extension, and the parameter of the function. -/
def garage : ClassDecl :=
  Sketch.component "Garage" ["app.Single"] []
    [Sketch.provider "wheel" [] (Sketch.type "Part") [intoSet],
      Sketch.extension "asPart" (Sketch.type "Engine") (Sketch.type "Part") [intoSet]]

/-- The program of the garage. -/
def garageProgram : Model :=
  Sketch.program [garage, Sketch.plain "Part", Sketch.plain "Tool",
    Sketch.injectable "Engine" [] [],
    Sketch.injectable "Car" ["app.Single"] [Sketch.param "engine" (Sketch.type "Engine") []],
    Sketch.injectable "Shop" [] [Sketch.param "car" (Sketch.type "Car") [],
      Sketch.param "parts" (.known .set [Sketch.type "Part"]) [],
      Sketch.param "tool" (Sketch.type "Tool") []]]

/-- The shop of the garage is planned with a cache, a container, a receiver and an argument, and its
plan is derived. -/
theorem derives_of_provide_shop :
    ∃ plan, (Component.resolver garageProgram {} ⟨0, garage, false⟩).provide
        ⟨.function [Sketch.type "Tool"] (Sketch.type "Shop"), none⟩
        (Component.startContext ⟨0, garage, false⟩) = .ok plan ∧
      plan.displayText = "Function(arg0 -> Constructor(app.Shop, "
        ++ "Scoped(Constructor(app.Car, Constructor(app.Engine))), "
        ++ "Container(setOf, Provides(wheel), "
        ++ "Provides(asPart, receiver: Constructor(app.Engine))), "
        ++ "Arg(arg0)))" ∧
      Derives garageProgram {} ⟨0, garage, false⟩ none []
        ⟨.function [Sketch.type "Tool"] (Sketch.type "Shop"), none⟩ plan := by
  have htext : ((Component.resolver garageProgram {} ⟨0, garage, false⟩).provide
      ⟨.function [Sketch.type "Tool"] (Sketch.type "Shop"), none⟩
      (Component.startContext ⟨0, garage, false⟩)).toOption.map Plan.displayText
      = some ("Function(arg0 -> Constructor(app.Shop, "
        ++ "Scoped(Constructor(app.Car, Constructor(app.Engine))), "
        ++ "Container(setOf, Provides(wheel), "
        ++ "Provides(asPart, receiver: Constructor(app.Engine))), "
        ++ "Arg(arg0)))") := by
    decide +kernel
  cases hp : (Component.resolver garageProgram {} ⟨0, garage, false⟩).provide
      ⟨.function [Sketch.type "Tool"] (Sketch.type "Shop"), none⟩
      (Component.startContext ⟨0, garage, false⟩) with
  | error e =>
    rw [hp] at htext
    cases htext
  | ok plan =>
    rw [hp] at htext
    exact ⟨plan, rfl, Option.some.inj htext, derives_of_provide _ _ _ _ _ _ hp⟩

end Wiring
