import Wiring.Component
import Wiring.Proofs.Catalogue.Collected

/-!
# Where candidates come from

A key is satisfied by a lambda parameter, by a binding of the catalogue, or by what its type offers
by itself, in that order. The cases are listed here once, with everything that was checked on the
way to each of them. A binding is used through its cache unless that very cache entry is being
filled, and a binding without a cache is used as it is.
-/

namespace Wiring

/-- What the requests of a component are resolved against. -/
def Component.resolver (m : Model) (o : Options) (c : Classifier) : Resolver :=
  ⟨m, o, Catalogue.collect m o c⟩

/-- Whether a candidate uses a binding, as it is or through its cache. -/
def Candidate.isBound : Candidate → Bool
  | provides _ | cached _ | construct _ | container .. => true
  | _ => false

/-- How a binding is built when it is not taken from a cache. -/
def Binding.unscoped : Binding → Candidate
  | .constructor k _ => .construct k
  | .provider p => .provides p
  | .container k => .container k.builder k.parts

namespace Catalogue

/-- The binding of a key, by the stage of the look-up that finds it. -/
inductive Binds (m : Model) (o : Options) (cat : Catalogue) (key : Key) : Binding → Prop where
  | explicit {p : Provider} (h : cat.bindings.lookup key = some p) : Binds m o cat key (.provider p)
  | collection {k : Container} (h : cat.containers.lookup key = some k) :
      Binds m o cat key (.container k)
  | constructed {cls : Classifier} {k : Constructor} {scope : Option ScopeOwner}
      (hq : key.qualifier = none) (hc : m.classOf key.type = some cls)
      (hi : Role.isInjectClass m o cls = true) (hk : cls.constructor? m = some k)
      (hs : Role.scope? o (cls.annotations m) = scope.map (·.scope))
      (ho : ∀ owner, scope = some owner → cat.ownerOf? owner.scope = some owner) :
      Binds m o cat key (.constructor k scope)
  | required {p : Provider} (h : cat.requirements.lookup key = some p) :
      Binds m o cat key (.provider p)

/-- A type is bound to a constructor only if it is of an injectable class with that constructor, and
a scope of the class has an owner. -/
theorem constructorBinding_eq_some {m : Model} {o : Options} {cat : Catalogue} {t : TypeExpr}
    {b : Binding} (h : cat.constructorBinding m o t = .ok (some b)) :
    ∃ cls k scope, m.classOf t = some cls ∧ Role.isInjectClass m o cls = true ∧
      cls.constructor? m = some k ∧ b = .constructor k scope ∧
      Role.scope? o (cls.annotations m) = scope.map (·.scope) ∧
      ∀ owner, scope = some owner → cat.ownerOf? owner.scope = some owner := by
  rw [constructorBinding] at h
  cases hc : m.classOf t with
  | none => simp [hc] at h
  | some cls =>
    simp only [hc] at h
    by_cases hi : Role.isInjectClass m o cls = true
    · rw [if_pos hi] at h
      cases hk : cls.constructor? m with
      | none => simp [hk] at h
      | some k =>
        simp only [hk] at h
        cases hs : Role.scope? o (cls.annotations m) with
        | none =>
          simp only [hs, Except.ok.injEq, Option.some.injEq] at h
          refine ⟨cls, k, none, rfl, hi, hk, h.symm, hs, ?_⟩
          intro owner ho
          cases ho
        | some scope =>
          simp only [hs] at h
          cases ho : cat.ownerOf? scope with
          | none => simp [ho] at h
          | some owner =>
            simp only [ho, Except.ok.injEq, Option.some.injEq] at h
            have he : owner.scope = scope := by simpa using List.find?_some ho
            refine ⟨cls, k, some owner, rfl, hi, hk, h.symm, ?_, ?_⟩
            · rw [hs, Option.map_some, he]
            · intro owner' he'
              cases he'
              rw [he, ho]
    · rw [if_neg hi] at h
      cases h

/-- A constructor is not found for want of the owner of its scope only. -/
theorem constructorBinding_eq_error {m : Model} {o : Options} {cat : Catalogue} {t : TypeExpr}
    {e : MissingScope} (h : cat.constructorBinding m o t = .error e) :
    e.type = t ∧ ∃ cls, m.classOf t = some cls ∧ Role.isInjectClass m o cls = true ∧
      (cls.constructor? m).isSome = true ∧ Role.scope? o (cls.annotations m) = some e.scope ∧
      cat.ownerOf? e.scope = none := by
  rw [constructorBinding] at h
  cases hc : m.classOf t with
  | none => simp [hc] at h
  | some cls =>
    simp only [hc] at h
    by_cases hi : Role.isInjectClass m o cls = true
    · rw [if_pos hi] at h
      cases hk : cls.constructor? m with
      | none => simp [hk] at h
      | some k =>
        simp only [hk] at h
        cases hs : Role.scope? o (cls.annotations m) with
        | none => simp [hs] at h
        | some scope =>
          simp only [hs] at h
          cases ho : cat.ownerOf? scope with
          | some owner => simp [ho] at h
          | none =>
            simp only [ho, Except.error.injEq] at h
            subst h
            exact ⟨rfl, cls, rfl, hi, by rw [hk]; rfl, hs, ho⟩
    · rw [if_neg hi] at h
      cases h

/-- What a requirement is bound to is something that binds its key. -/
theorem binds_of_requirementBinding {m : Model} {o : Options} {cat : Catalogue} {key : Key}
    {skipOwn : Bool} {b : Binding} (h : cat.requirementBinding key skipOwn = some b) :
    Binds m o cat key b := by
  rw [requirementBinding] at h
  split at h
  · cases h
  · obtain ⟨p, hp, rfl⟩ := Option.map_eq_some_iff.1 h
    exact .required hp

/-- What a key is resolved to is something that binds the key. -/
theorem binds_of_resolve {m : Model} {o : Options} {cat : Catalogue} {key : Key} {skipOwn : Bool}
    {b : Binding} (h : cat.resolve m o key skipOwn = .ok (some b)) : Binds m o cat key b := by
  rw [resolve] at h
  cases hb : cat.bindings.lookup key with
  | some p =>
    simp only [hb, Except.ok.injEq, Option.some.injEq] at h
    subst h
    exact .explicit hb
  | none =>
    simp only [hb] at h
    cases hc : cat.containers.lookup key with
    | some k =>
      simp only [hc, Except.ok.injEq, Option.some.injEq] at h
      subst h
      exact .collection hc
    | none =>
      simp only [hc] at h
      cases hq : key.qualifier with
      | some q =>
        simp only [hq, Except.ok.injEq] at h
        exact binds_of_requirementBinding h
      | none =>
        simp only [hq] at h
        cases hk : cat.constructorBinding m o key.type with
        | error e => simp [hk] at h
        | ok found =>
          cases found with
          | none =>
            simp only [hk, Except.ok.injEq] at h
            exact binds_of_requirementBinding h
          | some b' =>
            simp only [hk, Except.ok.injEq, Option.some.injEq] at h
            subst h
            obtain ⟨cls, k, scope, hcls, hi, hctor, rfl, hs, ho⟩ := constructorBinding_eq_some hk
            exact .constructed hq hcls hi hctor hs ho

/-- A look-up fails for a key without qualifier that has no binding and no collection, with the
constructor of its type. -/
theorem resolve_eq_error {m : Model} {o : Options} {cat : Catalogue} {key : Key} {skipOwn : Bool}
    {e : MissingScope} (h : cat.resolve m o key skipOwn = .error e) :
    cat.bindings.lookup key = none ∧ cat.containers.lookup key = none ∧ key.qualifier = none ∧
      cat.constructorBinding m o key.type = .error e := by
  rw [resolve] at h
  cases hb : cat.bindings.lookup key with
  | some p => simp [hb] at h
  | none =>
    simp only [hb] at h
    cases hc : cat.containers.lookup key with
    | some k => simp [hc] at h
    | none =>
      simp only [hc] at h
      cases hq : key.qualifier with
      | some q => simp [hq] at h
      | none =>
        simp only [hq] at h
        cases hk : cat.constructorBinding m o key.type with
        | error e' =>
          simp only [hk, Except.error.injEq] at h
          exact ⟨rfl, rfl, rfl, by rw [h]⟩
        | ok found => cases found <;> simp [hk] at h

/-- A key is unbound only if the component itself does not ask for it. -/
theorem requirementBinding_of_resolve {m : Model} {o : Options} {cat : Catalogue} {key : Key}
    {skipOwn : Bool} (h : cat.resolve m o key skipOwn = .ok none) :
    cat.requirementBinding key skipOwn = none := by
  rw [resolve] at h
  cases hb : cat.bindings.lookup key with
  | some p => simp [hb] at h
  | none =>
    simp only [hb] at h
    cases hc : cat.containers.lookup key with
    | some k => simp [hc] at h
    | none =>
      simp only [hc] at h
      cases hq : key.qualifier with
      | some q =>
        rw [hq] at h
        exact Except.ok.inj h
      | none =>
        simp only [hq] at h
        cases hk : cat.constructorBinding m o key.type with
        | error e => simp [hk] at h
        | ok found =>
          cases found with
          | some b => simp [hk] at h
          | none =>
            rw [hk] at h
            exact Except.ok.inj h

end Catalogue

namespace Resolver

variable {r : Resolver} {key : Key} {c : Context} {fromEnd : Option Nat}

/-- The key is looked up in the catalogue, no lambda parameter coming first, and a binding is
found. -/
structure Finds (r : Resolver) (key : Key) (c : Context) (fromEnd : Option Nat) (b : Binding) :
    Prop where
  noArg : fromEnd.bind (r.argAt? key c) = none
  found : r.catalogue.resolve r.model r.options key (c.skipProvider == some key.type)
    = .ok (some b)

/-- What a type offers by itself, by the form of the type. -/
inductive Offered (r : Resolver) (key : Key) : Candidate → Prop where
  | namedFunction {params : List TypeExpr} {result : TypeExpr} {f : Callable}
      (hs : key.type.signature? = some (params, result))
      (hf : r.namedFunction? key.type = some f) : Offered r key (.namedFunction f params)
  | function {params : List TypeExpr} {result : TypeExpr}
      (hs : key.type.signature? = some (params, result)) :
      Offered r key (.function (.ofType key.type) params ⟨result, key.qualifier⟩)
  | lazy {inner : TypeExpr} (hl : key.type.isKnown .lazy = true)
      (ha : key.type.resolved.arguments.head? = some inner) :
      Offered r key (.lazy ⟨inner, key.qualifier⟩)

/-- The candidate for a key, by where it comes from. -/
inductive Chosen (r : Resolver) (key : Key) (c : Context) (fromEnd : Option Nat) :
    Candidate → Prop where
  | arg {name : String} (h : fromEnd.bind (r.argAt? key c) = some name) :
      Chosen r key c fromEnd (.arg name)
  | bound {b : Binding} (h : Finds r key c fromEnd b) : Chosen r key c fromEnd (ofBinding key c b)
  | offered {candidate : Candidate} (h : Offered r key candidate) : Chosen r key c fromEnd candidate

/-- What is found by the form of a type is offered by the type. -/
theorem offered_of_intrinsic {candidate : Candidate} (h : r.intrinsic key = some candidate) :
    Offered r key candidate := by
  rw [intrinsic] at h
  cases hs : key.type.signature? with
  | some signature =>
    obtain ⟨params, result⟩ := signature
    simp only [hs] at h
    cases hf : r.namedFunction? key.type with
    | some f =>
      simp only [hf, Option.some.injEq] at h
      subst h
      exact .namedFunction hs hf
    | none =>
      simp only [hf, Option.some.injEq] at h
      subst h
      exact .function hs
  | none =>
    simp only [hs] at h
    split at h
    · next hl =>
      obtain ⟨inner, ha, rfl⟩ := Option.map_eq_some_iff.1 h
      exact .lazy hl ha
    · cases h

/-- Every candidate comes from somewhere. -/
theorem chosen_of_candidate {candidate : Candidate}
    (h : r.candidate key c fromEnd = .ok (some candidate)) : Chosen r key c fromEnd candidate := by
  rw [Resolver.candidate] at h
  cases ha : fromEnd.bind (r.argAt? key c) with
  | some name =>
    simp only [ha, Except.ok.injEq, Option.some.injEq] at h
    subst h
    exact .arg ha
  | none =>
    simp only [ha, find] at h
    cases hr : r.catalogue.resolve r.model r.options key (c.skipProvider == some key.type) with
    | error e => simp [hr] at h
    | ok found =>
      cases found with
      | some b =>
        simp only [hr, Except.ok.injEq, Option.some.injEq] at h
        subst h
        exact .bound ⟨ha, hr⟩
      | none =>
        simp only [hr, Except.ok.injEq] at h
        exact .offered (offered_of_intrinsic h)

/-- The search for a candidate fails when the look-up does, for want of the owner of a scope. -/
theorem missing_of_candidate {e : Failure} (h : r.candidate key c fromEnd = .error e) :
    ∃ missing : MissingScope,
      e = .unresolvableScope missing.type missing.scope c.path.trace c.source ∧
      r.catalogue.resolve r.model r.options key (c.skipProvider == some key.type)
        = .error missing := by
  rw [Resolver.candidate] at h
  cases ha : fromEnd.bind (r.argAt? key c) with
  | some name => simp [ha] at h
  | none =>
    simp only [ha, find] at h
    cases hr : r.catalogue.resolve r.model r.options key (c.skipProvider == some key.type) with
    | error e' =>
      simp only [hr, Except.error.injEq] at h
      exact ⟨e', h.symm, rfl⟩
    | ok found => cases found <;> simp [hr] at h

/-- A scope that is missing makes the request fail, with the trace of its path. -/
theorem candidate_of_missing {missing : MissingScope} (hn : fromEnd.bind (r.argAt? key c) = none)
    (h : r.catalogue.resolve r.model r.options key (c.skipProvider == some key.type)
      = .error missing) : r.candidate key c fromEnd
        = .error (.unresolvableScope missing.type missing.scope c.path.trace c.source) := by
  simp only [Resolver.candidate, hn, find, h]

/-- A binding that is found makes the candidate. -/
theorem Finds.candidate {b : Binding} (h : Finds r key c fromEnd b) :
    r.candidate key c fromEnd = .ok (some (ofBinding key c b)) := by
  simp only [Resolver.candidate, h.noArg, find, h.found]

/-- What is found in a scope is kept there, unless the scope is skipped for the type. -/
theorem ofBinding_of_scope {b : Binding} {owner : ScopeOwner} (hs : b.scope? = some owner)
    (hk : c.skipScoped ≠ some key.type) : ofBinding key c b = .cached owner := by
  have hne : (c.skipScoped == some key.type) = false := by simpa using hk
  simp only [ofBinding, hs, hne]

/-- What is found for a type whose scope is skipped is built anew. -/
theorem ofBinding_of_skipScoped (b : Binding) (hk : c.skipScoped = some key.type) :
    ofBinding key c b = b.unscoped := by
  cases hs : b.scope? <;> cases b <;>
    simp only [ofBinding, hs, hk, beq_self_eq_true, Binding.unscoped]

/-- A binding is used as it is, or through its cache, which is then not the one being filled. -/
theorem ofBinding_cases (key : Key) (c : Context) (b : Binding) :
    (ofBinding key c b = b.unscoped ∧ (b.scope? = none ∨ c.skipScoped = some key.type))
      ∨ ∃ owner, b.scope? = some owner ∧ ofBinding key c b = .cached owner ∧
          c.skipScoped ≠ some key.type := by
  by_cases hk : c.skipScoped = some key.type
  · exact .inl ⟨ofBinding_of_skipScoped b hk, .inr hk⟩
  · cases hs : b.scope? with
    | none =>
      refine .inl ⟨?_, .inl rfl⟩
      cases b <;> simp only [ofBinding, hs, Binding.unscoped]
    | some owner => exact .inr ⟨owner, rfl, ofBinding_of_scope hs hk, hk⟩

/-- What is made of a binding counts as bound. -/
theorem isBound_ofBinding (key : Key) (c : Context) (b : Binding) :
    (ofBinding key c b).isBound = true := by
  rcases ofBinding_cases key c b with ⟨he, _⟩ | ⟨_, _, he, _⟩
  · rw [he]
    cases b <;> rfl
  · rw [he]
    rfl

/-- A cache is used for a binding whose owner it belongs to, when it is not the one being filled. -/
theorem finds_of_cached {owner : ScopeOwner}
    (h : r.candidate key c fromEnd = .ok (some (.cached owner))) :
    ∃ b, r.Finds key c fromEnd b ∧ b.scope? = some owner ∧ c.skipScoped ≠ some key.type := by
  have hc := chosen_of_candidate h
  generalize hcand : Candidate.cached owner = candidate at hc
  cases hc with
  | arg => cases hcand
  | offered ho => cases ho <;> cases hcand
  | @bound b hb =>
    rcases ofBinding_cases key c b with ⟨he, _⟩ | ⟨owner', hs, he, hne⟩
    · rw [he] at hcand
      cases b <;> cases hcand
    · rw [he] at hcand
      cases hcand
      exact ⟨b, hb, hs, hne⟩

/-- A lambda is entered as the very type that was asked for. -/
theorem element_of_candidate {e : Element} {types : List TypeExpr} {result : Key}
    (h : r.candidate key c fromEnd = .ok (some (.function e types result))) :
    e = .ofType key.type := by
  have hc := chosen_of_candidate h
  generalize hcand : Candidate.function e types result = candidate at hc
  cases hc with
  | arg => cases hcand
  | @bound b hb =>
    have hbound := isBound_ofBinding key c b
    rw [← hcand] at hbound
    cases hbound
  | offered ho =>
    cases ho with
    | namedFunction => cases hcand
    | function =>
      cases hcand
      rfl
    | lazy => cases hcand

end Resolver

end Wiring
