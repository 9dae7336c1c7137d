import Wiring.Catalogue.Collect
import Wiring.Catalogue.Lookup

/-!
# Catalogues under other labels

What a catalogue holds are handles on declarations: classes, constructors, members, and the
elements that stand for them. It is filled and looked up by keys, accessors, annotations and scopes
alone, so when all handles are replaced in one way, before a finding is entered or after, the
outcome is one and the same.
-/

namespace Wiring

/-- A way to replace the handles on declarations. What collecting reads off a member is left as it
is, up to its element. -/
structure Relabelling where
  classifier : Classifier → Classifier
  constructor : Constructor → Constructor
  callable : Callable → Callable
  element : Element → Element
  element_callable : ∀ f, (callable f).element = element f.element
  annotations_callable : ∀ f, (callable f).annotations = f.annotations

variable (ρ : Relabelling)

/-- The owner of a scope with its class replaced. -/
def ScopeOwner.relabel (s : ScopeOwner) : ScopeOwner :=
  { s with component := ρ.classifier s.component }

/-- A provider with its member and the owner of its scope replaced. -/
def Provider.relabel (p : Provider) : Provider :=
  { p with callable := ρ.callable p.callable, scope := p.scope.map (·.relabel ρ) }

/-- A collection with its contributors replaced. -/
def Container.relabel (c : Container) : Container :=
  { c with parts := c.parts.map (·.relabel ρ), scope := c.scope.map (·.relabel ρ) }

/-- A binding with its handles replaced. -/
def Binding.relabel : Binding → Binding
  | constructor k scope => .constructor (ρ.constructor k) (scope.map (·.relabel ρ))
  | provider p => .provider (p.relabel ρ)
  | container c => .container (c.relabel ρ)

/-- A diagnostic with its element replaced. -/
def Diagnostic.relabel (d : Diagnostic) : Diagnostic :=
  { d with element := d.element.map ρ.element }

/-- A finding with its handles replaced. -/
def Finding.relabel : Finding → Finding
  | owner o => .owner (o.relabel ρ)
  | binding key p => .binding key (p.relabel ρ)
  | part builder key p => .part builder key (p.relabel ρ)
  | requirement key p => .requirement key (p.relabel ρ)
  | problem d => .problem (d.relabel ρ)

/-- A level with its component and the owner of its scope replaced. -/
def Collect.Level.relabel (l : Level) : Level :=
  { l with component := ρ.classifier l.component, scope := l.scope.map (·.relabel ρ) }

namespace Catalogue

/-- A catalogue with its handles replaced. -/
def relabel (c : Catalogue) : Catalogue where
  component := ρ.classifier c.component
  owners := c.owners.map (·.relabel ρ)
  bindings := c.bindings.map fun e => (e.1, e.2.relabel ρ)
  containers := c.containers.map fun e => (e.1, e.2.relabel ρ)
  requirements := c.requirements.map fun e => (e.1, e.2.relabel ρ)
  requirementMembers := c.requirementMembers.map ρ.callable
  diagnostics := c.diagnostics.map (·.relabel ρ)

/-- Changing all values of a table changes the value that is looked up. -/
theorem lookup_map {α β : Type} (g : α → β) (key : Key) (l : List (Key × α)) :
    (l.map fun e => (e.1, g e.2)).lookup key = (l.lookup key).map g := by
  induction l with
  | nil => rfl
  | cons e l ih =>
    obtain ⟨k, a⟩ := e
    rw [List.map_cons, List.lookup_cons, List.lookup_cons, ih]
    cases key == k <;> rfl

/-- The report of two rivals, with handles replaced, is that of the two replaced. -/
theorem relabel_clash (key : Key) (first later : Provider) :
    (clash key first later).map (·.relabel ρ)
      = clash key (first.relabel ρ) (later.relabel ρ) := by
  have haccessor : ∀ p : Provider, (p.relabel ρ).accessor = p.accessor := fun _ => rfl
  have helement : ∀ p : Provider,
      (p.relabel ρ).callable.element = ρ.element p.callable.element :=
    fun p => ρ.element_callable p.callable
  rw [clash, clash, haccessor, haccessor, helement, helement]
  split <;> rfl

/-- A part may be added before the handles are replaced or after. -/
theorem relabel_addPart (b : Builder) (key : Key) (p : Provider) (l : List (Key × Container)) :
    (addPart b key p l).map (fun e => (e.1, e.2.relabel ρ))
      = addPart b key (p.relabel ρ) (l.map fun e => (e.1, e.2.relabel ρ)) := by
  induction l with
  | nil => rfl
  | cons e l ih =>
    obtain ⟨k, c⟩ := e
    rw [addPart, List.map_cons, addPart]
    split
    · rw [List.map_cons]
      simp only [Container.relabel, List.map_append, List.map_cons, List.map_nil, Option.map_or]
      rfl
    · rw [List.map_cons, ih]

/-- A finding may be relabelled before it is entered or after. -/
theorem relabel_enter (c : Catalogue) (x : Finding) :
    (c.enter x).relabel ρ = (c.relabel ρ).enter (x.relabel ρ) := by
  cases x with
  | owner o => simp [enter, relabel, Finding.relabel]
  | binding key p =>
    have hlookup : (c.relabel ρ).bindings.lookup key
        = (c.bindings.lookup key).map (·.relabel ρ) := lookup_map _ key c.bindings
    rw [Finding.relabel, enter, enter, hlookup]
    cases c.bindings.lookup key with
    | none => simp [relabel]
    | some first => simp [relabel, relabel_clash]
  | part b key p => simp [enter, relabel, Finding.relabel, relabel_addPart]
  | requirement key p =>
    have hlookup : (c.relabel ρ).requirements.lookup key
        = (c.requirements.lookup key).map (·.relabel ρ) := lookup_map _ key c.requirements
    simp only [Finding.relabel, enter, hlookup]
    cases c.requirements.lookup key with
    | none => simp [relabel, Provider.relabel]
    | some first => simp [relabel, Provider.relabel]
  | problem d => simp [enter, relabel, Finding.relabel]

/-- The catalogue of relabelled findings is the relabelled catalogue of the findings. -/
theorem relabel_ofFindings (component : Classifier) (found : List Finding) :
    (ofFindings component found).relabel ρ
      = ofFindings (ρ.classifier component) (found.map (·.relabel ρ)) := by
  have hfold : ∀ c : Catalogue, (found.foldl enter c).relabel ρ
      = (found.map (·.relabel ρ)).foldl enter (c.relabel ρ) := by
    induction found with
    | nil =>
      intro c
      rfl
    | cons x found ih =>
      intro c
      rw [List.foldl_cons, ih, relabel_enter]
      rfl
  exact hfold { component }

variable (c : Catalogue)

/-- The owner of a scope may be looked up before the handles are replaced or after. -/
theorem ownerOf?_relabel (scope : TypeExpr) :
    (c.relabel ρ).ownerOf? scope = (c.ownerOf? scope).map (·.relabel ρ) := by
  rw [ownerOf?, ownerOf?, relabel, List.find?_map]
  rfl

/-- The component's own scope may be looked up before the handles are replaced or after. -/
theorem ownScope?_relabel : (c.relabel ρ).ownScope? = c.ownScope?.map (·.relabel ρ) := by
  rw [ownScope?, ownScope?, relabel, List.find?_map]
  rfl

/-- A requirement may be looked up before the handles are replaced or after. -/
theorem requirementBinding_relabel (key : Key) (skipOwn : Bool) :
    (c.relabel ρ).requirementBinding key skipOwn
      = (c.requirementBinding key skipOwn).map (·.relabel ρ) := by
  have hlookup : (c.relabel ρ).requirements.lookup key
      = (c.requirements.lookup key).map (·.relabel ρ) := lookup_map _ key c.requirements
  rw [requirementBinding, requirementBinding, hlookup]
  cases skipOwn with
  | true => rfl
  | false => cases c.requirements.lookup key <;> rfl

/-- A key has the relabelled binding in the relabelled catalogue, if that goes for constructors,
which are looked up in the program. -/
theorem resolve_relabel {m m' : Model} {o : Options} {key : Key}
    (hconstructs : (c.relabel ρ).constructorBinding m' o key.type
      = (c.constructorBinding m o key.type).map (Option.map (·.relabel ρ))) (skipOwn : Bool) :
    (c.relabel ρ).resolve m' o key skipOwn
      = (c.resolve m o key skipOwn).map (Option.map (·.relabel ρ)) := by
  have hbindings : (c.relabel ρ).bindings.lookup key
      = (c.bindings.lookup key).map (·.relabel ρ) := lookup_map _ key c.bindings
  have hcontainers : (c.relabel ρ).containers.lookup key
      = (c.containers.lookup key).map (·.relabel ρ) := lookup_map _ key c.containers
  rw [resolve, resolve, hbindings, hcontainers, requirementBinding_relabel, hconstructs]
  cases c.bindings.lookup key with
  | some p => rfl
  | none =>
    cases c.containers.lookup key with
    | some k => rfl
    | none =>
      cases key.qualifier with
      | some q => rfl
      | none =>
        rcases c.constructorBinding m o key.type with e | _ | b <;> rfl

end Catalogue

namespace Collect

variable (o : Options) (l : Level) (f : Callable)

/-- What keeps a replaced member is what kept the member, replaced. -/
theorem memberScope_relabel :
    memberScope o (l.relabel ρ) (ρ.callable f) = (memberScope o l f).map (·.relabel ρ) := by
  rw [memberScope, memberScope, ρ.annotations_callable]
  cases Role.scope? o f.annotations with
  | none => rfl
  | some scope =>
    obtain ⟨component, accessor, owner⟩ := l
    cases owner with
    | none => rfl
    | some owner =>
      dsimp only [Level.relabel, Option.map, ScopeOwner.relabel]
      split <;> rfl

/-- What is wrong with the scope of a replaced member is what was wrong before, replaced. -/
theorem scopeProblems_relabel :
    scopeProblems o (l.relabel ρ) (ρ.callable f) = (scopeProblems o l f).map (·.relabel ρ) := by
  rw [scopeProblems, scopeProblems, ρ.annotations_callable, memberScope_relabel,
    ρ.element_callable]
  cases Role.scope? o f.annotations with
  | none => rfl
  | some scope => cases memberScope o l f <;> rfl

/-- What a replaced member contributes is what the member contributed, replaced. -/
theorem contribution_relabel (returns : TypeExpr) :
    contribution o (l.relabel ρ) (ρ.callable f) returns
      = (contribution o l f returns).relabel ρ := by
  have hset : Role.isIntoSet (ρ.callable f) = Role.isIntoSet f := by
    rw [Role.isIntoSet, Role.isIntoSet, ρ.annotations_callable]
  have hmap : Role.isIntoMap (ρ.callable f) = Role.isIntoMap f := by
    rw [Role.isIntoMap, Role.isIntoMap, ρ.annotations_callable]
  simp only [contribution, ρ.annotations_callable, ρ.element_callable, hset, hmap,
    memberScope_relabel]
  split
  · rfl
  · split
    · cases pairArguments? returns <;> rfl
    · rfl

end Collect

end Wiring
