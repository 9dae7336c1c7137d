import Wiring.Proofs.Catalogue.Relabelling
import Wiring.Proofs.Model.Signatures

/-!
# Catalogues in outline

What resolution makes use of in a catalogue: members without their result types, which the keys
have, classes without their members, and elements without their texts. A catalogue is filled and
looked up in outline as it is in full, so two catalogues with one outline answer alike.
-/

namespace Wiring

/-- The owner of a scope, its class in outline. -/
def ScopeOwner.outline (s : ScopeOwner) : ScopeOwner :=
  { s with component := s.component.outline }

/-- A provider with its member and its scope in outline. -/
def Provider.outline (p : Provider) : Provider :=
  { p with callable := p.callable.outline, scope := p.scope.map (·.outline) }

/-- A collection with its contributors in outline. -/
def Container.outline (c : Container) : Container :=
  { c with parts := c.parts.map (·.outline), scope := c.scope.map (·.outline) }

/-- A binding in outline. A constructor stays as it is. -/
def Binding.outline : Binding → Binding
  | constructor k scope => .constructor k (scope.map (·.outline))
  | provider p => .provider p.outline
  | container c => .container c.outline

/-- A diagnostic without the text of its element. -/
def Diagnostic.outline (d : Diagnostic) : Diagnostic :=
  { d with element := d.element.map (·.outline) }

/-- A finding in outline. -/
def Finding.outline : Finding → Finding
  | owner o => .owner o.outline
  | binding key p => .binding key p.outline
  | part builder key p => .part builder key p.outline
  | requirement key p => .requirement key p.outline
  | problem d => .problem d.outline

/-- Outlines as other labels. -/
def Relabelling.outlining : Relabelling where
  classifier := (·.outline)
  constructor := id
  callable := (·.outline)
  element := (·.outline)
  element_callable _ := rfl
  annotations_callable _ := rfl

namespace Catalogue

/-- A catalogue in outline. -/
def outline (c : Catalogue) : Catalogue where
  component := c.component.outline
  owners := c.owners.map (·.outline)
  bindings := c.bindings.map fun e => (e.1, e.2.outline)
  containers := c.containers.map fun e => (e.1, e.2.outline)
  requirements := c.requirements.map fun e => (e.1, e.2.outline)
  requirementMembers := c.requirementMembers.map (·.outline)
  diagnostics := c.diagnostics.map (·.outline)

/-- The catalogue of findings in outline is the outline of their catalogue. -/
theorem outline_ofFindings (component : Classifier) (found : List Finding) :
    (ofFindings component found).outline
      = ofFindings component.outline (found.map (·.outline)) :=
  relabel_ofFindings .outlining component found

section Lookup

variable (m : Model) (o : Options) (c : Catalogue)

/-- The outline of a catalogue names the outline of its own scope. -/
theorem ownScope?_outline : c.outline.ownScope? = c.ownScope?.map (·.outline) :=
  ownScope?_relabel .outlining c

/-- The outline of a catalogue binds a type to the outline of its constructor. -/
theorem constructorBinding_outline (t : TypeExpr) : c.outline.constructorBinding m o t
    = (c.constructorBinding m o t).map (Option.map (·.outline)) := by
  rw [constructorBinding, constructorBinding]
  cases m.classOf t with
  | none => rfl
  | some cls =>
    dsimp only
    split
    · cases cls.constructor? m with
      | none => rfl
      | some k =>
        dsimp only
        cases Role.scope? o (cls.annotations m) with
        | none => rfl
        | some scope =>
          dsimp only
          have howner : c.outline.ownerOf? scope = (c.ownerOf? scope).map (·.outline) :=
            ownerOf?_relabel .outlining c scope
          rw [howner]
          cases c.ownerOf? scope <;> rfl
    · rfl

/-- A key is looked up in outline as it is in full. -/
theorem resolve_outline (key : Key) (skipOwn : Bool) : c.outline.resolve m o key skipOwn
    = (c.resolve m o key skipOwn).map (Option.map (·.outline)) :=
  resolve_relabel .outlining c (constructorBinding_outline m o c key.type) skipOwn

end Lookup

end Catalogue

namespace Collect

variable (m : Model) (o : Options)

/-- A level with its component and the owner of its scope in outline. -/
def Level.outline (l : Level) : Level :=
  { l with component := l.component.outline, scope := l.scope.map (·.outline) }

/-- Two levels find alike at members that look alike, have one result type and are of one use. -/
theorem memberFindings_of_outline {m m' : Model} {l l' : Level} {f f' : Callable}
    (hl : l'.outline = l.outline) (hf : f'.outline = f.outline)
    (hreturns : f'.returnsFor m' l'.component = f.returnsFor m l.component)
    (hprovider : Role.isProvider f' = Role.isProvider f) :
    (memberFindings m' o l' f').map (·.outline) = (memberFindings m o l f).map (·.outline) := by
  have hprovides : Role.isProvides f' = Role.isProvides f := (congrArg Role.isProvides hf :)
  have hprivate : f'.isPrivate = f.isPrivate := (congrArg Callable.isPrivate hf :)
  have hname : f'.name = f.name := (congrArg Callable.name hf :)
  have helement : f'.element.outline = f.element.outline := (congrArg Callable.element hf :)
  have hannotations : f'.annotations = f.annotations := (congrArg Callable.annotations hf :)
  have haccessor : l'.accessor = l.accessor := (congrArg Level.accessor hl :)
  have hproblems : (scopeProblems o l' f').map (·.outline)
      = (scopeProblems o l f).map (·.outline) := by
    have houtline : ∀ (l : Level) (f : Callable),
        scopeProblems o l.outline f.outline = (scopeProblems o l f).map (·.outline) :=
      scopeProblems_relabel .outlining o
    rw [← houtline, ← houtline, hl, hf]
  have hcontribution : ∀ t, (contribution o l' f' t).outline = (contribution o l f t).outline := by
    intro t
    have houtline : ∀ (l : Level) (f : Callable),
        contribution o l.outline f.outline t = (contribution o l f t).outline :=
      fun l f => contribution_relabel .outlining o l f t
    rw [← houtline, ← houtline, hl, hf]
  rw [memberFindings, memberFindings, hprovides, hprovider]
  split
  · rw [providesFindings, providesFindings, hreturns, hprivate, hname]
    split
    · simp only [List.map_cons, List.map_nil, Finding.outline, Diagnostic.outline,
        Diagnostic.errorAt, Option.map_some, helement]
    · split
      · simp only [List.map_cons, List.map_nil, Finding.outline, Diagnostic.outline,
          Diagnostic.errorAt, Option.map_some, helement]
      · rw [List.map_append, List.map_append, hproblems, List.map_singleton, List.map_singleton,
          hcontribution]
  · split
    · rw [hreturns, hannotations, haccessor]
      dsimp only
      cases l.accessor <;>
        simp only [List.map_cons, List.map_nil, Finding.outline, Provider.outline, Option.map_none,
          hf]
    · rfl

end Collect

end Wiring
