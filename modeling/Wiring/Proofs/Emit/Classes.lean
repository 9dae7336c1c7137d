import Mathlib.Data.List.Forall2
import Wiring.Emit.File
import Wiring.Proofs.Layout.Printed

/-!
# Generated classes

What the class that is generated for a component consists of: the supertypes it names and the
members it overrides, which are the requirements that are planned and, where the component has a
scope, the cache. All of it stands in the text of the file.
-/

namespace Wiring.Emit

open Text

variable {m : Model} {o : Options} {c : Classifier} {p : ComponentPlan}

/-- A member of a generated class that overrides one of its supertypes. It has no receiver and no
parameters. -/
structure Override where
  kind : MemberKind
  isSuspend : Bool
  name : String
  /-- The type of its value, as it is written. -/
  returns : String
  deriving DecidableEq, Repr

/-- The text that the declaration of an override begins with. -/
def Override.signature (v : Override) : String :=
  match v.kind with
  | .property => "override val " ++ v.name ++ ": " ++ v.returns
  | .function =>
    "override " ++ (if v.isSuspend then "suspend " else "") ++ "fun " ++ v.name ++ "(): "
      ++ v.returns

/-- The override that is the cache of a component with a scope. -/
def cacheOverride : Override := ⟨.property, false, "_scoped", lazyMap⟩

/-- The override that implements a requirement whose type is written as given. -/
def requirementOverride (f : Callable) (returns : String) : Override :=
  ⟨f.kind, f.kind == .function && f.isSuspend, f.name, returns⟩

/-- What the class generated for a plan overrides. -/
def overrides (p : ComponentPlan) : List Override :=
  (if p.scope.isSome then [cacheOverride] else [])
    ++ p.providers.map fun r => requirementOverride r.callable r.returns.sourceText

/-- The secondary constructors of a generated class. -/
def secondaryConstructors (params : List Param) : List Doc :=
  let required := params.filter (!·.hasDefault)
  if required.length ≠ params.length then
    [secondaryConstructor params (names params),
      secondaryConstructor required
        (", ".intercalate (required.map fun p => p.name ++ " = " ++ p.name))]
  else []

/-- A document declares an override: its first text begins with the signature. -/
def Declares (v : Override) (d : Doc) : Prop :=
  ∃ rest, d = .text (v.signature ++ rest) ∨
    ∃ ds, d = .concat (.text (v.signature ++ rest) :: ds)

/-- A document that declares a member shows its signature. -/
theorem Declares.shows {v : Override} {d : Doc} (h : Declares v d) : d.Shows v.signature := by
  obtain ⟨rest, h | ⟨ds, h⟩⟩ := h
  · rw [h]
    exact (Doc.shows_text _).of_append
  · rw [h]
    exact (Doc.shows_text _).of_append.concat (List.mem_cons_self ..)

/-- A requirement is implemented by a member that declares the override of it. -/
theorem declares_member (r : ProviderPlan) :
    Declares (requirementOverride r.callable r.returns.sourceText) (member r) := by
  rw [member, Declares, Override.signature, requirementOverride]
  cases r.callable.kind with
  | property => exact ⟨"", .inr ⟨_, by rw [String.append_empty]⟩⟩
  | function => exact ⟨" = ", .inr ⟨_, by simp only [String.append_assoc]; rfl⟩⟩

/-- Beside secondary constructors, the members of a generated class are its overrides, in order. -/
theorem members_eq (params : List Param) (p : ComponentPlan) :
    ∃ ds, members params p = secondaryConstructors params ++ ds ∧
      List.Forall₂ Declares (overrides p) ds := by
  refine ⟨_, List.append_assoc .., List.rel_append ?_ ?_⟩
  · split
    · exact .cons ⟨" = " ++ lazyMap ++ "()", .inl rfl⟩ .nil
    · exact .nil
  · rw [List.forall₂_map_left_iff, List.forall₂_map_right_iff]
    exact List.forall₂_same.2 fun r _ => declares_member r

/-- Every override is declared by a member of the generated class. -/
theorem exists_declares_of_mem {params : List Param} {v : Override} (h : v ∈ overrides p) :
    ∃ d ∈ members params p, Declares v d := by
  obtain ⟨ds, hds, hdeclares⟩ := members_eq params p
  obtain ⟨i, hi, rfl⟩ := List.mem_iff_getElem.1 h
  have hi' : i < ds.length := hdeclares.length_eq ▸ hi
  rw [hds]
  exact ⟨ds[i], List.mem_append_right _ (List.getElem_mem hi'), hdeclares.get hi hi'⟩

section Shown

/-- The supertype of a generated class, with the arguments of its constructor. A class with
secondary constructors passes them on there. -/
def superCall (m : Model) (c : Classifier) : String :=
  let params := constructorParams m c
  if c.isInterface || params.any (·.hasDefault) then c.type.sourceText
  else c.type.sourceText ++ "(" ++ names params ++ ")"

/-- A document is still there when blank lines are put between documents. -/
theorem mem_spaced {d : Doc} : ∀ {ds : List Doc}, d ∈ ds → d ∈ spaced ds
  | [e], h => by
    rw [List.mem_singleton.1 h]
    exact List.mem_cons_of_mem _ (List.mem_cons_self ..)
  | e :: e' :: ds, h => by
    rw [spaced]
    rcases List.mem_cons.1 h with rfl | h
    · exact List.mem_cons_of_mem _ (List.mem_cons_self ..)
    · exact List.mem_cons_of_mem _ (List.mem_cons_of_mem _ (List.mem_cons_of_mem _ (mem_spaced h)))
    · simp

/-- What a member of a generated class shows is shown by the class. -/
theorem shows_componentClass_of_mem {name s : String} {d : Doc}
    (hd : d ∈ members (constructorParams m p.component) p) (hs : d.Shows s) :
    (componentClass m name p).Shows s := by
  rw [componentClass]
  split
  · next hnil =>
    rw [hnil] at hd
    exact absurd hd List.not_mem_nil
  · refine (hs.concat (mem_spaced hd)).indent.concat ?_
    exact List.mem_append_right _ (List.mem_cons_of_mem _ (List.mem_cons_self ..))

/-- The class of a component with a scope implements the interface of those that have a cache. -/
theorem shows_scopedComponent {name : String} (h : p.scope.isSome = true) :
    (componentClass m name p).Shows
      (" : " ++ superCall m p.component ++ ", " ++ scopedComponent ++ " \x7b") := by
  rw [componentClass]
  split
  · next hnil =>
    rw [members, if_pos h] at hnil
    exact absurd (List.append_eq_nil_iff.1 (List.append_eq_nil_iff.1 hnil).1).2
      (List.cons_ne_nil _ _)
  · have hjoined : " : " ++ superCall m p.component ++ ", " ++ scopedComponent ++ " \x7b"
        = Text.joined [" : ", superCall m p.component, ", " ++ scopedComponent, " \x7b"] := by
      simp only [Text.joined, String.append_assoc, String.append_empty]
    have hsplit : ∀ (start rest : List Doc) (a b c d : Doc),
        start ++ [a, b] ++ [c] ++ (d :: rest) = start ++ [a, b, c, d] ++ rest := by
      intro start rest a b c d
      simp only [List.append_assoc, List.cons_append, List.nil_append]
    rw [hjoined, if_pos h]
    exact Doc.shows_texts (hsplit _ _ _ _ _ _)

/-- What the generated class of a component shows stands in its file. -/
theorem contains_generate {s : String}
    (h : (componentClass m (generatedName c) (Component.plan m o c)).Shows s) :
    Contains (generate m o c).file.contents s := by
  refine Doc.Shows.contains_render (h.concat ?_)
  exact List.mem_append_left _ (List.mem_append_right _ (List.mem_cons_self ..))

end Shown

end Wiring.Emit
