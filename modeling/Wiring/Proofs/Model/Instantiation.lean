import Wiring.Proofs.Model.Ancestry
import Wiring.Proofs.Model.Walks
import Wiring.Proofs.Type.Replacement

/-!
# Generic ancestors put in place

The program in which the generic ancestors of a class give way to copies without type parameters:
wherever the signature of a member names a type parameter, the copy has what the class supplies for
it. A copy stands at the place of the original and differs from it in type parameters and members
alone, so names, supertypes, constructors and annotations are found as before, and every walk goes
the same way.
-/

namespace Wiring

/-- A parameter with bound type parameters replaced in its type. -/
def ParamDecl.instantiate (b : Bindings) (p : ParamDecl) : ParamDecl :=
  { p with type := p.type.substitute b }

/-- A member with bound type parameters replaced wherever its signature names them. -/
def MemberDecl.instantiate (b : Bindings) (d : MemberDecl) : MemberDecl :=
  { d with
    params := d.params.map (·.instantiate b)
    receiver := d.receiver.map (·.substitute b)
    returns := d.returns.substitute b }

/-- A class without type parameters, in whose members they are replaced. -/
def ClassDecl.instantiate (b : Bindings) (d : ClassDecl) : ClassDecl :=
  { d with typeParameters := [], members := d.members.map (·.instantiate b) }

namespace Classifier

/-- A class without what it says about its members. -/
def outline (c : Classifier) : Classifier :=
  { c with decl := { c.decl with typeParameters := [], members := [] } }

/-- The copy of the class `d` in which its type parameters give way to what `c` supplies for them,
when `d` is `c` or one of its ancestors; otherwise `d` itself. -/
def instantiatedFor (m : Model) (d c : Classifier) : Classifier :=
  match c.supplied m d.index with
  | some b => { d with decl := d.decl.instantiate b }
  | none => d

end Classifier

/-- The program in which each ancestor of `c` is replaced by its copy for `c`. -/
def Model.instantiated (m : Model) (c : Classifier) : Model where
  declarations :=
    { m.declarations with classes := m.classifiers.map fun d => (d.instantiatedFor m c).decl }

namespace Classifier

variable (m : Model) (c d : Classifier)

/-- A copy differs from the class in what it says about its members alone. -/
theorem outline_instantiatedFor : (d.instantiatedFor m c).outline = d.outline := by
  rw [instantiatedFor]
  cases c.supplied m d.index <;> rfl

/-- What a class without its members tells is the same of a copy. -/
theorem eq_of_outline {α : Type} {g : Classifier → α} (hg : ∀ d : Classifier, g d.outline = g d) :
    g (d.instantiatedFor m c) = g d := by
  rw [← hg, outline_instantiatedFor, hg]

/-- A copy stands at the place of its class. -/
@[simp] theorem index_instantiatedFor : (d.instantiatedFor m c).index = d.index :=
  eq_of_outline m c d (g := (·.index)) fun _ => rfl

/-- A copy is a companion if its class is one. -/
@[simp] theorem isCompanion_instantiatedFor :
    (d.instantiatedFor m c).isCompanion = d.isCompanion :=
  eq_of_outline m c d (g := (·.isCompanion)) fun _ => rfl

/-- A copy has the path of its class. -/
@[simp] theorem path_instantiatedFor : (d.instantiatedFor m c).path = d.path :=
  eq_of_outline m c d (g := (·.path)) fun _ => rfl

/-- A copy has the qualified name of its class. -/
@[simp] theorem qualifiedName_instantiatedFor :
    (d.instantiatedFor m c).decl.qualifiedName = d.decl.qualifiedName :=
  eq_of_outline m c d (g := (·.decl.qualifiedName)) fun _ => rfl

/-- A copy has the supertypes of its class. -/
@[simp] theorem superTypes_instantiatedFor :
    (d.instantiatedFor m c).superTypes = d.superTypes :=
  eq_of_outline m c d (g := (·.superTypes)) fun _ => rfl

/-- A copy is declared with the supertypes of its class. -/
@[simp] theorem decl_superTypes_instantiatedFor :
    (d.instantiatedFor m c).decl.superTypes = d.decl.superTypes :=
  eq_of_outline m c d (g := (·.decl.superTypes)) fun _ => rfl

/-- A copy is declared with the constructor of its class. -/
@[simp] theorem decl_constructor_instantiatedFor :
    (d.instantiatedFor m c).decl.constructor = d.decl.constructor :=
  eq_of_outline m c d (g := (·.decl.constructor)) fun _ => rfl

/-- A copy has the annotations of its class. -/
theorem annotations_instantiatedFor :
    (d.instantiatedFor m c).annotations (m.instantiated c) = d.annotations m :=
  eq_of_outline m c d (g := (·.annotations m)) fun _ => rfl

/-- A copy has the constructor of its class. -/
theorem constructor?_instantiatedFor :
    (d.instantiatedFor m c).constructor? (m.instantiated c) = d.constructor? m :=
  eq_of_outline m c d (g := (·.constructor? m)) fun _ => rfl

end Classifier

namespace Model

variable (m : Model) (c : Classifier)

/-- A look-up among copies finds the copy of what a look-up among the originals finds. -/
theorem lastNamed_instantiatedFor (name : String) : ∀ (classes : List ClassDecl) (start : Nat),
    lastNamed name start ((classes.zipIdx start).map fun e =>
        (Classifier.instantiatedFor m ⟨e.2, e.1, false⟩ c).decl)
      = (lastNamed name start classes).map (·.instantiatedFor m c) := by
  intro classes
  induction classes with
  | nil =>
    intro start
    rfl
  | cons d classes ih =>
    intro start
    have hcopy : (⟨start, (Classifier.instantiatedFor m ⟨start, d, false⟩ c).decl, false⟩
        : Classifier) = Classifier.instantiatedFor m ⟨start, d, false⟩ c := by
      rw [Classifier.instantiatedFor]
      cases c.supplied m start <;> rfl
    rw [List.zipIdx_cons, List.map_cons, lastNamed, lastNamed, ih,
      Classifier.qualifiedName_instantiatedFor]
    cases lastNamed name (start + 1) classes with
    | some found => rfl
    | none =>
      dsimp only [Option.map]
      by_cases hname : d.qualifiedName = name
      · rw [if_pos hname, if_pos hname, hcopy]
      · rw [if_neg hname, if_neg hname]

/-- By a name, the copy of the class is found that had been found before. -/
theorem classNamed_instantiated (name : String) : (m.instantiated c).classNamed name
    = (m.classNamed name).map (·.instantiatedFor m c) := by
  rw [classNamed, instantiated, classifiers, List.map_map]
  exact lastNamed_instantiatedFor m c name m.declarations.classes 0

/-- The class of a type is the copy of what it had been before. -/
theorem classOf_instantiated (t : TypeExpr) : (m.instantiated c).classOf t
    = (m.classOf t).map (·.instantiatedFor m c) :=
  classNamed_instantiated m c t.resolved.qualifiedName

/-- What does not depend on members adds up to the same over the copies. -/
theorem total_instantiated {w : ClassDecl → Nat} (hw : ∀ b d, w (d.instantiate b) = w d) :
    total w (m.instantiated c).declarations.classes = total w m.declarations.classes := by
  have hcopy : ∀ d : Classifier, w (d.instantiatedFor m c).decl = w d.decl := by
    intro d
    rw [Classifier.instantiatedFor]
    cases c.supplied m d.index with
    | none => rfl
    | some b => exact hw b d.decl
  simp only [instantiated, classifiers, total_map, hcopy, total_zipIdx]

/-- As many supertypes are written as before. -/
theorem superTypeCount_instantiated : (m.instantiated c).superTypeCount = m.superTypeCount :=
  total_instantiated m c fun _ _ => rfl

/-- As many constructor parameters are written as before. -/
theorem paramCount_instantiated : Arrival.paramCount (m.instantiated c) = Arrival.paramCount m :=
  total_instantiated m c fun _ _ => rfl

/-- Annotations are read as before. -/
theorem annotationsOf_instantiated (names : List String) :
    (m.instantiated c).annotationsOf names = m.annotationsOf names := rfl

/-- Parameters are read as before. -/
theorem paramsOf_instantiated (owner : String) (params : List ParamDecl) :
    (m.instantiated c).paramsOf owner params = m.paramsOf owner params := rfl

/-- The same functions are found by a name as before. -/
theorem functionsNamed_instantiated (package name : String) :
    (m.instantiated c).functionsNamed package name = m.functionsNamed package name := rfl

/-- The copy of a class of the program is a class of the copied program. -/
theorem mem_classifiers_instantiated {d : Classifier} (h : d ∈ m.classifiers) :
    d.instantiatedFor m c ∈ (m.instantiated c).classifiers := by
  obtain ⟨hdecl, hcompanion⟩ := mem_classifiers.1 h
  refine mem_classifiers.2 ⟨?_, ?_⟩
  · have hself : m.classifiers[d.index]? = some d := by
      rw [classifiers, List.getElem?_map, List.getElem?_zipIdx, hdecl]
      simp [← hcompanion]
    rw [Classifier.index_instantiatedFor, instantiated, List.getElem?_map, hself]
    rfl
  · rw [Classifier.isCompanion_instantiatedFor, hcompanion]

end Model

namespace Classifier

variable (m : Model) (c d : Classifier)

/-- The superclasses of a copy are the copies of the superclasses. -/
theorem superClasses_instantiated : (d.instantiatedFor m c).superClasses (m.instantiated c)
    = (d.superClasses m).map (·.instantiatedFor m c) := by
  rw [superClasses, superClasses, superTypes_instantiatedFor, List.map_filterMap]
  exact congrArg (List.filterMap · _) (funext (Model.classOf_instantiated m c))

/-- The chain of a copy has the copies of the classes of the chain. -/
theorem chain_instantiated : (d.instantiatedFor m c).chain (m.instantiated c)
    = (d.chain m).map (·.instantiatedFor m c) := by
  have hstart : [d.instantiatedFor m c] = [d].map (·.instantiatedFor m c) := rfl
  rw [chain, chain, Model.superTypeCount_instantiated, superTypes_instantiatedFor, hstart]
  exact Walk.preorder_map (P := fun _ => True) (fun _ _ _ _ => trivial)
    (fun a _ => path_instantiatedFor m c a) (fun a _ => superClasses_instantiated m c a)
    (fun _ _ => trivial)

end Classifier

namespace Model

variable (m : Model) (c : Classifier)

/-- Supertypes stay as they are written, so the same values can be used in the same places. -/
theorem isAssignable_instantiated (target source : TypeExpr) :
    (m.instantiated c).isAssignable target source = m.isAssignable target source := by
  rw [isAssignable, isAssignable, classOf_instantiated]
  cases m.classOf source with
  | none => rfl
  | some d =>
    have hsuper : ∀ a : Classifier, (a.instantiatedFor m c).superTypes.contains target.nonNull
        = a.superTypes.contains target.nonNull := fun a =>
      congrArg (·.contains target.nonNull) (Classifier.superTypes_instantiatedFor m c a)
    simp only [Option.map_some, Option.elim, Classifier.chain_instantiated, List.any_map,
      Function.comp_def, hsuper]

/-- A copy may be injected if its class may. -/
theorem isInjectClass_instantiated (o : Options) (d : Classifier) :
    Role.isInjectClass (m.instantiated c) o (d.instantiatedFor m c) = Role.isInjectClass m o d := by
  rw [Role.isInjectClass, Role.isInjectClass, Classifier.annotations_instantiatedFor,
    Classifier.constructor?_instantiatedFor]

/-- The scopes of a chain stand on the copies of the classes that they stand on. -/
theorem scopedAncestors_instantiated (o : Options) (d : Classifier) :
    Role.scopedAncestors (m.instantiated c) o (d.instantiatedFor m c)
      = (Role.scopedAncestors m o d).map fun n => (n.1.instantiatedFor m c, n.2) := by
  rw [Role.scopedAncestors, Role.scopedAncestors, Classifier.chain_instantiated,
    List.filterMap_map, List.map_filterMap]
  refine congrArg (List.filterMap · _) (funext fun a => ?_)
  rw [Function.comp, Classifier.annotations_instantiatedFor, Option.map_map]
  rfl

end Model

namespace Arrival

/-- The arrival at the copy of the component. -/
def instantiatedFor (m : Model) (a : Arrival) (c : Classifier) : Arrival :=
  { a with component := a.component.map (·.instantiatedFor m c) }

/-- The walk from a copy arrives at copies, by the same paths. -/
theorem walk_instantiated (m : Model) (c d : Classifier) :
    walk (m.instantiated c) (d.instantiatedFor m c)
      = (walk m d).map fun n => (n.1.instantiatedFor m c, n.2) := by
  have hparams : ∀ a : Classifier, componentParams (m.instantiated c) (a.instantiatedFor m c)
      = componentParams m a := by
    intro a
    rw [componentParams, componentParams, Classifier.constructor?_instantiatedFor]
  have hstart : [start (d.instantiatedFor m c)] = [start d].map (·.instantiatedFor m c) := rfl
  rw [walk, walk, Model.paramCount_instantiated, Classifier.decl_constructor_instantiatedFor,
    hstart]
  refine Walk.meetings_map (P := fun _ => True) ?_ ?_ ?_ _ _ _ ?_
  · exact fun _ _ _ _ => trivial
  · intro a _
    cases hcomponent : a.component with
    | none => simp [instantiatedFor, hcomponent]
    | some e => simp [instantiatedFor, hcomponent]
  · intro a _
    cases hcomponent : a.component with
    | none => simp [onward, instantiatedFor, hcomponent]
    | some e =>
      simp [onward, instantiatedFor, hcomponent, hparams, Model.classOf_instantiated]
  · exact fun _ _ => trivial

end Arrival

namespace Classifier

variable {m : Model} {c d : Classifier}

/-- Types are supplied for the class at a place exactly if the class is gone through. -/
theorem isSome_supplied_iff {index : Nat} : (c.supplied m index).isSome = true
    ↔ ∃ n ∈ c.instantiations m, n.1.index = index := by
  rw [supplied, Option.isSome_map, List.find?_isSome]
  simp only [beq_iff_eq]

/-- The classes that are gone through are classes of the program. -/
theorem mem_classifiers_of_mem_instantiations (hc : c ∈ m.classifiers)
    {n : Classifier × Bindings} (h : n ∈ c.instantiations m) : n.1 ∈ m.classifiers := by
  refine Walk.forall_mem_preorder (P := fun n => n.1 ∈ m.classifiers)
    (fun _ _ _ hb => mem_classifiers_of_mem_boundSupers hb) ?_ n h
  intro a ha
  rw [List.mem_singleton.1 ha]
  exact hc

/-- What is supplied for a class is supplied for every class that its supertypes name. -/
theorem isSome_supplied_of_classOf (hc : c ∈ m.classifiers) (hd : d ∈ m.classifiers)
    (hs : (c.supplied m d.index).isSome = true) {t : TypeExpr} (ht : t ∈ d.decl.superTypes)
    {s : Classifier} (hclass : m.classOf t = some s) :
    (c.supplied m s.index).isSome = true := by
  obtain ⟨⟨d', b⟩, hn, hindex⟩ := isSome_supplied_iff.1 hs
  obtain rfl := Model.eq_of_index (mem_classifiers_of_mem_instantiations hc hn) hd hindex
  have hnext : (s, Model.bind s (t.resolved.arguments.map (TypeExpr.substitute b)))
      ∈ d'.boundSupers m b := by
    rw [boundSupers, List.mem_reverse]
    exact List.mem_filterMap.2 ⟨t, ht, by rw [hclass]; rfl⟩
  obtain ⟨ms, hruns, hall⟩ := instantiations_run m c
  rw [hall] at hn
  rw [isSome_supplied_iff, hall]
  rcases hruns.closed.2 (d', b) hn _ hnext with hseen | hentered
  · exact absurd hseen List.not_mem_nil
  · exact List.mem_map.1 hentered

/-- The bindings of an ancestor once it is replaced by its copy for `c`, if it has one: a copy has
no type parameters. -/
def keptBindings (m : Model) (c : Classifier) (index : Nat) (b : Bindings) : Bindings :=
  if (c.supplied m index).isSome then [] else b

/-- The supertypes of a copy are the copies of the supertypes of the class. -/
theorem boundSupers_instantiated (hc : c ∈ m.classifiers) (hd : d ∈ m.classifiers) (b : Bindings) :
    (d.instantiatedFor m c).boundSupers (m.instantiated c) (keptBindings m c d.index b)
      = (d.boundSupers m b).map fun n =>
          (n.1.instantiatedFor m c, keptBindings m c n.1.index n.2) := by
  rw [boundSupers, boundSupers, decl_superTypes_instantiatedFor, List.map_reverse,
    List.map_filterMap]
  refine congrArg List.reverse (List.filterMap_congr fun t ht => ?_)
  rw [Model.classOf_instantiated]
  cases hclass : m.classOf t with
  | none => rfl
  | some s =>
    dsimp only [Option.map]
    cases hs : c.supplied m s.index with
    | some b' => simp [instantiatedFor, keptBindings, hs, Model.bind, ClassDecl.instantiate]
    | none =>
      -- A class for which nothing is supplied is named by none for which something is.
      have hnone : c.supplied m d.index = none := by
        rw [← Option.not_isSome_iff_eq_none]
        intro hsome
        have := isSome_supplied_of_classOf hc hd hsome ht hclass
        rw [hs] at this
        cases this
      simp [instantiatedFor, keptBindings, hs, hnone]

/-- A copy supplies what the class supplies, but nothing for other copies. -/
theorem supplied_instantiated (hc : c ∈ m.classifiers) (hd : d ∈ m.classifiers) (index : Nat) :
    (d.instantiatedFor m c).supplied (m.instantiated c) index
      = (d.supplied m index).map (keptBindings m c index) := by
  have hall : (d.instantiatedFor m c).instantiations (m.instantiated c)
      = (d.instantiations m).map fun n =>
          (n.1.instantiatedFor m c, keptBindings m c n.1.index n.2) := by
    have hstart : [(d.instantiatedFor m c, ([] : Bindings))]
        = [(d, ([] : Bindings))].map fun n =>
            (n.1.instantiatedFor m c, keptBindings m c n.1.index n.2) := by
      rw [List.map_singleton, keptBindings, ite_self]
    rw [instantiations, instantiations, Model.superTypeCount_instantiated,
      decl_superTypes_instantiatedFor, hstart]
    refine Walk.preorder_map (P := fun n => n.1 ∈ m.classifiers) ?_ ?_ ?_ ?_
    · exact fun _ _ _ hb => mem_classifiers_of_mem_boundSupers hb
    · exact fun n _ => index_instantiatedFor m c n.1
    · exact fun n hn => boundSupers_instantiated hc hn n.2
    · intro n hn
      rw [List.mem_singleton.1 hn]
      exact hd
  have hindex : (fun n : Classifier × Bindings => n.1.index == index)
      ∘ (fun n : Classifier × Bindings =>
          (n.1.instantiatedFor m c, keptBindings m c n.1.index n.2))
      = fun n => n.1.index == index :=
    funext fun n => congrArg (· == index) (index_instantiatedFor m c n.1)
  rw [supplied, supplied, hall, List.find?_map, hindex]
  cases hfind : (d.instantiations m).find? fun n => n.1.index == index with
  | none => rfl
  | some n =>
    have hn : n.1.index = index := by simpa using List.find?_some hfind
    simp only [Option.map_some, hn]

end Classifier

end Wiring
