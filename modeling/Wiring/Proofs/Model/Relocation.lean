import Mathlib.Data.List.Find
import Wiring.Proofs.Model.Instantiation
import Wiring.Proofs.Type.Parts

/-!
# Classes at other places

A class is referred to by its place among the declared classes. Where the classes of a program
stand at other places in a second program, which may declare more than the first ever names, every
walk through the second meets what the walk through the first meets, at its place there: ancestors,
members, what supertypes supply for type parameters, and components in reach.
-/

namespace Wiring

/-- The types that a member is written with. -/
def MemberDecl.written (d : MemberDecl) : List TypeExpr :=
  d.params.map (·.type) ++ d.receiver.toList ++ [d.returns]

/-- The types that a class is written with. -/
def ClassDecl.written (d : ClassDecl) : List TypeExpr :=
  d.superTypes ++ (d.constructor.elim [] (·.params)).map (·.type) ++ d.members.flatMap (·.written)

/-- The types that a top-level function is written with. -/
def FunctionDecl.written (f : FunctionDecl) : List TypeExpr := f.params.map (·.type) ++ [f.returns]

/-- The types that are written in a program. -/
def Model.written (m : Model) : List TypeExpr :=
  m.declarations.classes.flatMap (·.written) ++ m.declarations.functions.flatMap (·.written)

/-- The class at the place that its own is sent to. -/
def Classifier.relocate (place : Nat → Nat) (c : Classifier) : Classifier :=
  { c with index := place c.index }

/-- The origin of a callable, its class at another place. -/
def Origin.relocate (place : Nat → Nat) : Origin → Origin
  | member classIndex memberIndex => .member (place classIndex) memberIndex
  | function index => .function index

/-- A callable with its class at another place. -/
def Callable.relocate (place : Nat → Nat) (f : Callable) : Callable :=
  { f with origin := f.origin.relocate place }

/-- A constructor with its class at another place. -/
def Constructor.relocate (place : Nat → Nat) (k : Constructor) : Constructor :=
  { k with classIndex := place k.classIndex }

/-- The arrival at the component at another place. -/
def Arrival.relocate (place : Nat → Nat) (a : Arrival) : Arrival :=
  { a with component := a.component.map (·.relocate place) }

namespace Model

/-- The types and parts of types of `t` stand for the same classes in both programs, whose places
in the second program are given by `place`. -/
def SeenAlike (m m' : Model) (place : Nat → Nat) (t : TypeExpr) : Prop :=
  t.NamesOnly fun name => m'.classNamed name = (m.classNamed name).map (·.relocate place)

/-- The second program has the classes of the first, at places of its own. What else it declares
is out of sight of the first. -/
structure Relocates (m m' : Model) (place : Nat → Nat) : Prop where
  annotations : m'.declarations.annotations = m.declarations.annotations
  functions : m'.declarations.functions = m.declarations.functions
  /-- Every class of the first program is the one that its name stands for. -/
  named : ∀ c ∈ m.classifiers, m.classNamed c.path = some c
  /-- In the second program its name stands for it too. -/
  relocated : ∀ c ∈ m.classifiers, m'.classNamed c.path = some (c.relocate place)
  written : ∀ t ∈ m.written, m.SeenAlike m' place t

section Written

variable {m : Model} {c : Classifier}

/-- The supertypes of a class are written in the program. -/
theorem mem_written_of_superTypes (hc : c ∈ m.classifiers) {t : TypeExpr}
    (ht : t ∈ c.decl.superTypes) : t ∈ m.written :=
  List.mem_append_left _ (List.mem_flatMap.2 ⟨c.decl, decl_mem_of_mem_classifiers hc,
    List.mem_append_left _ (List.mem_append_left _ ht)⟩)

/-- The types of the parameters of a constructor are written in the program. -/
theorem mem_written_of_constructor? (hc : c ∈ m.classifiers) {k : Constructor}
    (hk : c.constructor? m = some k) {p : Param} (hp : p ∈ k.params) : p.type ∈ m.written := by
  rw [Classifier.constructor?] at hk
  split at hk
  · cases hk
  · obtain ⟨d, hd, rfl⟩ := Option.map_eq_some_iff.1 hk
    obtain ⟨q, hq, rfl⟩ := List.mem_map.1 hp
    refine List.mem_append_left _ (List.mem_flatMap.2 ⟨c.decl, decl_mem_of_mem_classifiers hc, ?_⟩)
    refine List.mem_append_left _ (List.mem_append_right _ ?_)
    rw [hd]
    exact List.mem_map_of_mem hq

/-- What a member is called with and what it results in is written in its declaration. -/
theorem mem_written_of_mem_callables {f : Callable} (hf : f ∈ m.callables) :
    f.returns ∈ m.written ∧ (∀ p ∈ f.params, p.type ∈ m.written) ∧
      ∀ t ∈ f.receiver, t ∈ m.written := by
  obtain ⟨c, hc, d, i, hd, rfl⟩ := exists_of_mem_callables hf
  have hmem : ∀ t ∈ d.written, t ∈ m.written := fun t ht =>
    List.mem_append_left _ (List.mem_flatMap.2 ⟨c.decl, decl_mem_of_mem_classifiers hc,
      List.mem_append_right _ (List.mem_flatMap.2 ⟨d, List.mem_of_getElem? hd, ht⟩)⟩)
  refine ⟨hmem _ (List.mem_append_right _ (List.mem_singleton.2 rfl)), fun p hp => ?_,
    fun t ht => ?_⟩
  · rw [Classifier.memberAt] at hp
    dsimp only at hp
    split at hp
    · obtain ⟨q, hq, rfl⟩ := List.mem_map.1 hp
      exact hmem _ (List.mem_append_left _ (List.mem_append_left _ (List.mem_map_of_mem hq)))
    · exact absurd hp List.not_mem_nil
  · exact hmem t (List.mem_append_left _ (List.mem_append_right _ (Option.mem_toList.2 ht)))

/-- The types of the parameters of a function are written in the program. -/
theorem mem_written_of_mem_functions {f : Callable} (hf : f ∈ m.functions) {p : Param}
    (hp : p ∈ f.params) : p.type ∈ m.written := by
  obtain ⟨d, i, hd, rfl⟩ := exists_of_mem_functions hf
  obtain ⟨q, hq, rfl⟩ := List.mem_map.1 hp
  exact List.mem_append_right _ (List.mem_flatMap.2 ⟨d, List.mem_of_getElem? hd,
    List.mem_append_left _ (List.mem_map_of_mem hq)⟩)

end Written

/-- A type that is seen alike stands for the class of the other program that it stood for in this
one. -/
theorem SeenAlike.classOf {m m' : Model} {place : Nat → Nat} {t : TypeExpr}
    (h : m.SeenAlike m' place t) : m'.classOf t = (m.classOf t).map (·.relocate place) :=
  TypeExpr.NamesOnly.self h

namespace Relocates

variable {m m' : Model} {place : Nat → Nat} {c d : Classifier} {t : TypeExpr}

/-- A class of the first program is one of the second, where it is moved to. -/
theorem mem_classifiers (h : m.Relocates m' place) (hc : c ∈ m.classifiers) :
    c.relocate place ∈ m'.classifiers :=
  (mem_classifiers_of_classNamed (h.relocated c hc)).1

/-- No two classes are sent to one place. -/
theorem eq_of_place (h : m.Relocates m' place) (hc : c ∈ m.classifiers) (hd : d ∈ m.classifiers)
    (hplace : place c.index = place d.index) : c = d := by
  have hsame : c.relocate place = d.relocate place :=
    Model.eq_of_index (h.mem_classifiers hc) (h.mem_classifiers hd) hplace
  have hpath : c.path = d.path := (congrArg Classifier.path hsame :)
  have hnamed := h.named c hc
  rw [hpath, h.named d hd] at hnamed
  exact (Option.some.inj hnamed).symm

/-- Annotations are read alike in both programs. -/
theorem annotationsOf_eq (h : m.Relocates m' place) (names : List String) :
    m'.annotationsOf names = m.annotationsOf names := by
  refine List.map_congr_left fun name _ => ?_
  unfold annotation
  rw [h.annotations]

/-- Parameters are read alike in both programs. -/
theorem paramsOf_eq (h : m.Relocates m' place) (owner : String) (params : List ParamDecl) :
    m'.paramsOf owner params = m.paramsOf owner params := by
  refine List.map_congr_left fun p _ => ?_
  rw [h.annotationsOf_eq]

/-- The same functions are found by a name in both programs. -/
theorem functionsNamed_eq (h : m.Relocates m' place) (package name : String) :
    m'.functionsNamed package name = m.functionsNamed package name := by
  rw [functionsNamed, functionsNamed, h.functions]
  refine List.map_congr_left fun e _ => ?_
  obtain ⟨f, i⟩ := e
  dsimp only
  rw [functionAt, functionAt, h.paramsOf_eq, h.annotationsOf_eq]

/-- A class that is moved keeps its annotations. -/
theorem annotations_eq (h : m.Relocates m' place) (c : Classifier) :
    (c.relocate place).annotations m' = c.annotations m := by
  rw [Classifier.annotations, Classifier.annotations, h.annotationsOf_eq]
  rfl

/-- The constructor of a class is moved with the class. -/
theorem constructor?_eq (h : m.Relocates m' place) (c : Classifier) :
    (c.relocate place).constructor? m' = (c.constructor? m).map (·.relocate place) := by
  rw [Classifier.constructor?, Classifier.constructor?]
  simp only [h.annotationsOf_eq, h.paramsOf_eq]
  cases hcompanion : c.isCompanion with
  | true =>
    have hcompanion' : (c.relocate place).isCompanion = true := hcompanion
    rw [if_pos hcompanion', if_pos rfl, Option.map_none]
  | false =>
    have hcompanion' : ¬ (c.relocate place).isCompanion = true := by
      rw [Bool.not_eq_true]
      exact hcompanion
    rw [if_neg hcompanion', if_neg Bool.false_ne_true, Option.map_map]
    rfl

/-- A member is moved with its class. -/
theorem memberAt_eq (h : m.Relocates m' place) (c : Classifier) (i : Nat) (d : MemberDecl) :
    (c.relocate place).memberAt m' i d = (c.memberAt m i d).relocate place := by
  rw [Classifier.memberAt, Classifier.memberAt, h.annotationsOf_eq, h.paramsOf_eq]
  rfl

/-- The members of a class are moved with the class. -/
theorem members_eq (h : m.Relocates m' place) (c : Classifier) :
    (c.relocate place).members m' = (c.members m).map (·.relocate place) := by
  have hmembers : (c.relocate place).members m' = if c.isCompanion then [] else
      c.decl.members.zipIdx.map fun e => (c.memberAt m e.2 e.1).relocate place := by
    rw [Classifier.members]
    simp only [h.memberAt_eq]
    rfl
  rw [hmembers, Classifier.members]
  split
  · rfl
  · rw [List.map_map]
    rfl

/-- The superclasses of a class that is moved are those of the class, moved. -/
theorem superClasses_eq (h : m.Relocates m' place) (hc : c ∈ m.classifiers) :
    (c.relocate place).superClasses m' = (c.superClasses m).map (·.relocate place) := by
  rw [Classifier.superClasses, Classifier.superClasses, List.map_filterMap]
  refine List.filterMap_congr fun t ht => ?_
  have ht' : t ∈ c.superTypes := ht
  rw [Classifier.superTypes_of_mem_classifiers hc] at ht'
  exact (h.written t (mem_written_of_superTypes hc ht')).classOf

/-- The chain of a class has the same classes in the same order. -/
theorem chain_eq (h : m.Relocates m' place) (hc : c ∈ m.classifiers) :
    (c.relocate place).chain m' = (c.chain m).map (·.relocate place) := by
  obtain ⟨ms, hruns, hchain⟩ := Classifier.chain_runs m c
  obtain ⟨ms', hruns', hchain'⟩ := Classifier.chain_runs m' (c.relocate place)
  have hmap : Walk.Runs (·.path) (Classifier.superClasses m') ([c].map (·.relocate place)) []
      (ms.map fun n => (n.1.relocate place, n.2)) :=
    hruns.map (P := (· ∈ m.classifiers))
      (fun _ _ b hb => Classifier.mem_classifiers_of_mem_superClasses hb) (fun _ _ _ _ => Iff.rfl)
      (fun a ha => h.superClasses_eq ha) (fun a ha => by rwa [List.mem_singleton.1 ha])
      (fun a _ => Iff.rfl)
  rw [hchain, hchain', hruns'.unique hmap, Walk.entered_map]

/-- Callables that are overridden in one program are overridden in the other. -/
theorem dropOverridden_eq (place : Nat → Nat) : ∀ (fs earlier : List Callable),
    Classifier.dropOverridden (earlier.map (·.relocate place)) (fs.map (·.relocate place))
      = (Classifier.dropOverridden earlier fs).map (·.relocate place) := by
  intro fs
  induction fs with
  | nil =>
    intro earlier
    rfl
  | cons f fs ih =>
    intro earlier
    have hany : (earlier.map (·.relocate place)).any (·.overrides (f.relocate place))
        = earlier.any (·.overrides f) := by
      rw [List.any_map]
      rfl
    have hone : earlier.map (·.relocate place) ++ [f.relocate place]
        = (earlier ++ [f]).map (·.relocate place) := by
      rw [List.map_append, List.map_singleton]
    rw [List.map_cons, Classifier.dropOverridden, Classifier.dropOverridden, hany]
    split
    · exact ih earlier
    · rw [hone, ih, List.map_cons]

/-- A class has the same members, its own and inherited ones. -/
theorem allMembers_eq (h : m.Relocates m' place) (hc : c ∈ m.classifiers) :
    (c.relocate place).allMembers m' = (c.allMembers m).map (·.relocate place) := by
  rw [Classifier.allMembers, Classifier.allMembers, h.chain_eq hc, List.flatMap_map]
  simp only [h.members_eq]
  rw [← List.map_flatMap]
  exact dropOverridden_eq place _ []

/-- The supertypes of a class bind the type parameters of the same classes. -/
theorem boundSupers_eq (h : m.Relocates m' place) (hc : c ∈ m.classifiers) (b : Bindings) :
    (c.relocate place).boundSupers m' b
      = (c.boundSupers m b).map fun n => (n.1.relocate place, n.2) := by
  rw [Classifier.boundSupers, Classifier.boundSupers, List.map_reverse, List.map_filterMap]
  refine congrArg List.reverse (List.filterMap_congr fun t ht => ?_)
  rw [(h.written t (mem_written_of_superTypes hc ht)).classOf, Option.map_map, Option.map_map]
  rfl

/-- What an ancestor's type parameters are bound to names the same classes in both programs. -/
theorem seenAlike_of_mem_boundSupers (h : m.Relocates m' place) (hc : c ∈ m.classifiers)
    {b : Bindings} (hb : ∀ e ∈ b, m.SeenAlike m' place e.2) {n : Classifier × Bindings}
    (hn : n ∈ c.boundSupers m b) : ∀ e ∈ n.2, m.SeenAlike m' place e.2 := by
  intro e he
  rw [Classifier.boundSupers, List.mem_reverse] at hn
  obtain ⟨t, ht, hclass⟩ := List.mem_filterMap.1 hn
  obtain ⟨s, _, rfl⟩ := Option.map_eq_some_iff.1 hclass
  obtain ⟨u, hu, hsubst⟩ := List.mem_map.1 (List.of_mem_zip (List.mem_reverse.1 he)).2
  rw [← hsubst]
  exact TypeExpr.NamesOnly.substitute hb
    ((h.written t (mem_written_of_superTypes hc ht)).of_mem_arguments hu)

/-- What type parameters are bound to is moved with the ancestors, and is seen alike. -/
theorem instantiations_eq (h : m.Relocates m' place) (hc : c ∈ m.classifiers) :
    (c.relocate place).instantiations m'
        = (c.instantiations m).map (fun n => (n.1.relocate place, n.2)) ∧
      ∀ n ∈ c.instantiations m, ∀ e ∈ n.2, m.SeenAlike m' place e.2 := by
  obtain ⟨ms, hruns, hall⟩ := Classifier.instantiations_run m c
  obtain ⟨ms', hruns', hall'⟩ := Classifier.instantiations_run m' (c.relocate place)
  have hstart : ∀ n ∈ [((c, []) : Classifier × Bindings)],
      n.1 ∈ m.classifiers ∧ ∀ e ∈ n.2, m.SeenAlike m' place e.2 := by
    intro n hn
    rw [List.mem_singleton.1 hn]
    exact ⟨hc, fun e he => absurd he List.not_mem_nil⟩
  have hnext : ∀ n : Classifier × Bindings,
      (n.1 ∈ m.classifiers ∧ ∀ e ∈ n.2, m.SeenAlike m' place e.2) →
        ∀ n' ∈ n.1.boundSupers m n.2,
          n'.1 ∈ m.classifiers ∧ ∀ e ∈ n'.2, m.SeenAlike m' place e.2 := fun n hn n' hn' =>
    ⟨Classifier.mem_classifiers_of_mem_boundSupers hn',
      h.seenAlike_of_mem_boundSupers hn.1 hn.2 hn'⟩
  have hmap : Walk.Runs (fun n => n.1.index) (fun n => n.1.boundSupers m' n.2)
      ([(c, [])].map fun n => (n.1.relocate place, n.2)) []
      (ms.map fun n => ((n.1.1.relocate place, n.1.2), n.2)) :=
    hruns.map (g := fun n => (n.1.relocate place, n.2)) hnext
      (fun n n' hn hn' => ⟨fun hplace => congrArg _ (h.eq_of_place hn.1 hn'.1 hplace),
        fun hindex => congrArg place hindex⟩)
      (fun n hn => h.boundSupers_eq hn.1 n.2) hstart (fun n _ => by simp only [List.not_mem_nil])
  rw [hall, hall', hruns'.unique hmap,
    Walk.entered_map fun n : Classifier × Bindings => (n.1.relocate place, n.2)]
  exact ⟨rfl, fun n hn => (hruns.forall_mem_entered hstart (fun a _ => hnext a) n hn).2⟩

/-- A class supplies the same types for the type parameters of an ancestor. -/
theorem supplied_eq (h : m.Relocates m' place) (hc : c ∈ m.classifiers) (hd : d ∈ m.classifiers) :
    (c.relocate place).supplied m' (place d.index) = c.supplied m d.index := by
  have hfind : ∀ n ∈ c.instantiations m,
      (place n.1.index == place d.index) = (n.1.index == d.index) := by
    intro n hn
    have hmem := Classifier.mem_classifiers_of_mem_instantiations hc hn
    refine Bool.eq_iff_iff.2 ?_
    rw [beq_iff_eq, beq_iff_eq]
    exact ⟨fun hplace => congrArg _ (h.eq_of_place hmem hd hplace), fun hi => congrArg place hi⟩
  rw [Classifier.supplied, Classifier.supplied, (h.instantiations_eq hc).1, List.find?_map,
    Option.map_map]
  exact congrArg (Option.map Prod.snd) (List.find?_congr hfind)

/-- A member has the same result type as seen from a class. -/
theorem returnsFor_eq (h : m.Relocates m' place) (hc : c ∈ m.classifiers) {f : Callable}
    (hf : f ∈ m.callables) :
    (f.relocate place).returnsFor m' (c.relocate place) = f.returnsFor m c := by
  obtain ⟨d, hd, decl, i, _, rfl⟩ := exists_of_mem_callables hf
  have hpath : (c.relocate place).path = c.path := rfl
  rw [Callable.returnsFor, Callable.returnsFor, hpath, h.relocated c hc, h.named c hc]
  dsimp only [Callable.relocate, Classifier.memberAt, Origin.relocate, Option.bind]
  rw [h.supplied_eq hc hd]

/-- What a member gives for a class is seen alike in both programs. -/
theorem seenAlike_returnsFor (h : m.Relocates m' place) (hc : c ∈ m.classifiers) {f : Callable}
    (hf : f ∈ m.callables) : m.SeenAlike m' place (f.returnsFor m c) := by
  have hreturns := h.written _ (mem_written_of_mem_callables hf).1
  rw [Callable.returnsFor, h.named c hc]
  cases f.origin with
  | function i => exact hreturns
  | member index i =>
    dsimp only [Option.bind]
    cases hsupplied : c.supplied m index with
    | none => exact hreturns
    | some b =>
      obtain ⟨n, hn, rfl⟩ := Option.map_eq_some_iff.1 hsupplied
      exact TypeExpr.NamesOnly.substitute
        ((h.instantiations_eq hc).2 n (List.mem_of_find?_eq_some hn)) hreturns

/-- The same values can be used in the same places. -/
theorem isAssignable_eq (h : m.Relocates m' place) (target : TypeExpr) {source : TypeExpr}
    (hs : m.SeenAlike m' place source) :
    m'.isAssignable target source = m.isAssignable target source := by
  rw [isAssignable, isAssignable, hs.classOf]
  cases hclass : m.classOf source with
  | none => rfl
  | some d =>
    rw [Option.map_some, Option.elim_some, Option.elim_some,
      h.chain_eq (mem_classifiers_of_classOf hclass), List.any_map]
    rfl

/-- A class that is moved may be injected if it could be before. -/
theorem isInjectClass_eq (h : m.Relocates m' place) (o : Options) (c : Classifier) :
    Role.isInjectClass m' o (c.relocate place) = Role.isInjectClass m o c := by
  rw [Role.isInjectClass, Role.isInjectClass, h.annotations_eq, h.constructor?_eq]
  cases c.constructor? m <;> rfl

/-- The scopes of a chain stand on the same classes. -/
theorem scopedAncestors_eq (h : m.Relocates m' place) (o : Options) (hc : c ∈ m.classifiers) :
    Role.scopedAncestors m' o (c.relocate place)
      = (Role.scopedAncestors m o c).map fun n => (n.1.relocate place, n.2) := by
  rw [Role.scopedAncestors, Role.scopedAncestors, h.chain_eq hc, List.filterMap_map,
    List.map_filterMap]
  refine congrArg (List.filterMap · _) (funext fun a => ?_)
  rw [Function.comp, h.annotations_eq, Option.map_map]
  rfl

/-- A class that is moved keeps its component parameters. -/
theorem componentParams_eq (h : m.Relocates m' place) (c : Classifier) :
    Arrival.componentParams m' (c.relocate place) = Arrival.componentParams m c := by
  rw [Arrival.componentParams, Arrival.componentParams, h.constructor?_eq]
  cases c.constructor? m <;> rfl

/-- An arrival that is moved goes on to the arrivals it went on to, moved. -/
theorem onward_eq (h : m.Relocates m' place) {a : Arrival}
    (ha : ∀ c, a.component = some c → c ∈ m.classifiers) :
    Arrival.onward m' (a.relocate place) = (Arrival.onward m a).map (·.relocate place) := by
  cases hcomponent : a.component with
  | none =>
    have hcomponent' : (a.relocate place).component = none := by
      rw [Arrival.relocate, hcomponent, Option.map_none]
    rw [Arrival.onward, Arrival.onward, hcomponent, hcomponent', List.map_nil]
  | some c =>
    have hcomponent' : (a.relocate place).component = some (c.relocate place) := by
      rw [Arrival.relocate, hcomponent, Option.map_some]
    rw [Arrival.onward, Arrival.onward, hcomponent, hcomponent']
    dsimp only
    rw [h.componentParams_eq, List.map_map]
    refine List.map_congr_left fun p hp => ?_
    have hseen : m.SeenAlike m' place p.type := by
      rw [Arrival.componentParams] at hp
      split at hp
      · next k hk =>
        exact h.written _ (mem_written_of_constructor? (ha c hcomponent) hk
          (List.mem_of_mem_filter hp))
      · exact absurd hp List.not_mem_nil
    rw [hseen.classOf]
    rfl

/-- The walk from a component arrives at the same components by the same paths. -/
theorem walk_eq (h : m.Relocates m' place) (hc : c ∈ m.classifiers) :
    Arrival.walk m' (c.relocate place)
      = (Arrival.walk m c).map fun n => (n.1.relocate place, n.2) := by
  have hkey : ∀ a : Arrival,
      (a.relocate place).component.map (·.path) = a.component.map (·.path) := by
    intro a
    rw [Arrival.relocate, Option.map_map]
    rfl
  have hstart : ∀ a ∈ [Arrival.start c], ∀ d, a.component = some d → d ∈ m.classifiers := by
    intro a ha d hd
    rw [List.mem_singleton.1 ha] at hd
    cases hd
    exact hc
  have hmap : Walk.Runs (fun a => a.component.map (·.path)) (Arrival.onward m')
      ([Arrival.start c].map (·.relocate place)) []
      ((Arrival.walk m c).map fun n => (n.1.relocate place, n.2)) :=
    (Arrival.walk_runs m c).map (fun _ _ b hb => Arrival.component_of_mem_onward hb)
      (fun a b _ _ => by rw [hkey, hkey]) (fun a ha => h.onward_eq ha) hstart
      (fun a _ => by simp only [List.not_mem_nil])
  exact (Arrival.walk_runs m' (c.relocate place)).unique hmap

end Relocates

end Model

end Wiring
