import Wiring.Proofs.Model.Signatures
import Wiring.Proofs.Sketch
import Wiring.Proofs.Type.Replacement

/-!
# What supertypes give to type parameters

On the way from a class up to an ancestor the arguments of each supertype are taken with the type
parameters of the class it is written on already replaced. The walk over the supertypes with their
arguments arrives at an ancestor by such a way. When all ways agree, the result of a member that
the ancestor declares is seen with the type parameters replaced by what any of them gives.
-/

namespace Wiring

open TypeExpr (Filled ScopedIn ownArguments)

/-- The type parameters of a class have different names, and a supertype has an argument for each
type parameter of the class it names. -/
structure Model.WellApplied (m : Model) : Prop where
  nodup : ∀ c ∈ m.classifiers, c.decl.typeParameters.Nodup
  arity : ∀ c ∈ m.classifiers, ∀ t ∈ c.superTypes, ∀ e ∈ m.classOf t,
    t.resolved.arguments.length = e.decl.typeParameters.length

namespace Classifier

/-- A way up the supertypes of `d` to a class, with the classes passed through and the arguments
that the type parameters of the class are given. No class is come to twice. -/
inductive Ascent (m : Model) (d : Classifier) :
    List Classifier → Classifier → List TypeExpr → Prop where
  | self : Ascent m d [] d (ownArguments d.decl.typeParameters)
  | super {trail c args t e args'} (h : Ascent m d trail c args) (ht : t ∈ c.superTypes)
      (he : m.classOf t = some e) (hnew : e ∉ trail ++ [c])
      (hargs : List.Forall₂ (Filled c.decl.typeParameters args) t.resolved.arguments args') :
      Ascent m d (trail ++ [c]) e args'

variable {m : Model} {d a : Classifier} {trail trail' : List Classifier}
  {args args' : List TypeExpr} {b : Bindings} {f : Callable} {P : String → Prop}

namespace Ascent

/-- A way up from a class of the program leads to one. -/
theorem mem_classifiers (hd : d ∈ m.classifiers) (h : Ascent m d trail a args) :
    a ∈ m.classifiers := by
  cases h with
  | self => exact hd
  | super _ _ he _ _ => exact Model.mem_classifiers_of_classOf he

/-- A way up gives one argument for each type parameter of the class it leads to. -/
theorem length_eq (hw : m.WellApplied) (hd : d ∈ m.classifiers) (h : Ascent m d trail a args) :
    args.length = a.decl.typeParameters.length := by
  cases h with
  | self => exact TypeExpr.length_ownArguments
  | super hc ht he _ hargs => rw [← hargs.length_eq, hw.arity _ (hc.mem_classifiers hd) _ ht _ he]

/-- A way up passes through the class it starts from, or ends there. -/
theorem start_mem (h : Ascent m d trail a args) : d ∈ trail ++ [a] := by
  induction h with
  | self => exact List.mem_append_right _ (List.mem_singleton_self d)
  | super _ _ _ _ _ ih => exact List.mem_append_left _ ih

/-- Where no class is named by two supertypes, there is one way to it. -/
theorem unique (hw : m.WellApplied) (hd : d ∈ m.classifiers)
    (honce : ∀ c ∈ m.classifiers, ∀ c' ∈ m.classifiers, ∀ t ∈ c.superTypes, ∀ t' ∈ c'.superTypes,
      m.classOf t = m.classOf t' → m.classOf t ≠ none → c = c' ∧ t = t')
    (h : Ascent m d trail a args) (h' : Ascent m d trail' a args') : args = args' := by
  induction h generalizing trail' args' with
  | self =>
    cases h' with
    | self => rfl
    | super hc _ _ hnew _ => exact absurd hc.start_mem hnew
  | @super trail c args t e args₁ hc ht he hnew hargs ih =>
    cases h' with
    | self => exact absurd hc.start_mem hnew
    | super hc' ht' he' _ hargs' =>
      have hnamed : m.classOf t ≠ none := by
        rw [he]
        exact Option.some_ne_none e
      obtain ⟨rfl, rfl⟩ := honce _ (hc.mem_classifiers hd) _ (hc'.mem_classifiers hd) _ ht _ ht'
        (he.trans he'.symm) hnamed
      rw [← ih hc'] at hargs'
      exact Filled.uniqueList (hw.nodup _ (hc.mem_classifiers hd)) (hc.length_eq hw hd) hargs hargs'

/-- Type parameters do not get further up than the classes they belong to. -/
theorem scopedIn (h : Ascent m d trail a args)
    (hscoped : ∀ c ∈ trail, ∀ t ∈ c.superTypes, ∀ u ∈ t.resolved.arguments,
      u.ScopedIn c.decl.typeParameters P) :
    ∀ u ∈ args, u.ScopedIn d.decl.typeParameters P := by
  induction h with
  | self => exact fun u hu => TypeExpr.scopedIn_ownArguments hu
  | @super trail c args t e args' _ ht _ _ hargs ih =>
    have hbelow := ih fun c hc => hscoped c (List.mem_append_left _ hc)
    have hlast := hscoped c (List.mem_append_right _ (List.mem_singleton_self c)) t ht
    exact Filled.scopedInList hbelow hargs hlast

end Ascent

/-- The walk arrives at a class by a way up through classes that have been entered, and binds the
type parameters of the class to what that way gives. -/
def Arrives (m : Model) (d : Classifier) (before : List (Classifier × Bindings))
    (n : Classifier × Bindings) : Prop :=
  ∃ trail args, Ascent m d trail n.1 args ∧ (∀ c ∈ trail, c.index ∈ before.map (·.1.index)) ∧
    ∀ t t', Filled n.1.decl.typeParameters args t t' ↔ t' = t.substitute n.2

/-- The walk arrives at the class it starts from by the way of no step. -/
theorem arrives_start (hw : m.WellApplied) (hd : d ∈ m.classifiers)
    (before : List (Classifier × Bindings)) : Arrives m d before (d, []) := by
  refine ⟨[], _, .self, fun c hc => absurd hc List.not_mem_nil, fun t t' => ?_⟩
  rw [TypeExpr.filled_ownArguments_iff (hw.nodup d hd), TypeExpr.substitute_nil]

/-- From a class that it has arrived at, the walk arrives at those that its supertypes name. -/
theorem Arrives.step {before between after : List (Classifier × Bindings)}
    {n next : Classifier × Bindings} (hw : m.WellApplied) (hd : d ∈ m.classifiers)
    (h : Arrives m d before n) (hnext : next ∈ n.1.boundSupers m n.2)
    (hnodup : ((before ++ n :: (between ++ next :: after)).map (·.1.index)).Nodup) :
    Arrives m d (before ++ n :: between) next := by
  obtain ⟨trail, args, hascent, htrail, hfilled⟩ := h
  have hn := hascent.mem_classifiers hd
  rw [boundSupers, List.mem_reverse] at hnext
  obtain ⟨t, ht, hbound⟩ := List.mem_filterMap.1 hnext
  obtain ⟨e, hclass, rfl⟩ := Option.map_eq_some_iff.1 hbound
  rw [← superTypes_of_mem_classifiers hn] at ht
  have htrail' : ∀ c ∈ trail ++ [n.1], c.index ∈ (before ++ n :: between).map (·.1.index) := by
    intro c hc
    rw [List.map_append, List.map_cons, List.mem_append]
    rcases List.mem_append.1 hc with hc | hc
    · exact .inl (htrail c hc)
    · rw [List.mem_singleton.1 hc]
      exact .inr (List.mem_cons_self ..)
  have hnew : e ∉ trail ++ [n.1] := by
    intro hmem
    rw [← List.cons_append, ← List.append_assoc, List.map_append, List.map_cons,
      List.nodup_middle, List.nodup_cons, List.mem_append, not_or] at hnodup
    exact hnodup.1.1 (htrail' e hmem)
  refine ⟨_, t.resolved.arguments.map (TypeExpr.substitute n.2),
    hascent.super ht hclass hnew ?_, htrail', fun u u' => ?_⟩
  · exact List.forall₂_map_right_iff.2 (List.forall₂_same.2 fun u _ => (hfilled u _).2 rfl)
  · refine TypeExpr.filled_iff (hw.nodup e (Model.mem_classifiers_of_classOf hclass)) ?_
    rw [List.length_map]
    exact hw.arity n.1 hn t ht e hclass

/-- The walk over the supertypes with their arguments arrives at each class it enters. -/
theorem exists_arrives_of_mem_instantiations (hw : m.WellApplied) (hd : d ∈ m.classifiers)
    (h : (a, b) ∈ d.instantiations m) : ∃ before, Arrives m d before (a, b) := by
  obtain ⟨ms, hruns, hall⟩ := instantiations_run m d
  rw [hall] at h
  obtain ⟨before, after, hsplit⟩ := List.append_of_mem h
  refine ⟨before, hruns.of_split_entered (fun before n hn => ?_)
    (fun before n between next after he harrives hnext => ?_) before (a, b) after hsplit⟩
  · rw [List.mem_singleton.1 hn]
    exact arrives_start hw hd before
  · have hnodup := hruns.nodup_entered.2
    rw [he] at hnodup
    exact harrives.step hw hd hnext hnodup

/-- Something is supplied for every class of a chain. -/
theorem isSome_supplied_of_mem_chain (hd : d ∈ m.classifiers) (ha : a ∈ d.chain m) :
    (d.supplied m a.index).isSome = true := by
  refine (Walk.forall_mem_preorder
    (P := fun a => a ∈ m.classifiers ∧ (d.supplied m a.index).isSome = true) ?_ ?_ a ha).2
  · rintro c ⟨hc, hs⟩ e he
    obtain ⟨t, ht, hclass⟩ := List.mem_filterMap.1 he
    rw [superTypes_of_mem_classifiers hc] at ht
    exact ⟨Model.mem_classifiers_of_classOf hclass, isSome_supplied_of_classOf hd hc hs ht hclass⟩
  · intro c hc
    rw [List.mem_singleton.1 hc, isSome_supplied_iff]
    obtain ⟨ms, hruns, hall⟩ := instantiations_run m d
    rw [hall]
    rcases hruns.closed.1 (d, []) (List.mem_singleton_self _) with hseen | hentered
    · exact absurd hseen List.not_mem_nil
    · exact ⟨hd, List.mem_map.1 hentered⟩

/-- What is supplied for a class is what a way up to it gives. -/
theorem exists_ascent_of_supplied (hw : m.WellApplied) (hd : d ∈ m.classifiers)
    (ha : a ∈ m.classifiers) (h : d.supplied m a.index = some b) :
    ∃ trail args, Ascent m d trail a args ∧
      ∀ t t', Filled a.decl.typeParameters args t t' ↔ t' = t.substitute b := by
  obtain ⟨⟨e, _⟩, hfind, rfl⟩ := Option.map_eq_some_iff.1 h
  have hmem := List.mem_of_find?_eq_some hfind
  have hindex : e.index = a.index := beq_iff_eq.1 (List.find?_some hfind :)
  obtain rfl := Model.eq_of_index (mem_classifiers_of_mem_instantiations hd hmem) ha hindex
  obtain ⟨_, trail, args, hascent, _, hfilled⟩ := exists_arrives_of_mem_instantiations hw hd hmem
  exact ⟨trail, args, hascent, hfilled⟩

/-- How a class sees the result of a member that its ancestor `a` declares, when all ways up give
the ancestor the same. -/
structure SeesComposed (m : Model) (d a : Classifier) (f : Callable) : Prop where
  /-- The class supplies something for its ancestor. -/
  supplied : (d.supplied m a.index).isSome = true
  /-- There is a way up. -/
  reached : ∃ trail args, Ascent m d trail a args
  /-- The result is the declared one with the type parameters replaced by what a way up gives. -/
  returns : ∀ trail args, Ascent m d trail a args →
    ∀ t, Filled a.decl.typeParameters args f.returns t ↔ t = f.returnsFor m d
  /-- When the supertypes on the way and the declared result are written with the type parameters
  of their own classes and with names that have a property, no other type parameters get into the
  result. -/
  confined : ∀ trail args, Ascent m d trail a args → ∀ P : String → Prop,
    (∀ c ∈ trail, ∀ t ∈ c.superTypes, ∀ u ∈ t.resolved.arguments,
      u.ScopedIn c.decl.typeParameters P) →
    f.returns.ScopedIn a.decl.typeParameters P →
    (f.returnsFor m d).ScopedIn d.decl.typeParameters P

/-- Inherited members have the results that the supertypes on the way up compose, whatever the type
parameters are called and also in hierarchies with cycles. -/
theorem seesComposed (hn : m.DistinctNames) (hw : m.WellApplied) (hd : d ∈ m.classifiers)
    (ha : a ∈ d.chain m) (hf : f ∈ a.members m)
    (hsame : ∀ trail args trail' args', Ascent m d trail a args → Ascent m d trail' a args' →
      args = args') : SeesComposed m d a f := by
  have hsome := isSome_supplied_of_mem_chain hd ha
  obtain ⟨b, hb⟩ := Option.isSome_iff_exists.1 hsome
  obtain ⟨trail, args, hascent, hfilled⟩ :=
    exists_ascent_of_supplied hw hd (mem_classifiers_of_mem_chain hd ha) hb
  have hreturns : f.returnsFor m d = f.returns.substitute b := by
    obtain ⟨i, hi⟩ := exists_origin_of_mem_members hf
    have hsupplied : f.suppliedBy m d = some b := by
      rw [Callable.suppliedBy, hi]
      exact hb
    rw [Callable.returnsFor_eq_typeFor (classNamed_of_mem_classifiers hn hd), Callable.typeFor,
      hsupplied, Option.getD_some]
  have hany : ∀ trail args, Ascent m d trail a args →
      ∀ t, Filled a.decl.typeParameters args f.returns t ↔ t = f.returnsFor m d := by
    intro trail' args' hascent' t
    rw [hsame _ _ _ _ hascent' hascent, hreturns, hfilled]
  refine ⟨hsome, ⟨trail, args, hascent⟩, hany, ?_⟩
  intro trail' args' hascent' P hscoped hdeclared
  exact Filled.scopedIn (hascent'.scopedIn hscoped) ((hany trail' args' hascent' _).2 rfl) hdeclared

/-- An inventory that is reached through a shelf of the same type parameter, and a lobby that
names the shelf by an alias. -/
def shelving : Model :=
  Sketch.program [
    { package := "app", name := "Stock", typeParameters := ["T"], isInterface := true
      members := [Sketch.requirement "items" (.known .set [.declared "" "T" [] true]) []] },
    { package := "app", name := "Shelf", typeParameters := ["T"], isInterface := true
      superTypes :=
        [.declared "app" "Stock" [.declared "app" "Box" [.ofName "" "T"] false] false] },
    { package := "app", name := "Lobby"
      superTypes := [.aliased "app" "Books" [] false
        (.declared "app" "Shelf" [Sketch.type "Book"] false)] }]

/-- The lobby sees a set of boxes of books where the stock has a set of its type parameter. -/
theorem seesComposed_lobby :
    ∃ d a f, d ∈ shelving.classifiers ∧ a ∈ d.chain shelving ∧ f ∈ a.members shelving ∧
      SeesComposed shelving d a f ∧ f.returnsFor shelving d
        = .known .set [.declared "app" "Box" [Sketch.type "Book"] true] := by
  have hn : shelving.DistinctNames := by
    unfold Model.DistinctNames
    decide
  have hw : shelving.WellApplied := ⟨by decide, by decide⟩
  have hd : shelving.classifiers[2] ∈ shelving.classifiers := List.getElem_mem _
  refine ⟨shelving.classifiers[2], shelving.classifiers[0],
    (shelving.classifiers[0].members shelving)[0], hd, by decide, List.getElem_mem _,
    seesComposed hn hw hd (by decide) (List.getElem_mem _) ?_, by decide⟩
  intro trail args trail' args' h h'
  exact h.unique hw hd (by decide) h'

end Classifier

end Wiring
