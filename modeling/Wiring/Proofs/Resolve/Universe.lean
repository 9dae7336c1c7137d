import Wiring.Proofs.Model.Walks
import Wiring.Proofs.Resolve.Asks
import Wiring.Proofs.Type.Parts

/-!
# What can be entered

The elements that resolution can ever enter: the members, constructors and functions declared in
the program, and every type expression written in their parameters and receivers or in the key
that is asked for, since a function type among them stands for itself. There are no more of them
than the weight of the program and the size of the key, and a request leads only to requests whose
types are written with these type expressions.
-/

namespace Wiring

namespace TypeExpr

/-- The identities that the parts of a type have on a path. -/
def ids (t : TypeExpr) : List ElementId := t.parts.map fun u => (Element.ofType u).id

/-- A type has as many identities as its size says. -/
theorem length_ids (t : TypeExpr) : t.ids.length = t.size := by
  rw [ids, List.length_map, length_parts]

/-- The identity of a type is among those of its parts. -/
theorem self_mem_ids (t : TypeExpr) : (Element.ofType t).id ∈ t.ids :=
  List.mem_map.2 ⟨t, self_mem_parts t, rfl⟩

/-- The identities of an argument are among those of the type. -/
theorem ids_sublist_of_mem_arguments {t u : TypeExpr} (h : u ∈ t.resolved.arguments) :
    u.ids.Sublist t.ids :=
  ((parts_sublist_tail h).trans (List.tail_sublist _)).map _

end TypeExpr

/-- The types of the values a callable is called with. -/
def Callable.needed (f : Callable) : List TypeExpr :=
  f.receiver.toList ++ f.params.map (·.type)

/-- The identities of a callable and of the types it needs. -/
def Callable.ids (f : Callable) : List ElementId := f.element.id :: f.needed.flatMap (·.ids)

/-- The identities of a constructor and of the types it needs. -/
def Constructor.ids (k : Constructor) : List ElementId :=
  k.element.id :: (k.params.map (·.type)).flatMap (·.ids)

/-- The identities of the constructor and the members of a class and of the types they need. -/
def Classifier.ids (m : Model) (c : Classifier) : List ElementId :=
  (c.constructor? m).elim [] (·.ids) ++ (c.members m).flatMap (·.ids)

namespace Model

/-- The identities of everything declared that can be entered and of the types it needs. -/
def ids (m : Model) : List ElementId :=
  m.classifiers.flatMap (·.ids m) ++ m.functions.flatMap (·.ids)

/-- What an element gives stands together in what the list gives. -/
theorem sublist_flatMap_of_mem {α β : Type} {f : α → List β} {l : List α} {a : α} (h : a ∈ l) :
    (f a).Sublist (l.flatMap f) :=
  List.sublist_flatten_of_mem (List.mem_map_of_mem h)

/-- The identities of a member are among those of the program. -/
theorem ids_sublist_of_mem_callables {m : Model} {f : Callable} (h : f ∈ m.callables) :
    f.ids.Sublist m.ids := by
  obtain ⟨c, hc, hf⟩ := List.mem_flatMap.1 h
  have hclass : f.ids.Sublist (c.ids m) :=
    (sublist_flatMap_of_mem hf).trans (List.sublist_append_right ..)
  exact (hclass.trans (sublist_flatMap_of_mem hc)).trans (List.sublist_append_left ..)

/-- The identities of a constructor are among those of the program. -/
theorem ids_sublist_of_constructor? {m : Model} {c : Classifier} {k : Constructor}
    (hc : c ∈ m.classifiers) (hk : c.constructor? m = some k) : k.ids.Sublist m.ids := by
  have hclass : k.ids.Sublist (c.ids m) := by
    rw [Classifier.ids, hk]
    exact List.sublist_append_left ..
  exact (hclass.trans (sublist_flatMap_of_mem hc)).trans (List.sublist_append_left ..)

/-- The identities of a function are among those of the program. -/
theorem ids_sublist_of_mem_functions {m : Model} {f : Callable} (h : f ∈ m.functions) :
    f.ids.Sublist m.ids :=
  (sublist_flatMap_of_mem h).trans (List.sublist_append_right ..)

/-- What a list gives is no longer than its measure, if that is so for each element. -/
theorem length_flatMap_le {α β : Type} {f : α → List β} {w : α → Nat} {l : List α}
    (h : ∀ a ∈ l, (f a).length ≤ w a) : (l.flatMap f).length ≤ total w l := by
  induction l with
  | nil => exact Nat.le_refl _
  | cons a l ih =>
    have ha := h a (List.mem_cons_self ..)
    have hl := ih fun b hb => h b (List.mem_cons_of_mem _ hb)
    rw [List.flatMap_cons, List.length_append, total]
    omega

/-- Parameters give no more identities than they weigh. -/
theorem length_paramIds_le (m : Model) (owner : String) (ps : List ParamDecl) :
    (((m.paramsOf owner ps).map (·.type)).flatMap (·.ids)).length ≤ ParamDecl.weight ps := by
  rw [paramsOf, List.map_map, List.flatMap_map, ParamDecl.weight]
  refine length_flatMap_le fun p _ => ?_
  simp only [Function.comp_apply, TypeExpr.length_ids]
  omega

end Model

/-- A constructor has no more identities than it weighs. -/
theorem Classifier.length_constructor_ids_le (m : Model) (c : Classifier) :
    ((c.constructor? m).elim [] (·.ids)).length
      ≤ c.decl.constructor.elim 0 fun k => 1 + ParamDecl.weight k.params := by
  rw [constructor?]
  split
  · exact Nat.zero_le _
  · cases c.decl.constructor with
    | none => exact Nat.zero_le _
    | some k =>
      have hl := m.length_paramIds_le (c.decl.qualifiedName ++ ".<init>") k.params
      simp only [Option.map_some, Option.elim_some, Constructor.ids, List.length_cons]
      omega

/-- A member has no more identities than it weighs. -/
theorem Classifier.length_member_ids_le (m : Model) (c : Classifier) (index : Nat)
    (d : MemberDecl) : (c.memberAt m index d).ids.length
      ≤ 1 + ParamDecl.weight d.params + d.receiver.elim 0 TypeExpr.size + d.returns.size := by
  have hreceiver :
      (d.receiver.toList.flatMap (·.ids)).length = d.receiver.elim 0 TypeExpr.size := by
    cases d.receiver with
    | none => rfl
    | some t =>
      simp only [Option.toList_some, List.flatMap_cons, List.flatMap_nil, List.append_nil,
        TypeExpr.length_ids, Option.elim_some]
  have hparams : ((((c.memberAt m index d).params).map (·.type)).flatMap (·.ids)).length
      ≤ ParamDecl.weight d.params := by
    rw [memberAt]
    dsimp only
    split
    · exact m.length_paramIds_le _ d.params
    · exact Nat.zero_le _
  rw [Callable.ids, Callable.needed, List.length_cons, List.flatMap_append, List.length_append]
  have hr : (c.memberAt m index d).receiver = d.receiver := rfl
  rw [hr, hreceiver]
  omega

/-- The members of a class have no more identities than they weigh. -/
theorem Classifier.length_members_ids_le (m : Model) (c : Classifier) :
    ((c.members m).flatMap (·.ids)).length ≤ MemberDecl.weight c.decl.members := by
  rw [members]
  split
  · exact Nat.zero_le _
  · rw [List.flatMap_map, MemberDecl.weight]
    have hl := Model.length_flatMap_le (l := c.decl.members.zipIdx)
      (f := fun d => (c.memberAt m d.2 d.1).ids)
      (w := fun d => 1 + ParamDecl.weight d.1.params
        + d.1.receiver.elim 0 TypeExpr.size + d.1.returns.size) ?_
    · rw [total_zipIdx (fun d : MemberDecl => 1 + ParamDecl.weight d.params
        + d.receiver.elim 0 TypeExpr.size + d.returns.size)] at hl
      exact hl
    · intro d _
      exact length_member_ids_le m c d.2 d.1

namespace Model

/-- The classes of a program have no more identities than they weigh. -/
theorem length_classes_ids_le (m : Model) :
    (m.classifiers.flatMap (·.ids m)).length ≤ total (fun c =>
      1 + TypeExpr.sizeList c.superTypes
        + (c.constructor.elim 0 fun k => 1 + ParamDecl.weight k.params)
        + MemberDecl.weight c.members) m.declarations.classes := by
  rw [classifiers, List.flatMap_map]
  have hl := length_flatMap_le (l := m.declarations.classes.zipIdx)
    (f := fun d => Classifier.ids m { index := d.2, decl := d.1 })
    (w := fun d => 1 + TypeExpr.sizeList d.1.superTypes
      + (d.1.constructor.elim 0 fun k => 1 + ParamDecl.weight k.params)
      + MemberDecl.weight d.1.members) ?_
  · rw [total_zipIdx (fun c : ClassDecl => 1 + TypeExpr.sizeList c.superTypes
      + (c.constructor.elim 0 fun k => 1 + ParamDecl.weight k.params)
      + MemberDecl.weight c.members)] at hl
    exact hl
  · intro d _
    have hk := Classifier.length_constructor_ids_le m { index := d.2, decl := d.1 }
    have hm := Classifier.length_members_ids_le m { index := d.2, decl := d.1 }
    rw [Classifier.ids, List.length_append]
    dsimp only at hk hm
    omega

/-- The functions of a program have no more identities than they weigh. -/
theorem length_functions_ids_le (m : Model) :
    (m.functions.flatMap (·.ids)).length ≤
      total (fun f => 1 + ParamDecl.weight f.params + f.returns.size)
        m.declarations.functions := by
  rw [functions, List.flatMap_map]
  have hl := length_flatMap_le (l := m.declarations.functions.zipIdx)
    (f := fun d => (m.functionAt d.2 d.1).ids)
    (w := fun d => 1 + ParamDecl.weight d.1.params + d.1.returns.size) ?_
  · rw [total_zipIdx fun f : FunctionDecl => 1 + ParamDecl.weight f.params + f.returns.size] at hl
    exact hl
  · intro d _
    have hparams := m.length_paramIds_le
      (d.1.qualifiedName ++ "(" ++ ParamDecl.pathText d.1.params ++ ")") d.1.params
    simp only [Callable.ids, Callable.needed, functionAt, List.length_cons, Option.toList_none,
      List.nil_append]
    omega

/-- The weight of a program covers what can be entered. -/
theorem length_ids_le (m : Model) : m.ids.length ≤ m.weight := by
  have hc := m.length_classes_ids_le
  have hf := m.length_functions_ids_le
  rw [ids, List.length_append, weight]
  omega

/-- The elements that can be entered for a key of a type. -/
def enterable (m : Model) (t : TypeExpr) : List ElementId := m.ids ++ t.ids

/-- All identities of the program can be entered. -/
theorem ids_sublist_enterable (m : Model) (t : TypeExpr) : m.ids.Sublist (m.enterable t) :=
  List.sublist_append_left ..

/-- All identities of the type of a key can be entered. -/
theorem type_sublist_enterable (m : Model) (t : TypeExpr) : t.ids.Sublist (m.enterable t) :=
  List.sublist_append_right ..

/-- No more can be entered than the program and the type weigh. -/
theorem length_enterable_le (m : Model) (t : TypeExpr) :
    (m.enterable t).length ≤ m.weight + t.size := by
  have hm := m.length_ids_le
  rw [enterable, List.length_append, TypeExpr.length_ids]
  omega

end Model

/-- The types of what a subject needs. -/
def Subject.needed : Subject → List TypeExpr
  | member p => p.callable.needed
  | constructor k => k.params.map (·.type)
  | lambda _ _ result => [result.type]
  | function f _ => f.params.map (·.type)

/-- A subject that is declared in the program, or the lambda that a key asks for. -/
inductive Subject.Declared (m : Model) (key : Key) : Subject → Prop where
  | member {p : Provider} (h : p.callable ∈ m.callables) : Declared m key (.member p)
  | constructor {c : Classifier} {k : Constructor} (hc : c ∈ m.classifiers)
      (hk : c.constructor? m = some k) : Declared m key (.constructor k)
  | lambda {types : List TypeExpr} {result : TypeExpr}
      (hs : key.type.signature? = some (types, result)) :
      Declared m key (.lambda key.type types ⟨result, key.qualifier⟩)
  | function {f : Callable} {types : List TypeExpr} (h : f ∈ m.functions) :
      Declared m key (.function f types)

/-- The arguments of a function type are its parameters and its result. -/
theorem TypeExpr.arguments_of_signature? {t result : TypeExpr} {types : List TypeExpr}
    (h : t.signature? = some (types, result)) : t.resolved.arguments = types ++ [result] := by
  rw [signature?] at h
  split at h
  · obtain ⟨last, hl, he⟩ := Option.map_eq_some_iff.1 h
    cases he
    exact (List.dropLast_append_getLast? _ hl).symm
  · cases h

/-- The result of a function type is one of its arguments. -/
theorem TypeExpr.mem_arguments_of_signature? {t result : TypeExpr} {types : List TypeExpr}
    (h : t.signature? = some (types, result)) : result ∈ t.resolved.arguments := by
  rw [arguments_of_signature? h]
  exact List.mem_append_right _ (List.mem_singleton.2 rfl)

/-- A declared subject and everything it needs belong to every universe that has the program and
the key. -/
theorem Subject.Declared.ids_sublist {m : Model} {key : Key} {s : Subject} (h : s.Declared m key)
    {U : List ElementId} (hm : m.ids.Sublist U) (hk : key.type.ids.Sublist U) :
    s.element.id ∈ U ∧ ∀ t ∈ s.needed, t.ids.Sublist U := by
  have hof : ∀ {e : ElementId} {ts : List TypeExpr}, (e :: ts.flatMap (·.ids)).Sublist m.ids →
      e ∈ U ∧ ∀ t ∈ ts, t.ids.Sublist U := by
    intro e ts hsub
    have hall := hsub.trans hm
    refine ⟨hall.subset (List.mem_cons_self ..), fun t ht => ?_⟩
    exact ((Model.sublist_flatMap_of_mem ht).trans (List.sublist_cons_self ..)).trans hall
  cases h with
  | member h => exact hof (Model.ids_sublist_of_mem_callables h)
  | constructor hc hk => exact hof (Model.ids_sublist_of_constructor? hc hk)
  | lambda hs =>
    refine ⟨hk.subset (TypeExpr.self_mem_ids key.type), fun t ht => ?_⟩
    rw [List.mem_singleton.1 ht]
    exact (TypeExpr.ids_sublist_of_mem_arguments (TypeExpr.mem_arguments_of_signature? hs)).trans hk
  | function h =>
    obtain ⟨he, ht⟩ := hof (Model.ids_sublist_of_mem_functions h)
    exact ⟨he, fun t hmem => ht t (List.mem_append.2 (.inr hmem))⟩

namespace Resolver

/-- The type of what is asked for is needed by the subject. -/
theorem type_mem_needed {r : Resolver} {c : Context} {s : Subject} {q : Request}
    (h : q ∈ r.needs c s) : q.key.type ∈ s.needed := by
  have hparams : ∀ {c : Context} {ps : List Param}, q ∈ r.paramRequests c ps →
      q.key.type ∈ ps.map (·.type) := by
    intro c ps h
    obtain ⟨_, p, hp, hk⟩ := mem_paramRequests h
    rw [hk]
    exact List.mem_map_of_mem hp
  cases s with
  | member p =>
    rw [needs] at h
    rw [Subject.needed, Callable.needed]
    cases hr : p.callable.receiver with
    | none =>
      rw [hr] at h
      exact hparams h
    | some type =>
      rw [hr] at h
      rcases List.mem_cons.1 h with rfl | h
      · exact List.mem_cons_self ..
      · exact List.mem_cons_of_mem _ (hparams h)
  | constructor k => exact hparams h
  | lambda type types result =>
    rw [List.mem_singleton.1 h]
    exact List.mem_singleton.2 rfl
  | function f types => exact hparams h

/-- Whatever a candidate of a declared component enters is declared. -/
theorem declared_of_enter_mem_tasks {m : Model} {o : Options} {c : Classifier} {key : Key}
    {context : Context} {fromEnd : Option Nat} {candidate : Candidate} {s : Subject}
    (hc : c ∈ m.classifiers)
    (h : (Component.resolver m o c).candidate key context fromEnd = .ok (some candidate))
    (ht : .enter s ∈ candidate.tasks key context) : s.Declared m key := by
  cases chosen_of_candidate h with
  | arg => exact absurd ht List.not_mem_nil
  | offered ho =>
    cases ho with
    | namedFunction hs hf =>
      cases List.mem_singleton.1 ht
      rw [namedFunction?] at hf
      split at hf
      · exact .function (Model.mem_functions_of_functionsNamed (List.mem_of_find?_eq_some hf))
      · cases hf
    | function hs =>
      cases List.mem_singleton.1 ht
      exact .lambda hs
    | lazy => cases List.mem_singleton.1 ht
  | @bound b hf =>
    rcases ofBinding_cases key context b with ⟨he, _⟩ | ⟨owner, _, he, _⟩
    · rw [he] at ht
      cases Catalogue.binds_of_resolve hf.found with
      | explicit hlookup =>
        cases List.mem_singleton.1 ht
        obtain ⟨l, hl, f, hoffers, rfl⟩ := Catalogue.offers_of_lookup_bindings hlookup
        exact .member (Catalogue.mem_callables_of_mem_levels hc hl hoffers.member)
      | collection hlookup =>
        obtain ⟨p, hp, hs⟩ := List.mem_map.1 ht
        cases hs
        rw [(Catalogue.parts_of_lookup_containers hlookup).2.1] at hp
        obtain ⟨n, hn, rfl⟩ := List.mem_map.1 hp
        obtain ⟨hl, hf, _⟩ := Catalogue.mem_levels_of_mem_contributors hn
        exact .member (Catalogue.mem_callables_of_mem_levels hc hl hf)
      | constructed _ hcls _ hk =>
        cases List.mem_singleton.1 ht
        exact .constructor (Model.mem_classifiers_of_classOf hcls) hk
      | required hlookup =>
        cases List.mem_singleton.1 ht
        obtain ⟨l, hl, f, hoffers, rfl, _⟩ := Catalogue.offers_of_lookup_requirements hlookup
        exact .member (Catalogue.mem_callables_of_mem_levels hc hl hoffers.member)
    · rw [he] at ht
      cases List.mem_singleton.1 ht

end Resolver

end Wiring
