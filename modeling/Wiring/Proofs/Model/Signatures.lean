import Mathlib.Data.List.Forall2
import Wiring.Proofs.Model.Instantiation

/-!
# Members of copies

The members that the copies of generic ancestors declare, beside those of the originals. A copied
member has the signature of the original with its type parameters replaced, and whatever is not
written with types stays as it is. Which members of a chain count is the same over the copies when
the replaced signatures override each other as the written ones do.
-/

namespace Wiring

/-- An element without its text. -/
def Element.outline (e : Element) : Element := { e with trace := "" }

/-- What kind of thing an element stands for, and where that is declared. -/
def Element.shape (e : Element) : Element := ⟨⟨e.id.kind, ""⟩, "", e.span⟩

namespace Callable

/-- A callable without its result type and without the text of its element. -/
def outline (f : Callable) : Callable :=
  { f with element := f.element.outline, returns := .unit }

/-- A callable without the types in its signature and without the text and the path of its element,
which are made from them. -/
def shape (f : Callable) : Callable :=
  { f with element := f.element.shape, params := [], receiver := none, returns := .unit }

/-- What `c` supplies for the type parameters of the class that declares a member; `none` when it
does not inherit the member. -/
def suppliedBy (m : Model) (c : Classifier) (f : Callable) : Option Bindings :=
  match f.origin with
  | .member index _ => c.supplied m index
  | .function _ => none

/-- A type in the signature of a callable with the type parameters replaced by what `c` supplies. -/
def typeFor (m : Model) (c : Classifier) (f : Callable) (t : TypeExpr) : TypeExpr :=
  t.substitute ((f.suppliedBy m c).getD [])

/-- Whether one callable has the shape of another once type parameters are replaced by what `c`
supplies for them. -/
def overridesFor (m : Model) (c : Classifier) (f g : Callable) : Bool :=
  f.name == g.name && f.kind == g.kind
    && f.receiver.map (f.typeFor m c) == g.receiver.map (g.typeFor m c)
    && f.params.map (fun p => f.typeFor m c p.type) == g.params.map fun p => g.typeFor m c p.type

/-- The parameters and the receiver of a callable have the types that `c` sees. -/
def KeepsSignature (m : Model) (c : Classifier) (f : Callable) : Prop :=
  (∀ p ∈ f.params, f.typeFor m c p.type = p.type) ∧ ∀ t ∈ f.receiver, f.typeFor m c t = t

instance (m : Model) (c : Classifier) (f : Callable) : Decidable (f.KeepsSignature m c) :=
  inferInstanceAs (Decidable (_ ∧ _))

/-- The member `f'` of a copy is the member `f` with its type parameters replaced. -/
structure Copied (m : Model) (c : Classifier) (f f' : Callable) : Prop where
  shape : f'.shape = f.shape
  params : f'.params.map (·.type) = f.params.map fun p => f.typeFor m c p.type
  receiver : f'.receiver = f.receiver.map (f.typeFor m c)
  returns : f'.returns = f.typeFor m c f.returns
  outline : f.KeepsSignature m c → f'.outline = f.outline

variable {m : Model} {c d : Classifier} {f g f' g' : Callable}

/-- Copies of members have one shape exactly if the members have once type parameters are replaced.
-/
theorem Copied.overrides_eq (hg : Copied m c g g') (hf : Copied m c f f') :
    g'.overrides f' = g.overridesFor m c f := by
  have hname : ∀ {f f' : Callable}, Copied m c f f' → f'.name = f.name := fun h =>
    (congrArg Callable.name h.shape :)
  have hkind : ∀ {f f' : Callable}, Copied m c f f' → f'.kind = f.kind := fun h =>
    (congrArg Callable.kind h.shape :)
  rw [overrides, overridesFor, hname hg, hname hf, hkind hg, hkind hf, hg.receiver, hf.receiver,
    hg.params, hf.params]

/-- A copied member asks for a value if the original would with the result that `c` supplies. -/
theorem Copied.isProvider_eq (h : Copied m c f f') : Role.isProvider f'
    = Role.isProvider { f with returns := f.typeFor m c f.returns } := by
  have hprovides : Role.isProvides f' = Role.isProvides f := (congrArg Role.isProvides h.shape :)
  have habstract : f'.isAbstract = f.isAbstract := (congrArg isAbstract h.shape :)
  have hkind : f'.kind = f.kind := (congrArg kind h.shape :)
  have hparams : f'.params.isEmpty = f.params.isEmpty := by
    have hempty := congrArg List.isEmpty h.params
    rwa [List.isEmpty_map, List.isEmpty_map] at hempty
  have hreceiver : f'.receiver.isNone = f.receiver.isNone := by
    rw [h.receiver, Option.isNone_map]
  rw [Role.isProvider, Role.isProvider, hprovides, habstract, hkind, hparams, hreceiver, h.returns]
  rfl

/-- A class sees the result types that it supplies. -/
theorem returnsFor_eq_typeFor (hc : m.classNamed c.path = some c) (f : Callable) :
    f.returnsFor m c = f.typeFor m c f.returns := by
  rw [returnsFor, typeFor, suppliedBy, hc]
  cases f.origin with
  | function i => exact (TypeExpr.substitute_nil f.returns).symm
  | member index i =>
    dsimp only [Option.bind]
    cases c.supplied m index with
    | none => exact (TypeExpr.substitute_nil f.returns).symm
    | some b => rfl

/-- A copy supplies what the class supplies, but nothing where `c` does. -/
theorem suppliedBy_instantiated (hc : c ∈ m.classifiers) (hd : d ∈ m.classifiers)
    (h : f'.origin = f.origin) : f'.suppliedBy (m.instantiated c) (d.instantiatedFor m c)
      = (f.suppliedBy m d).map fun b => if (f.suppliedBy m c).isSome then [] else b := by
  rw [suppliedBy, suppliedBy, suppliedBy, h]
  cases f.origin with
  | function i => rfl
  | member index i => exact Classifier.supplied_instantiated hc hd index

/-- Seen from a copy, a copied member has the result type that the original has seen from the class,
when the class and `c` see one result type where `c` inherits the member. -/
theorem Copied.returnsFor_eq (hc : m.classNamed c.path = some c)
    (hd : m.classNamed d.path = some d) (h : Copied m c f f')
    (hshared : (f.suppliedBy m c).isSome → f.returnsFor m d = f.returnsFor m c) :
    f'.returnsFor (m.instantiated c) (d.instantiatedFor m c) = f.returnsFor m d := by
  have hd' : (m.instantiated c).classNamed (d.instantiatedFor m c).path
      = some (d.instantiatedFor m c) := by
    rw [Model.classNamed_instantiated, Classifier.path_instantiatedFor, hd]
    rfl
  have horigin : f'.origin = f.origin := (congrArg origin h.shape :)
  rw [returnsFor_eq_typeFor hd', typeFor, suppliedBy_instantiated
    (Model.mem_classifiers_of_classNamed hc).1 (Model.mem_classifiers_of_classNamed hd).1 horigin,
    h.returns]
  cases hs : f.suppliedBy m c with
  | none =>
    have hself : f.typeFor m c f.returns = f.returns := by
      rw [typeFor, hs]
      exact TypeExpr.substitute_nil f.returns
    rw [hself, returnsFor_eq_typeFor hd, typeFor]
    simp only [Option.isSome_none, Bool.false_eq_true, if_false, Option.map_id_fun', id]
  | some b =>
    rw [hshared (by rw [hs]; rfl), returnsFor_eq_typeFor hc]
    cases f.suppliedBy m d <;> exact TypeExpr.substitute_nil _

end Callable

namespace Classifier

variable {m : Model} {c d : Classifier}

/-- The member that a copy declares is the one that the class declares in its place, with its type
parameters replaced. -/
theorem copied_memberAt {b : Bindings} (hb : c.supplied m d.index = some b) (i : Nat)
    (e : MemberDecl) : Callable.Copied m c (d.memberAt m i e)
      ((d.instantiatedFor m c).memberAt (m.instantiated c) i (e.instantiate b)) := by
  have hcopy : d.instantiatedFor m c = { d with decl := d.decl.instantiate b } := by
    rw [instantiatedFor, hb]
  have htype : ∀ t, (d.memberAt m i e).typeFor m c t = t.substitute b := by
    intro t
    have hsupplied : (d.memberAt m i e).suppliedBy m c = some b := hb
    rw [Callable.typeFor, hsupplied, Option.getD_some]
  rw [hcopy]
  refine ⟨?_, ?_, ?_, ?_, ?_⟩
  · cases hkind : e.kind <;>
      simp [memberAt, MemberDecl.instantiate, Callable.shape, Element.shape, Element.make,
        Model.annotationsOf_instantiated, hkind]
  · simp only [htype]
    cases hkind : e.kind <;>
      simp [memberAt, MemberDecl.instantiate, ParamDecl.instantiate, Model.paramsOf, hkind]
  · rw [funext htype]
    rfl
  · rw [htype]
    rfl
  · rintro ⟨hparams, hreceiver⟩
    have hr : e.receiver.map (·.substitute b) = e.receiver := by
      cases hr : e.receiver with
      | none => rfl
      | some t => rw [Option.map_some, ← htype, hreceiver t hr]
    cases hkind : e.kind with
    | property =>
      simp [memberAt, MemberDecl.instantiate, ClassDecl.instantiate, ClassDecl.qualifiedName,
        Callable.outline, Element.outline, Element.make, Model.annotationsOf_instantiated, hkind,
        hr]
    | function =>
      have hfixed : ∀ p ∈ (d.memberAt m i e).params, p.type.substitute b = p.type :=
        fun p hp => (htype p.type).symm.trans (hparams p hp)
      simp only [memberAt, hkind, Model.paramsOf, List.mem_map, forall_exists_index, and_imp,
        forall_apply_eq_imp_iff₂] at hfixed
      have hp : e.params.map (·.instantiate b) = e.params := by
        refine (List.map_congr_left fun p hp => ?_).trans (List.map_id e.params)
        rw [ParamDecl.instantiate, hfixed p hp]
        rfl
      simp [memberAt, MemberDecl.instantiate, ClassDecl.instantiate, ClassDecl.qualifiedName,
        Callable.outline, Element.outline, Element.make, Model.annotationsOf_instantiated,
        Model.paramsOf_instantiated, hkind, hr, hp]

/-- A callable from which nothing is replaced is its own copy. -/
theorem copied_self {f : Callable} (h : f.suppliedBy m c = none) : Callable.Copied m c f f := by
  have htype : f.typeFor m c = id := by
    funext t
    rw [Callable.typeFor, h]
    exact t.substitute_nil
  refine ⟨rfl, ?_, ?_, ?_, fun _ => rfl⟩
  · rw [htype]
    rfl
  · rw [htype, Option.map_id, id]
  · rw [htype, id]

/-- The members of a copy are those of the class with their type parameters replaced, one by one. -/
theorem copied_members (m : Model) (c d : Classifier) : List.Forall₂ (Callable.Copied m c)
    (d.members m) ((d.instantiatedFor m c).members (m.instantiated c)) := by
  cases hb : c.supplied m d.index with
  | none =>
    have hcopy : d.instantiatedFor m c = d := by rw [instantiatedFor, hb]
    rw [hcopy]
    refine List.forall₂_same.2 fun f hf => copied_self ?_
    obtain ⟨i, hi⟩ := exists_origin_of_mem_members hf
    rw [Callable.suppliedBy, hi]
    exact hb
  | some b =>
    have hmembers : (d.instantiatedFor m c).decl.members
        = d.decl.members.map (·.instantiate b) := by
      rw [instantiatedFor, hb]
      rfl
    rw [members, members, isCompanion_instantiatedFor, hmembers]
    split
    · exact .nil
    · rw [List.zipIdx_map, List.map_map]
      exact List.forall₂_map_left_iff.2 (List.forall₂_map_right_iff.2
        (List.forall₂_same.2 fun e _ => copied_memberAt hb e.2 e.1))

/-- Lists of callables that override each other alike lose the same places. -/
theorem forall₂_dropOverridden {R : Callable → Callable → Prop}
    (hR : ∀ f f' g g', R f f' → R g g' → g'.overrides f' = g.overrides f) :
    ∀ {fs fs' earlier earlier' : List Callable}, List.Forall₂ R fs fs' →
      List.Forall₂ R earlier earlier' →
      List.Forall₂ R (dropOverridden earlier fs) (dropOverridden earlier' fs') := by
  intro fs fs' earlier earlier' hfs
  induction hfs generalizing earlier earlier' with
  | nil =>
    intro _
    exact .nil
  | @cons f f' fs fs' hf _ ih =>
    intro hearlier
    have hany : (earlier'.any fun g => g.overrides f') = earlier.any fun g => g.overrides f := by
      clear ih
      induction hearlier with
      | nil => rfl
      | cons hg _ ih => rw [List.any_cons, List.any_cons, hR _ _ _ _ hf hg, ih]
    rw [dropOverridden, dropOverridden, hany]
    split
    · exact ih hearlier
    · exact .cons hf (ih (List.rel_append hearlier (.cons hf .nil)))

/-- The members of the chain of a class override each other as they are written, also when their
type parameters are replaced by what `c` supplies. -/
def KeepsOverrides (m : Model) (d c : Classifier) : Prop :=
  ∀ f ∈ (d.chain m).flatMap (members m), ∀ g ∈ (d.chain m).flatMap (members m),
    g.overridesFor m c f = g.overrides f

instance (m : Model) (d c : Classifier) : Decidable (d.KeepsOverrides m c) :=
  inferInstanceAs (Decidable (∀ f ∈ _, ∀ g ∈ _, _))

/-- The members of a copy and its ancestors that count are those of the class with their type
parameters replaced, one by one. -/
theorem copied_allMembers (h : d.KeepsOverrides m c) : List.Forall₂ (Callable.Copied m c)
    (d.allMembers m) ((d.instantiatedFor m c).allMembers (m.instantiated c)) := by
  have hflat : ∀ ds : List Classifier, List.Forall₂ (Callable.Copied m c) (ds.flatMap (members m))
      ((ds.map (·.instantiatedFor m c)).flatMap (members (m.instantiated c))) := by
    intro ds
    induction ds with
    | nil => exact .nil
    | cons e ds ih =>
      rw [List.map_cons, List.flatMap_cons, List.flatMap_cons]
      exact List.rel_append (copied_members m c e) ih
  have hmem : List.Forall₂
      (fun f f' => f ∈ (d.chain m).flatMap (members m) ∧ Callable.Copied m c f f')
      ((d.chain m).flatMap (members m))
      (((d.chain m).map (·.instantiatedFor m c)).flatMap (members (m.instantiated c))) :=
    (List.forall₂_and_left _ _).2 ⟨fun f hf => hf, hflat _⟩
  rw [allMembers, allMembers, chain_instantiated]
  refine (forall₂_dropOverridden (fun f f' g g' hf hg => ?_) hmem .nil).imp fun f f' hf => hf.2
  rw [hg.2.overrides_eq hf.2]
  exact h f hf.1 g hg.1

end Classifier

end Wiring
