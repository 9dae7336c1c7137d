import Mathlib.Data.Set.Finite.List
import Wiring.Proofs.Model.Assignability
import Wiring.Proofs.Sketch
import Wiring.Proofs.Type.Replacement

/-!
# Type arguments and aliases in place of each other

Types are told apart by the way they are written, and supertypes are compared as they are written
on a class. A class that is applied to arguments can be used as a supertype of its own with the
arguments put in just where the supertype does not mention type parameters, and an alias can be
used as what is written above the type it stands for, but not as that type itself.
-/

namespace Wiring

open TypeExpr (ownArguments)

namespace TypeExpr

variable {params fresh : List String} {args as : List TypeExpr} {b : Bindings} {t u : TypeExpr}
  {k f : String}

/-- No type along a chain of aliases is marked as nullable. -/
def Unmarked : TypeExpr → Prop
  | declared _ _ _ q => q = false
  | aliased _ _ _ q t => q = false ∧ t.Unmarked

/-! ### Names that are written nowhere -/

/-- As many fresh names can be had as are wanted. -/
theorem exists_fresh (names : List String) (n : Nat) :
    ∃ fresh : List String, fresh.Nodup ∧ fresh.length = n ∧ ∀ f ∈ fresh, f ∉ names := by
  have hinfinite : {f | f ∉ names}.Infinite := (List.finite_toSet names).infinite_compl
  obtain ⟨fresh, hfresh, hcard⟩ := hinfinite.exists_subset_card_eq n
  refine ⟨fresh.toList, fresh.nodup_toList, ?_, fun f hf => hfresh (Finset.mem_toList.1 hf)⟩
  rw [Finset.length_toList, hcard]

/-- A type that a name comes out of without being mentioned in it is a bare name that was bound to
that name. -/
theorem eq_of_substitute_eq (h : t.substitute b = declared "" f [] false) (hf : ¬ t.Mentions f) :
    ∃ n, t = declared "" n [] false ∧ b.lookup n = some (declared "" f [] false) := by
  cases t with
  | aliased p n as q t =>
    rw [substitute] at h
    cases h
  | declared p n as q =>
    rcases substitute_declared b p n as q with ⟨rfl, rfl, u, hu, hbound⟩ | ⟨_, hkept⟩
    · rw [h] at hbound
      cases q with
      | true =>
        rw [if_pos rfl] at hbound
        have hmark := congrArg nullable hbound
        rw [nullable_withNullable] at hmark
        cases hmark
      | false => exact ⟨n, rfl, hu.trans (congrArg some hbound.symm)⟩
    · rw [hkept] at h
      obtain ⟨rfl, rfl, has, rfl⟩ := declared.inj h
      rw [substituteList_eq_map, List.map_eq_nil_iff] at has
      exact absurd (mentions_declared_iff.2 (.inl ⟨rfl, rfl, has⟩)) hf

/-- Types that distinct names come out of, put in for parameters, are the parameters. -/
theorem eq_ownArguments_of_substitute (hn : fresh.Nodup) (hl : fresh.length = params.length)
    (hfresh : ∀ f ∈ fresh, ∀ a ∈ as, ¬ a.Mentions f)
    (h : as.map (substitute (params.zip (ownArguments fresh)).reverse) = ownArguments fresh) :
    params.Nodup ∧ as = ownArguments params := by
  have heq : as = ownArguments params := by
    have hlength := congrArg List.length h
    rw [List.length_map, length_ownArguments, hl] at hlength
    refine List.ext_getElem (hlength.trans length_ownArguments.symm) fun i hi hi' => ?_
    rw [length_ownArguments] at hi'
    have hf : i < fresh.length := hl ▸ hi'
    have hout : as[i].substitute (params.zip (ownArguments fresh)).reverse
        = declared "" fresh[i] [] false := by
      have hget := List.getElem_of_eq h (by rwa [List.length_map])
      rwa [List.getElem_map, getElem_ownArguments _ hf] at hget
    obtain ⟨k, hk, hu⟩ := eq_of_substitute_eq hout
      (hfresh _ (List.getElem_mem hf) _ (List.getElem_mem hi))
    -- The name was bound at its own place.
    obtain ⟨j, hj, hpair⟩ := List.getElem_of_mem (mem_zip_of_lookup hu)
    rw [List.length_zip, length_ownArguments, hl, Nat.min_self] at hj
    rw [List.getElem_zip, getElem_ownArguments _ (hl ▸ hj)] at hpair
    obtain ⟨hparam, hname⟩ := Prod.mk.inj hpair
    have hplace : j = i := (hn.getElem_inj_iff).1 (declared.inj hname).2.1
    subst hplace
    rw [hk, ← hparam, getElem_ownArguments _ hi']
  refine ⟨?_, heq⟩
  have hnodup := (nodup_ownArguments_iff.2 hn)
  rw [← h] at hnodup
  exact nodup_ownArguments_iff.1 (heq ▸ hnodup.of_map _)

end TypeExpr

/-- The type of a class applied to arguments. -/
def Classifier.applied (c : Classifier) (args : List TypeExpr) : TypeExpr :=
  c.type.withArguments args

namespace Model

variable {m : Model} {c : Classifier} {args : List TypeExpr} {s t u : TypeExpr} {f : String}

/-- The names of the classes, and those that are written in their supertypes. -/
def writtenNames (m : Model) : List String :=
  m.classifiers.flatMap fun c => c.name :: c.superTypes.flatMap fun s => s.parts.map (·.name)

/-- No class has a fresh name. -/
theorem ne_name_of_fresh (hf : f ∉ m.writtenNames) (hc : c ∈ m.classifiers) : f ≠ c.name := by
  rintro rfl
  exact hf (List.mem_flatMap.2 ⟨c, hc, List.mem_cons_self ..⟩)

/-- A fresh name is in no supertype of a class. -/
theorem not_mentions_of_fresh (hf : f ∉ m.writtenNames) (hc : c ∈ m.classifiers)
    (hs : s ∈ c.superTypes) : ¬ s.Mentions f := by
  rintro ⟨q, hpart⟩
  refine hf (List.mem_flatMap.2 ⟨c, hc, List.mem_cons_of_mem _ (List.mem_flatMap.2 ⟨s, hs, ?_⟩)⟩)
  exact List.mem_map.2 ⟨_, hpart, rfl⟩

/-! ### Type arguments -/

/-- Applied to any arguments a class can be used as a supertype of it with the arguments put in for
its type parameters. -/
def RespectsArguments (m : Model) (c : Classifier) (s : TypeExpr) : Prop :=
  ∀ args, args.length = c.decl.typeParameters.length →
    m.isAssignable (s.substitute (bind c args)) (c.applied args) = true

/-- A class applied to arguments can be used as itself and, whatever the arguments, as what is
written above it. -/
theorem isAssignable_applied_iff : m.isAssignable s (c.applied args) = true ↔
    c.applied args = s.nonNull ∨ m.InheritsType c.type s.nonNull := by
  have habove : m.WrittenAbove (c.applied args).nonNull s.nonNull ↔
      c.applied args = s.nonNull ∨ m.InheritsType c.type s.nonNull := writtenAbove_iff
  rw [isAssignable_iff, habove]
  constructor
  · rintro (rfl | ⟨_, h⟩)
    · exact .inl rfl
    · exact h
  · exact fun h => .inr ⟨.inr rfl, h⟩

/-- A type that mentions no type parameter of a class is the same whatever they are bound to. -/
theorem substitute_bind_of_not_mentions (h : ∀ n ∈ c.decl.typeParameters, ¬ s.Mentions n) :
    s.substitute (bind c args) = s := by
  refine TypeExpr.substitute_self s fun n hmention u hu => absurd hmention (h n ?_)
  exact (List.of_mem_zip (TypeExpr.mem_zip_of_lookup hu)).1

/-- A supertype becomes the class applied to fresh names only if it is the class applied to its own
type parameters. -/
theorem eq_applied_of_fresh {fresh : List String} (hn : fresh.Nodup)
    (hl : fresh.length = c.decl.typeParameters.length) (hname : ∀ f ∈ fresh, f ≠ c.name)
    (hfresh : ∀ f ∈ fresh, ¬ s.Mentions f)
    (h : c.applied (ownArguments fresh) = (s.substitute (bind c (ownArguments fresh))).nonNull) :
    c.decl.typeParameters.Nodup ∧ s.nonNull = c.applied (ownArguments c.decl.typeParameters) := by
  cases s with
  | aliased p n as q t =>
    rw [TypeExpr.substitute] at h
    cases h
  | declared p n as q =>
    rcases TypeExpr.substitute_declared (bind c (ownArguments fresh)) p n as q with
      ⟨rfl, rfl, u, hu, hbound⟩ | ⟨_, hkept⟩
    · -- A fresh name is not the name of the class.
      have hmem := (List.of_mem_zip (TypeExpr.mem_zip_of_lookup hu)).2
      obtain ⟨f, hf, rfl⟩ := List.mem_map.1 hmem
      rw [hbound] at h
      have heq : c.name = f := by
        cases q <;> exact congrArg TypeExpr.name h
      exact absurd heq.symm (hname f hf)
    · rw [hkept] at h
      obtain ⟨rfl, rfl, has, _⟩ := TypeExpr.declared.inj h
      rw [TypeExpr.substituteList_eq_map] at has
      have hparts : ∀ f ∈ fresh, ∀ a ∈ as, ¬ a.Mentions f := fun f hf a ha hmention =>
        hfresh f hf (TypeExpr.mentions_declared_iff.2 (.inr ⟨a, ha, hmention⟩))
      obtain ⟨hparams, rfl⟩ := TypeExpr.eq_ownArguments_of_substitute hn hl hparts has.symm
      exact ⟨hparams, rfl⟩

/-- The class applied to its own type parameters becomes the class applied to the arguments. -/
theorem applied_eq_substitute (hn : c.decl.typeParameters.Nodup)
    (hl : args.length = c.decl.typeParameters.length)
    (h : s.nonNull = c.applied (ownArguments c.decl.typeParameters)) :
    c.applied args = (s.substitute (bind c args)).nonNull := by
  cases s with
  | aliased p n as q t => cases h
  | declared p n as q =>
    obtain ⟨rfl, rfl, rfl, _⟩ := TypeExpr.declared.inj h
    rcases TypeExpr.substitute_declared (bind c args) c.package c.name
      (ownArguments c.decl.typeParameters) q with ⟨_, hnone, u, hu, _⟩ | ⟨_, hkept⟩
    · -- Without type parameters nothing is bound.
      rw [ownArguments, List.map_eq_nil_iff] at hnone
      rw [bind, hnone, List.zip_nil_left] at hu
      cases hu
    · rw [hkept, TypeExpr.substituteList_eq_map]
      exact congrArg c.applied (TypeExpr.map_substitute_ownArguments hn hl).symm

/-- Arguments are respected exactly where the supertype is the class applied to its own type
parameters, or mentions none of them and is written without a nullable mark above the class. -/
theorem respectsArguments_iff (hc : c ∈ m.classifiers) (hs : s ∈ c.superTypes) :
    m.RespectsArguments c s ↔
      (c.decl.typeParameters.Nodup ∧
        s.nonNull = c.applied (ownArguments c.decl.typeParameters)) ∨
      ((∀ n ∈ c.decl.typeParameters, ¬ s.Mentions n) ∧ m.InheritsType c.type s.nonNull) := by
  constructor
  · intro h
    obtain ⟨fresh, hn, hl, hfresh⟩ :=
      TypeExpr.exists_fresh m.writtenNames c.decl.typeParameters.length
    have hlength : (ownArguments fresh).length = c.decl.typeParameters.length := by
      rw [TypeExpr.length_ownArguments, hl]
    rcases isAssignable_applied_iff.1 (h _ hlength) with heq | hinherits
    · exact .inl (eq_applied_of_fresh hn hl (fun f hf => ne_name_of_fresh (hfresh f hf) hc)
        (fun f hf => not_mentions_of_fresh (hfresh f hf) hc hs) heq)
    · -- What is written in the program mentions no fresh name.
      have hnone : ∀ n ∈ c.decl.typeParameters, ¬ s.Mentions n := by
        intro n hparam hmention
        obtain ⟨u, hu, hlookup⟩ := TypeExpr.exists_lookup hlength hparam
        obtain ⟨f, hf, rfl⟩ := List.mem_map.1 hu
        have hout : (s.substitute (bind c (ownArguments fresh))).Mentions f :=
          hmention.substitute hlookup
        obtain ⟨d, hd, e, he, hwritten⟩ := hinherits
        refine not_mentions_of_fresh (hfresh f hf) (Classifier.mem_classifiers_of_mem_chain
          (mem_classifiers_of_classOf hd) he) hwritten ?_
        exact TypeExpr.mentions_withNullable_iff.2 hout
      rw [substitute_bind_of_not_mentions hnone] at hinherits
      exact .inr ⟨hnone, hinherits⟩
  · rintro (⟨hparams, hself⟩ | ⟨hnone, hinherits⟩) args hl
    · exact isAssignable_applied_iff.2 (.inl (applied_eq_substitute hparams hl hself))
    · rw [substitute_bind_of_not_mentions hnone]
      exact isAssignable_applied_iff.2 (.inr hinherits)

/-! ### Aliases -/

/-- An alias can be used as the type it stands for, and as all that this can be used as. -/
def RespectsAlias (m : Model) (t : TypeExpr) : Prop :=
  m.isAssignable t.resolved t = true ∧
    ∀ u, m.isAssignable u t.resolved = true → m.isAssignable u t = true

/-- What is written above a type is written above its aliases. -/
theorem inheritsType_resolved :
    m.InheritsType t.resolved.nonNull s ↔ m.InheritsType t.nonNull s := by
  rw [InheritsType, InheritsType, classOf_nonNull, classOf_nonNull, classOf, classOf,
    TypeExpr.resolved_resolved]

/-- An alias that is not marked can be used as all that the type it stands for can be used as, save
for that type itself. -/
theorem isAssignable_of_resolved (hq : t.nullable = false)
    (h : m.isAssignable u t.resolved = true) (hne : u.nonNull ≠ t.resolved.nonNull) :
    m.isAssignable u t = true := by
  rcases isAssignable_iff.1 h with rfl | ⟨_, habove⟩
  · exact absurd rfl hne
  · rcases writtenAbove_iff.1 habove with heq | hinherits
    · exact absurd heq.symm hne
    · exact isAssignable_iff.2 (.inr ⟨.inr hq,
        writtenAbove_iff.2 (.inr (inheritsType_resolved.1 hinherits))⟩)

/-- An alias is never the type that it stands for. -/
theorem ne_resolved_of_isAlias (ht : t.isAlias = true) : t.nonNull ≠ t.resolved.nonNull := by
  have hresolved : t.resolved.nonNull.isAlias = false := by
    induction t using TypeExpr.resolved.induct with
    | case1 p n as q => rfl
    | case2 p n as q t ih =>
      cases t with
      | declared => rfl
      | aliased => exact ih rfl
  intro h
  rw [← h] at hresolved
  cases t with
  | declared => cases ht
  | aliased => cases hresolved

/-- An alias that is not marked can be used as the type it stands for exactly where that type is
written above its own class. -/
theorem respectsAlias_iff (ht : t.isAlias = true) (hq : t.nullable = false) :
    m.RespectsAlias t ↔ m.InheritsType t.nonNull t.resolved.nonNull := by
  have hne := ne_resolved_of_isAlias ht
  constructor
  · rintro ⟨hresolved, _⟩
    rcases isAssignable_iff.1 hresolved with heq | ⟨_, habove⟩
    · exact absurd (congrArg TypeExpr.nonNull heq.symm) hne
    · exact (writtenAbove_iff.1 habove).resolve_left hne
  · intro hinherits
    have hresolved : m.isAssignable t.resolved t = true :=
      isAssignable_iff.2 (.inr ⟨.inr hq, writtenAbove_iff.2 (.inr hinherits)⟩)
    exact ⟨hresolved, fun u hu => (ordersTypes m).trans u t.resolved t hresolved hu⟩

/-! ### Where arguments and aliases are respected -/

/-- Which types can be used in place of each other respects type arguments and aliases. -/
structure RespectsTypes (m : Model) : Prop where
  /-- A class applied to arguments can be used as each of its supertypes with the arguments put
  in. -/
  arguments : ∀ c ∈ m.classifiers, ∀ s ∈ c.superTypes, m.RespectsArguments c s
  /-- An alias without marks can be used as the type it stands for and as all that this can be used
  as. -/
  aliases : ∀ t, t.isAlias = true → t.Unmarked → m.RespectsAlias t

/-- Types are compared as they are written. -/
structure ComparesWritten (m : Model) : Prop where
  /-- Arguments are put into a supertype that is the class applied to its own type parameters, and
  into one that mentions none of them and is written without a mark on the class or an ancestor. -/
  arguments_iff : ∀ c ∈ m.classifiers, ∀ s ∈ c.superTypes, m.RespectsArguments c s ↔
    (c.decl.typeParameters.Nodup ∧
      s.nonNull = c.applied (ownArguments c.decl.typeParameters)) ∨
    ((∀ n ∈ c.decl.typeParameters, ¬ s.Mentions n) ∧ m.InheritsType c.type s.nonNull)
  /-- An alias can be used as the type it stands for if that is a supertype written on its own class
  or an ancestor. -/
  aliases_iff : ∀ t, t.isAlias = true → t.nullable = false →
    (m.RespectsAlias t ↔ m.InheritsType t.nonNull t.resolved.nonNull)
  /-- An alias can be used as every other type that the one it stands for can be used as. -/
  above_alias : ∀ t u, t.isAlias = true → t.nullable = false →
    m.isAssignable u t.resolved = true → u.nonNull ≠ t.resolved.nonNull →
    m.isAssignable u t = true

/-- In every program type arguments and aliases are respected just as far as types are written. -/
theorem comparesWritten (m : Model) : ComparesWritten m where
  arguments_iff _ hc _ hs := respectsArguments_iff hc hs
  aliases_iff _ ht hq := respectsAlias_iff ht hq
  above_alias _ _ _ hq h hne := isAssignable_of_resolved hq h hne

/-- A box that holds things of its type parameter. -/
def holders : Model :=
  Sketch.program [
    { package := "app", name := "Holder", typeParameters := ["T"], isInterface := true },
    { package := "app", name := "Box", typeParameters := ["T"]
      superTypes := [.declared "app" "Holder" [.ofName "" "T"] false] }]

/-- A box of books cannot be used as a holder of books, and a crate, which is another name for a box
of books, cannot be used as a box of books. -/
theorem not_respectsTypes_holders :
    let books := [Sketch.type "Book"]
    let box : TypeExpr := .declared "app" "Box" books false
    let crate : TypeExpr := .aliased "app" "Crate" [] false box
    ¬ RespectsTypes holders ∧ crate.Unmarked ∧
      holders.isAssignable (.declared "app" "Holder" books false) box = false ∧
      holders.isAssignable crate.resolved crate = false := by
  intro books box crate
  have hholder : holders.isAssignable (.declared "app" "Holder" books false) box = false := by
    decide +kernel
  refine ⟨fun h => ?_, ⟨rfl, rfl⟩, hholder, by decide +kernel⟩
  have hbox : holders.classifiers[1] ∈ holders.classifiers := List.getElem_mem _
  have hput := h.arguments _ hbox _ (List.mem_singleton_self _) books rfl
  exact Bool.noConfusion (hput.symm.trans hholder)

end Model

end Wiring
