import Wiring.Proofs.Model.Ancestry

/-!
# Which values can be used where

A value of a type can be used as each supertype that is written on the class of the type, on the
class of that supertype, and so on. A search that keeps the types to look at in a stack, and opens
no class twice, finds exactly the types that are written above a type in this sense, also where one
class is come to with different arguments or hierarchies have cycles. Being usable in place of each
other is reflexive and transitive.
-/

namespace Wiring

namespace TypeExpr

variable {t : TypeExpr} {q r : Bool}

/-- Setting the nullable mark before it is cleared makes no difference. -/
@[simp] theorem nonNull_withNullable : (t.withNullable q).nonNull = t.nonNull := by
  cases t <;> rfl

/-- Clearing the nullable mark twice is clearing it once. -/
theorem nonNull_nonNull : t.nonNull.nonNull = t.nonNull := nonNull_withNullable

/-- A cleared mark is not there. -/
@[simp] theorem nullable_nonNull : t.nonNull.nullable = false := nullable_withNullable false t

/-- A nullable mark does not change which class a type names. -/
theorem qualifiedName_resolved_withNullable :
    (t.withNullable q).resolved.qualifiedName = t.resolved.qualifiedName := by
  cases t <;> rfl

end TypeExpr

namespace Model

/-- A supertype that the class of a type is written with. -/
def WrittenOn (m : Model) (t s : TypeExpr) : Prop :=
  ∃ c, m.classOf t = some c ∧ s ∈ c.superTypes

/-- A type is another one, or is written above it. -/
def WrittenAbove (m : Model) : TypeExpr → TypeExpr → Prop :=
  Relation.ReflTransGen m.WrittenOn

/-- A search for a type among those to look at and those written above them, with the classes that
have been opened, ends with an answer. The type pushed last is looked at first. -/
inductive Searches (m : Model) (target : TypeExpr) : List TypeExpr → List Nat → Bool → Prop where
  | found {todo seen} : Searches m target (target :: todo) seen true
  | exhausted {seen} : Searches m target [] seen false
  | undeclared {t todo seen answer} (hne : t ≠ target) (hclass : m.classOf t = none)
      (h : Searches m target todo seen answer) : Searches m target (t :: todo) seen answer
  | again {t c todo seen answer} (hne : t ≠ target) (hclass : m.classOf t = some c)
      (hseen : c.index ∈ seen) (h : Searches m target todo seen answer) :
      Searches m target (t :: todo) seen answer
  | enter {t c todo seen answer} (hne : t ≠ target) (hclass : m.classOf t = some c)
      (hnew : c.index ∉ seen)
      (h : Searches m target (c.superTypes.reverse ++ todo) (c.index :: seen) answer) :
      Searches m target (t :: todo) seen answer

variable {m : Model} {target source s t : TypeExpr} {todo : List TypeExpr} {seen : List Nat}
  {answer answer' : Bool} {c e : Classifier}

/-! ### The search -/

/-- Every search comes to an end. -/
theorem exists_searches (m : Model) (target : TypeExpr) (todo : List TypeExpr) (seen : List Nat) :
    ∃ answer, m.Searches target todo seen answer := by
  induction hn : todo.length + m.unseenSupersAt seen using Nat.strongRecOn
    generalizing todo seen with
  | ind n ih =>
    cases todo with
    | nil => exact ⟨false, .exhausted⟩
    | cons t todo =>
      rw [List.length_cons] at hn
      by_cases hfound : t = target
      · subst hfound
        exact ⟨true, .found⟩
      · cases hclass : m.classOf t with
        | none =>
          obtain ⟨answer, h⟩ := ih _ (by omega) todo seen rfl
          exact ⟨answer, .undeclared hfound hclass h⟩
        | some c =>
          by_cases hseen : c.index ∈ seen
          · obtain ⟨answer, h⟩ := ih _ (by omega) todo seen rfl
            exact ⟨answer, .again hfound hclass hseen h⟩
          · have hc := mem_classifiers_of_classOf hclass
            have hless := Classifier.superTypes_add_unseenSupersAt_le hc hseen
            have hlength : (c.superTypes.reverse ++ todo).length
                = c.decl.superTypes.length + todo.length := by
              rw [List.length_append, List.length_reverse,
                Classifier.superTypes_of_mem_classifiers hc]
            obtain ⟨answer, h⟩ := ih _ (by omega) (c.superTypes.reverse ++ todo)
              (c.index :: seen) rfl
            exact ⟨answer, .enter hfound hclass hseen h⟩

/-- The rules leave no choice. -/
theorem Searches.unique (h : m.Searches target todo seen answer)
    (h' : m.Searches target todo seen answer') : answer = answer' := by
  induction h with
  | found =>
    cases h' with
    | found => rfl
    | undeclared hne | again hne | enter hne => exact absurd rfl hne
  | exhausted =>
    cases h'
    rfl
  | undeclared hne hclass _ ih =>
    cases h' with
    | found => exact absurd rfl hne
    | undeclared _ _ h' => exact ih h'
    | again _ hclass' | enter _ hclass' => cases hclass.symm.trans hclass'
  | again hne hclass hseen _ ih =>
    cases h' with
    | found => exact absurd rfl hne
    | undeclared _ hclass' => cases hclass.symm.trans hclass'
    | again _ _ _ h' => exact ih h'
    | enter _ hclass' hnew _ =>
      cases hclass.symm.trans hclass'
      exact absurd hseen hnew
  | enter hne hclass hnew _ ih =>
    cases h' with
    | found => exact absurd rfl hne
    | undeclared _ hclass' => cases hclass.symm.trans hclass'
    | again _ hclass' hseen _ =>
      cases hclass.symm.trans hclass'
      exact absurd hseen hnew
    | enter _ hclass' _ h' =>
      cases hclass.symm.trans hclass'
      exact ih h'

/-- What is found is written above one of the types looked at. -/
theorem Searches.exists_writtenAbove (h : m.Searches target todo seen answer)
    (hanswer : answer = true) : ∃ t ∈ todo, m.WrittenAbove t target := by
  induction h with
  | found => exact ⟨target, List.mem_cons_self .., .refl⟩
  | exhausted => cases hanswer
  | undeclared _ _ _ ih | again _ _ _ _ ih =>
    obtain ⟨t, ht, habove⟩ := ih hanswer
    exact ⟨t, List.mem_cons_of_mem _ ht, habove⟩
  | @enter t c todo seen answer _ hclass _ _ ih =>
    obtain ⟨s, hs, habove⟩ := ih hanswer
    rcases List.mem_append.1 hs with hs | hs
    · exact ⟨t, List.mem_cons_self .., .head ⟨c, hclass, List.mem_reverse.1 hs⟩ habove⟩
    · exact ⟨s, List.mem_cons_of_mem _ hs, habove⟩

/-- A type is passed over: it is not the one looked for, and its class, if it has one, is
opened. -/
def PassedOver (m : Model) (target : TypeExpr) (opened : List Nat) (t : TypeExpr) : Prop :=
  t ≠ target ∧ ∀ c ∈ m.classOf t, c.index ∈ opened

/-- Where nothing is found all types looked at are passed over, and so are all supertypes of the
classes that have been opened on the search. -/
theorem Searches.exists_opened (h : m.Searches target todo seen answer)
    (hanswer : answer = false) : ∃ opened, seen ⊆ opened ∧
      (∀ t ∈ todo, m.PassedOver target opened t) ∧
      ∀ c ∈ m.classifiers, c.index ∈ opened → c.index ∉ seen →
        ∀ s ∈ c.superTypes, m.PassedOver target opened s := by
  induction h with
  | found => cases hanswer
  | exhausted =>
    exact ⟨_, List.Subset.refl _, fun t ht => absurd ht List.not_mem_nil,
      fun c _ hopened hnew => absurd hopened hnew⟩
  | undeclared hne hclass _ ih =>
    obtain ⟨opened, hseen, htodo, hsupers⟩ := ih hanswer
    refine ⟨opened, hseen, List.forall_mem_cons.2 ⟨⟨hne, fun c hc => ?_⟩, htodo⟩, hsupers⟩
    cases hclass.symm.trans hc
  | again hne hclass hmem _ ih =>
    obtain ⟨opened, hseen, htodo, hsupers⟩ := ih hanswer
    refine ⟨opened, hseen, List.forall_mem_cons.2 ⟨⟨hne, fun c hc => ?_⟩, htodo⟩, hsupers⟩
    cases hclass.symm.trans hc
    exact hseen hmem
  | @enter t c todo seen answer hne hclass hnew _ ih =>
    obtain ⟨opened, hseen, htodo, hsupers⟩ := ih hanswer
    refine ⟨opened, fun k hk => hseen (List.mem_cons_of_mem _ hk),
      List.forall_mem_cons.2 ⟨⟨hne, fun d hd => ?_⟩, fun s hs => ?_⟩, fun d hd hopened hfresh => ?_⟩
    · cases hclass.symm.trans hd
      exact hseen (List.mem_cons_self ..)
    · exact htodo s (List.mem_append_right _ hs)
    · by_cases hindex : d.index = c.index
      · obtain rfl := eq_of_index hd (mem_classifiers_of_classOf hclass) hindex
        exact fun s hs => htodo s (List.mem_append_left _ (List.mem_reverse.2 hs))
      · exact hsupers d hd hopened fun hmem => (List.mem_cons.1 hmem).elim hindex hfresh

/-- The search answers whether a type is written above another. Opening a class once is enough,
whatever the arguments it is come to with. -/
theorem searches_iff : m.Searches target [source] [] answer ↔
    (answer = true ↔ m.WrittenAbove source target) := by
  obtain ⟨found, h⟩ := exists_searches m target [source] []
  have hfound : found = true ↔ m.WrittenAbove source target := by
    constructor
    · intro htrue
      obtain ⟨t, ht, habove⟩ := h.exists_writtenAbove htrue
      rwa [List.mem_singleton.1 ht] at habove
    · intro habove
      by_contra hfalse
      obtain ⟨opened, _, htodo, hsupers⟩ := h.exists_opened (Bool.eq_false_iff.2 hfalse)
      -- All that is written above is passed over.
      have hpassed : ∀ s, m.WrittenAbove source s → m.PassedOver target opened s := by
        intro s hs
        induction hs with
        | refl => exact htodo _ (List.mem_singleton_self _)
        | tail _ hstep ih =>
          obtain ⟨c, hclass, hwritten⟩ := hstep
          exact hsupers c (mem_classifiers_of_classOf hclass) (ih.2 c hclass) List.not_mem_nil _
            hwritten
      exact (hpassed target habove).1 rfl
  constructor
  · intro h'
    rw [h'.unique h, hfound]
  · intro h'
    rw [← hfound, ← Bool.eq_iff_iff] at h'
    rwa [h']

/-! ### The chain -/

/-- The nullable mark has no say in what class a type is of. -/
theorem classOf_nonNull : m.classOf t.nonNull = m.classOf t := by
  rw [classOf, classOf, TypeExpr.nonNull, TypeExpr.qualifiedName_resolved_withNullable]

/-- A supertype that the class of a type or an ancestor of the class is written with. -/
def InheritsType (m : Model) (t s : TypeExpr) : Prop :=
  ∃ c, m.classOf t = some c ∧ ∃ e ∈ c.chain m, s ∈ e.superTypes

/-- The class of a type that is written above another is the class of the other or an ancestor. -/
theorem exists_class_of_writtenAbove (h : m.WrittenAbove source t) (hclass : m.classOf t = some e) :
    ∃ c, m.classOf source = some c ∧
      Relation.ReflTransGen (fun d a => a ∈ d.superClasses m) c e := by
  induction h generalizing e with
  | refl => exact ⟨e, hclass, .refl⟩
  | @tail _ t _ hstep ih =>
    obtain ⟨d, hd, hwritten⟩ := hstep
    obtain ⟨c, hc, hcd⟩ := ih hd
    exact ⟨c, hc, hcd.tail (List.mem_filterMap.2 ⟨t, hwritten, hclass⟩)⟩

/-- A type with an ancestor of a class as its class is written above each type of the class. -/
theorem exists_writtenAbove_of_class (hclass : m.classOf source = some c)
    (h : Relation.ReflTransGen (fun d a => a ∈ d.superClasses m) c e) :
    ∃ t, m.WrittenAbove source t ∧ m.classOf t = some e := by
  induction h with
  | refl => exact ⟨source, .refl, hclass⟩
  | tail _ he ih =>
    obtain ⟨t, habove, ht⟩ := ih
    obtain ⟨s, hwritten, hs⟩ := List.mem_filterMap.1 he
    exact ⟨s, habove.tail ⟨_, ht, hwritten⟩, hs⟩

/-- What is written above a type is the type itself or stands on a class of the chain. -/
theorem writtenAbove_iff : m.WrittenAbove source target ↔
    source = target ∨ m.InheritsType source target := by
  constructor
  · intro h
    rcases Relation.ReflTransGen.cases_tail h with rfl | ⟨t, habove, e, hclass, hwritten⟩
    · exact .inl rfl
    · obtain ⟨c, hc, hce⟩ := exists_class_of_writtenAbove habove hclass
      exact .inr ⟨c, hc, e, Classifier.mem_chain_of_reflTransGen (classNamed_path hc) hce, hwritten⟩
  · rintro (rfl | ⟨c, hclass, e, he, hwritten⟩)
    · exact .refl
    · obtain ⟨t, habove, ht⟩ :=
        exists_writtenAbove_of_class hclass (Classifier.reflTransGen_of_mem_chain he)
      exact habove.tail ⟨e, ht, hwritten⟩

/-- A value can be used as its own type, or, where it may be null only if the target may, as any
type that is written above its own once the marks are off. -/
theorem isAssignable_iff : m.isAssignable target source = true ↔ target = source ∨
    ((target.nullable = true ∨ source.nullable = false) ∧
      m.WrittenAbove source.nonNull target.nonNull) := by
  have hchain : (((m.classOf source).elim [] (·.chain m)).any fun c =>
        c.superTypes.contains target.nonNull) = true ↔
      m.InheritsType source.nonNull target.nonNull := by
    rw [InheritsType, classOf_nonNull]
    cases m.classOf source with
    | none => simp only [Option.elim, List.any_nil, Bool.false_eq_true, reduceCtorEq, false_and,
        exists_false]
    | some c => simp only [Option.elim, List.any_eq_true, List.contains_iff_mem, Option.some.injEq,
        exists_eq_left']
  rw [isAssignable, Bool.or_eq_true, Bool.and_eq_true, Bool.or_eq_true, Bool.or_eq_true,
    beq_iff_eq, beq_iff_eq, Bool.not_eq_true', hchain, writtenAbove_iff]

/-! ### The order -/

/-- Being usable in place of each other is an order that is decided by a search, up to types that
are usable in both directions, and that nullable marks respect. -/
structure OrdersTypes (m : Model) : Prop where
  /-- The search comes to an end with one answer. It decides where the types are not the same and
  no null value could get to where none is wanted. -/
  ends : ∀ target source, ∃ answer,
    m.Searches target.nonNull [source.nonNull] [] answer ∧
    (∀ answer', m.Searches target.nonNull [source.nonNull] [] answer' → answer' = answer) ∧
    m.isAssignable target source
      = (target == source || ((target.nullable || !source.nullable) && answer))
  /-- A value can be used as its own type. -/
  refl : ∀ t, m.isAssignable t t = true
  /-- What can be used as a second type can be used as all that the second can be used as. -/
  trans : ∀ r s t, m.isAssignable s t = true → m.isAssignable r s = true →
    m.isAssignable r t = true
  /-- A value that is not null can be used where one that may be null can. -/
  nonNull_source : ∀ target source, m.isAssignable target source = true →
    m.isAssignable target source.nonNull = true
  /-- Where a value can be used it can be used with null allowed. -/
  nullable_target : ∀ target source, m.isAssignable target source = true →
    m.isAssignable (target.withNullable true) source = true

/-- Types are ordered in every program, whatever its hierarchies are like. -/
theorem ordersTypes (m : Model) : OrdersTypes m where
  ends target source := by
    obtain ⟨answer, h⟩ := exists_searches m target.nonNull [source.nonNull] []
    refine ⟨answer, h, fun answer' h' => h'.unique h, ?_⟩
    rw [Bool.eq_iff_iff, isAssignable_iff, ← searches_iff.1 h, Bool.or_eq_true, Bool.and_eq_true,
      Bool.or_eq_true, beq_iff_eq, Bool.not_eq_true']
  refl t := isAssignable_iff.2 (.inl rfl)
  trans r s t hst hrs := by
    rcases isAssignable_iff.1 hst with rfl | ⟨hst, habove⟩
    · exact hrs
    · rcases isAssignable_iff.1 hrs with rfl | ⟨hrs, habove'⟩
      · exact isAssignable_iff.2 (.inr ⟨hst, habove⟩)
      · refine isAssignable_iff.2 (.inr ⟨?_, habove.trans habove'⟩)
        rcases hst with hs | ht
        · rw [hs] at hrs
          exact .inl (hrs.resolve_right Bool.noConfusion)
        · exact .inr ht
  nonNull_source target source h := by
    refine isAssignable_iff.2 (.inr ⟨.inr TypeExpr.nullable_nonNull, ?_⟩)
    rw [TypeExpr.nonNull_nonNull]
    rcases isAssignable_iff.1 h with rfl | ⟨_, habove⟩
    · exact .refl
    · exact habove
  nullable_target target source h := by
    refine isAssignable_iff.2 (.inr ⟨.inl (TypeExpr.nullable_withNullable true target), ?_⟩)
    rw [TypeExpr.nonNull_withNullable]
    rcases isAssignable_iff.1 h with rfl | ⟨_, habove⟩
    · exact .refl
    · exact habove

end Model

end Wiring
