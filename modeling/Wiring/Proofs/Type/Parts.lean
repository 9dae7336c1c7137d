import Wiring.Model.Inheritance

/-!
# Parts of types

The type expressions that a type expression is written with, and the names by which classes are
looked up for them. Replacing type parameters brings in no name that neither the type nor what is
put in has.
-/

namespace Wiring

namespace TypeExpr

mutual

/-- A type expression and the type expressions it is written with. -/
def parts : TypeExpr → List TypeExpr
  | declared p n as q => declared p n as q :: partsList as
  | aliased p n as q t => aliased p n as q t :: (partsList as ++ parts t)

/-- The parts of several type expressions. -/
def partsList : List TypeExpr → List TypeExpr
  | [] => []
  | t :: ts => parts t ++ partsList ts

end

mutual

/-- A type has as many parts as its size says. -/
theorem length_parts : ∀ t : TypeExpr, t.parts.length = t.size
  | declared p n as q => by
    rw [parts, size, List.length_cons, length_partsList as]
    omega
  | aliased p n as q t => by
    rw [parts, size, List.length_cons, List.length_append, length_partsList as, length_parts t]
    omega

/-- Types have as many parts as their sizes say. -/
theorem length_partsList : ∀ ts : List TypeExpr, (partsList ts).length = sizeList ts
  | [] => rfl
  | t :: ts => by
    rw [partsList, sizeList, List.length_append, length_parts t, length_partsList ts]

end

/-- A type is a part of itself. -/
theorem self_mem_parts (t : TypeExpr) : t ∈ t.parts := by
  cases t <;> exact List.mem_cons_self ..

/-- The parts of a type are among those of a list it is in. -/
theorem parts_sublist_partsList {t : TypeExpr} {ts : List TypeExpr} (h : t ∈ ts) :
    t.parts.Sublist (partsList ts) := by
  induction ts with
  | nil => exact absurd h List.not_mem_nil
  | cons u ts ih =>
    rw [partsList]
    rcases List.mem_cons.1 h with rfl | h
    · exact List.sublist_append_left ..
    · exact (ih h).trans (List.sublist_append_right ..)

/-- An argument of a type, seen through aliases, is written within the type. -/
theorem parts_sublist_tail {t u : TypeExpr} (h : u ∈ t.resolved.arguments) :
    u.parts.Sublist t.parts.tail := by
  induction t using resolved.induct with
  | case1 p n as q =>
    rw [parts, List.tail_cons]
    exact parts_sublist_partsList h
  | case2 p n as q t ih =>
    rw [parts, List.tail_cons]
    exact ((ih h).trans (List.tail_sublist _)).trans (List.sublist_append_right ..)

/-- An argument of a type is smaller than the type. -/
theorem size_lt_of_mem_arguments {t u : TypeExpr} (h : u ∈ t.resolved.arguments) :
    u.size < t.size := by
  have hl := (parts_sublist_tail h).length_le
  have hpos := List.length_pos_of_mem t.self_mem_parts
  rw [List.length_tail, length_parts, length_parts] at hl
  rw [length_parts] at hpos
  omega

/-- The parts of types are the parts of each. -/
theorem mem_partsList {s : TypeExpr} {ts : List TypeExpr} :
    s ∈ partsList ts ↔ ∃ t ∈ ts, s ∈ t.parts := by
  induction ts with
  | nil => simp only [partsList, List.not_mem_nil, false_and, exists_false]
  | cons t ts ih => simp only [partsList, List.mem_append, ih, List.mem_cons, exists_eq_or_imp]

/-- The names that a type and its parts give to classes, seen through aliases, have a property. -/
def NamesOnly (P : String → Prop) (t : TypeExpr) : Prop :=
  ∀ s ∈ t.parts, P s.resolved.qualifiedName

instance (P : String → Prop) [DecidablePred P] (t : TypeExpr) : Decidable (t.NamesOnly P) :=
  inferInstanceAs (Decidable (∀ s ∈ t.parts, P s.resolved.qualifiedName))

variable {P : String → Prop} {t u : TypeExpr} {p n : String} {as : List TypeExpr} {q : Bool}

/-- The name that a type gives has the property. -/
theorem NamesOnly.self (h : t.NamesOnly P) : P t.resolved.qualifiedName := h t t.self_mem_parts

/-- The names that an argument gives have the property. -/
theorem NamesOnly.of_mem_arguments (h : t.NamesOnly P) (hu : u ∈ t.resolved.arguments) :
    u.NamesOnly P :=
  fun s hs => h s (List.mem_of_mem_tail ((parts_sublist_tail hu).subset hs))

/-- The names in a declared type are its own and those in its arguments. -/
theorem namesOnly_declared_iff : (declared p n as q).NamesOnly P ↔
    P (qualify p n) ∧ ∀ a ∈ as, a.NamesOnly P := by
  rw [NamesOnly, parts, List.forall_mem_cons]
  refine and_congr Iff.rfl ⟨fun h a ha s hs => h s (mem_partsList.2 ⟨a, ha, hs⟩), fun h s hs => ?_⟩
  obtain ⟨a, ha, hs⟩ := mem_partsList.1 hs
  exact h a ha s hs

/-- An alias itself is looked up by the name of what it stands for. -/
theorem namesOnly_aliased_iff : (aliased p n as q t).NamesOnly P ↔
    (∀ a ∈ as, a.NamesOnly P) ∧ t.NamesOnly P := by
  constructor
  · intro h
    refine ⟨fun a ha s hs => h s ?_, fun s hs => h s ?_⟩
    · rw [parts, List.mem_cons, List.mem_append]
      exact .inr (.inl (mem_partsList.2 ⟨a, ha, hs⟩))
    · rw [parts, List.mem_cons, List.mem_append]
      exact .inr (.inr hs)
  · rintro ⟨has, ht⟩ s hs
    rw [parts, List.mem_cons, List.mem_append] at hs
    rcases hs with rfl | hs | hs
    · exact ht.self
    · obtain ⟨a, ha, hs⟩ := mem_partsList.1 hs
      exact has a ha s hs
    · exact ht s hs

/-- A nullable mark gives no name to a class. -/
theorem namesOnly_withNullable_iff : (t.withNullable q).NamesOnly P ↔ t.NamesOnly P := by
  cases t with
  | declared p n as q' => rw [withNullable, namesOnly_declared_iff, namesOnly_declared_iff]
  | aliased p n as q' t => rw [withNullable, namesOnly_aliased_iff, namesOnly_aliased_iff]

/-- What is looked up is bound. -/
theorem mem_of_lookup {b : Bindings} (h : b.lookup n = some u) : (n, u) ∈ b := by
  obtain ⟨before, after, rfl, _⟩ := List.lookup_eq_some_iff.1 h
  exact List.mem_append_cons_self

/-- A name that is no alias gives way to what it is bound to if it is bare and bound, and keeps its
place otherwise. -/
theorem substitute_declared (b : Bindings) (p n : String) (as : List TypeExpr) (q : Bool) :
    (p = "" ∧ as = [] ∧ ∃ u, b.lookup n = some u ∧
      (declared p n as q).substitute b = if q then u.withNullable true else u) ∨
    ((p = "" → as = [] → b.lookup n = none) ∧
      (declared p n as q).substitute b = declared p n (substituteList b as) q) := by
  rw [substitute]
  by_cases hbare : p = "" ∧ as = []
  · obtain ⟨rfl, rfl⟩ := hbare
    cases hu : b.lookup n with
    | some u => exact .inl ⟨rfl, rfl, u, rfl, rfl⟩
    | none => exact .inr ⟨fun _ _ => rfl, rfl⟩
  · refine .inr ⟨fun hp has => absurd ⟨hp, has⟩ hbare, ?_⟩
    rw [← String.isEmpty_iff, ← List.isEmpty_iff, ← Bool.and_eq_true] at hbare
    rw [if_neg hbare]

mutual

/-- Replacing type parameters brings in no other names than those of what is put in. -/
theorem NamesOnly.substitute {b : Bindings} (hb : ∀ e ∈ b, e.2.NamesOnly P) :
    ∀ {t : TypeExpr}, t.NamesOnly P → (t.substitute b).NamesOnly P
  | declared p n as q, h => by
    obtain ⟨hname, has⟩ := namesOnly_declared_iff.1 h
    rcases substitute_declared b p n as q with ⟨_, _, u, hu, hbound⟩ | ⟨_, hkept⟩
    · have hmem := mem_of_lookup hu
      rw [hbound]
      cases q with
      | true => exact namesOnly_withNullable_iff.2 (hb _ hmem)
      | false => exact hb _ hmem
    · rw [hkept]
      exact namesOnly_declared_iff.2 ⟨hname, NamesOnly.substituteList hb has⟩
  | aliased p n as q t, h => by
    obtain ⟨has, ht⟩ := namesOnly_aliased_iff.1 h
    rw [TypeExpr.substitute]
    exact namesOnly_aliased_iff.2 ⟨NamesOnly.substituteList hb has, NamesOnly.substitute hb ht⟩

/-- The same for the types of a list. -/
theorem NamesOnly.substituteList {b : Bindings} (hb : ∀ e ∈ b, e.2.NamesOnly P) :
    ∀ {ts : List TypeExpr}, (∀ t ∈ ts, t.NamesOnly P) →
      ∀ t ∈ TypeExpr.substituteList b ts, t.NamesOnly P
  | [], _ => fun t ht => absurd ht List.not_mem_nil
  | u :: us, h => by
    obtain ⟨hu, hus⟩ := List.forall_mem_cons.1 h
    rw [TypeExpr.substituteList, List.forall_mem_cons]
    exact ⟨NamesOnly.substitute hb hu, NamesOnly.substituteList hb hus⟩

end

end TypeExpr

end Wiring
