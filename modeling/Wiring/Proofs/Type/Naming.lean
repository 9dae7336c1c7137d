import Wiring.Proofs.Type.Spelling

/-!
# Types named by identifiers

Without aliases, and with identifiers for the names in it, a type is known by its text. The last
dot of a qualified name ends the package, so no two classes have one qualified name; what is
written around the names is told from them by its characters. A mark belongs to the result of an
arrow, unless the arrow stands in brackets of its own.
-/

namespace Wiring.TypeExpr

open Text

/-- Whether a text can stand between dots in a qualified name: it is not empty, and holds no dot
and none of the characters that types are written with around their names. -/
def isIdentifier (cs : List Char) : Bool :=
  !cs.isEmpty && cs.all fun ch => ch != '.' && !isSyntax ch

/-- A type without aliases. Its package is empty or identifiers with dots between them, its name is
an identifier, and so on for its arguments; a function class with arguments has as many of them as
its name says, and one for the result. -/
inductive Plain : TypeExpr → Prop where
  | declared {p n : String} {as : List TypeExpr} {q : Bool}
      (hpackage : p = "" ∨ ∀ part ∈ pieces '.' p.toList, isIdentifier part = true)
      (hname : isIdentifier n.toList = true)
      (harity : isArrow p n as = true →
        ∃ arity : Nat, n = "Function" ++ toString arity ∧ as.length = arity + 1)
      (harguments : ∀ a ∈ as, Plain a) : Plain (declared p n as q)

/-- The last dot of a qualified name ends the package, and nothing is an alias. -/
def plainSpelling : Spelling where
  split qualified :=
    match splitLast? '.' qualified.toList with
    | some (package, name) => (String.ofList package, String.ofList name)
    | none => ("", qualified)
  target? _ _ := none

variable {t t' : TypeExpr} {p n : String} {cs : List Char}

/-- An identifier has some characters, none of which is a dot or one that types are written with. -/
theorem isIdentifier_iff : isIdentifier cs = true ↔
    cs ≠ [] ∧ ∀ ch ∈ cs, ch ≠ '.' ∧ isSyntax ch = false := by
  simp only [isIdentifier, Bool.and_eq_true, Bool.not_eq_true', List.isEmpty_eq_false_iff,
    List.all_eq_true, bne_iff_ne]

/-- No dot is in an identifier. -/
theorem not_mem_of_isIdentifier (h : isIdentifier cs = true) : '.' ∉ cs :=
  fun hmem => ((isIdentifier_iff.1 h).2 '.' hmem).1 rfl

/-- A name is qualified by its package and a dot. -/
theorem toList_qualify (hp : p ≠ "") : (qualify p n).toList = p.toList ++ '.' :: n.toList := by
  have hempty : p.isEmpty = false := by
    rw [Bool.eq_false_iff]
    exact fun h => hp (String.isEmpty_iff.1 h)
  rw [qualify, hempty, if_neg Bool.false_ne_true, String.toList_append, String.toList_append,
    List.append_assoc]
  rfl

/-- A package and a name are found again in the qualified name that they make. -/
theorem split_qualify (hn : '.' ∉ n.toList) : plainSpelling.split (qualify p n) = (p, n) := by
  by_cases hp : p = ""
  · subst hp
    have hqualified : qualify "" n = n := rfl
    simp only [plainSpelling, hqualified, splitLast?_of_not_mem hn]
  · simp only [plainSpelling, toList_qualify hp, splitLast?_append p.toList hn,
      String.ofList_toList]

/-- A qualified name of identifiers holds none of the characters that types are written with. -/
theorem isSyntax_of_mem_qualify
    (hpackage : p = "" ∨ ∀ part ∈ pieces '.' p.toList, isIdentifier part = true)
    (hname : isIdentifier n.toList = true) :
    ∀ ch ∈ (qualify p n).toList, isSyntax ch = false := by
  intro ch hch
  have hofName : ch ∈ n.toList → isSyntax ch = false :=
    fun h => ((isIdentifier_iff.1 hname).2 ch h).2
  by_cases hp : p = ""
  · subst hp
    exact hofName hch
  · rw [toList_qualify hp, List.mem_append, List.mem_cons] at hch
    rcases hch with hch | rfl | hch
    · by_cases hdot : ch = '.'
      · rw [hdot]
        decide
      · obtain ⟨part, hpart, hmem⟩ := exists_mem_pieces hch hdot
        exact ((isIdentifier_iff.1 (hpackage.resolve_left hp part hpart)).2 ch hmem).2
    · decide
    · exact hofName hch

/-- What has a name has a qualified name. -/
theorem qualify_ne_empty (hn : n.toList ≠ []) : qualify p n ≠ "" := by
  intro h
  have hlist := congrArg String.toList h
  by_cases hp : p = ""
  · subst hp
    exact hn hlist
  · rw [toList_qualify hp] at hlist
    exact List.append_ne_nil_of_right_ne_nil _ (List.cons_ne_nil _ _) hlist

/-- A plain type is spelled plainly. -/
theorem Plain.spelled (h : Plain t) : Spelled plainSpelling t := by
  induction h with
  | declared hpackage hname harity _ ih =>
    refine .mk (split_qualify (not_mem_of_isIdentifier hname)) rfl
      (qualify_ne_empty (isIdentifier_iff.1 hname).1) (isSyntax_of_mem_qualify hpackage hname) ?_ ih
    intro harrow
    obtain ⟨arity, hn, hlength⟩ := harity harrow
    rw [arguments, hlength, Nat.add_sub_cancel]
    exact hn

/-- Types without aliases whose names are identifiers are the same when they are written alike. -/
theorem Plain.sourceText_inj (h : Plain t) (h' : Plain t') :
    t.sourceText = t'.sourceText ↔ t = t' :=
  ⟨h.spelled.eq_of_sourceText h'.spelled, congrArg sourceText⟩

/-- An optional function and a function with an optional result are told apart, as a parameter and
inside the arguments of a class. -/
theorem sourceText_inj_suppliers :
    let int := ofName "kotlin" "Int"
    let optional := (function [] int).withNullable true
    let supplier := function [] (int.withNullable true)
    let load := fun t => function [t] (declared "app.db" "Cell" [t] true)
    Plain (load optional) ∧ Plain (load supplier) ∧
    (load optional).sourceText = "((() -> kotlin.Int)?) -> app.db.Cell<(() -> kotlin.Int)?>?" ∧
    (load supplier).sourceText = "(() -> kotlin.Int?) -> app.db.Cell<() -> kotlin.Int?>?" ∧
    ((load optional).sourceText = (load supplier).sourceText ↔ load optional = load supplier) := by
  intro int optional supplier load
  have hint : ∀ q, Plain (int.withNullable q) := fun q =>
    .declared (.inr (by decide)) (by decide) (fun h => absurd h (by decide))
      (fun _ h => absurd h List.not_mem_nil)
  have hsupplying : ∀ q q', Plain ((function [] (int.withNullable q)).withNullable q') :=
    fun q q' => .declared (.inr (by decide)) (by decide) (fun _ => ⟨0, rfl, rfl⟩)
      (List.forall_mem_singleton.2 (hint q))
  have hcell : ∀ t, Plain t → Plain (declared "app.db" "Cell" [t] true) := fun t ht =>
    have hnamed : isArrow "app.db" "Cell" [t] = false := rfl
    .declared (.inr (by decide)) (by decide) (fun h => absurd (hnamed.symm.trans h) (by decide))
      (List.forall_mem_singleton.2 ht)
  have hload : ∀ t, Plain t → Plain (load t) := fun t ht =>
    have hname : isIdentifier ("Function" ++ toString 1).toList = true := by decide
    .declared (.inr (by decide)) hname (fun _ => ⟨1, rfl, rfl⟩)
      (List.forall_mem_cons.2 ⟨ht, List.forall_mem_singleton.2 (hcell t ht)⟩)
  have hoptional := hload _ (hsupplying false true)
  have hsupplier := hload _ (hsupplying true false)
  exact ⟨hoptional, hsupplier, by decide +kernel, by decide +kernel,
    hoptional.sourceText_inj hsupplier⟩

end Wiring.TypeExpr
