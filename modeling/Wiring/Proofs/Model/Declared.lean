import Wiring.Catalogue.Levels

/-!
# Declared classes, members and functions

The classes of a program, each with its place, and what they and the top-level functions declare.
Every class that a name stands for is one of them, and so is every ancestor of one.
-/

namespace Wiring

/-- The places of the elements do not count for a total. -/
theorem total_zipIdx {α : Type} (w : α → Nat) (l : List α) (start : Nat) :
    total (fun a => w a.1) (l.zipIdx start) = total w l := by
  induction l generalizing start with
  | nil => rfl
  | cons a l ih => rw [List.zipIdx_cons, total, total, ih]

/-- The total over images is the total of the measures of the images. -/
theorem total_map {α β : Type} (w : β → Nat) (f : α → β) (l : List α) :
    total w (l.map f) = total (fun a => w (f a)) l := by
  induction l with
  | nil => rfl
  | cons a l ih => rw [List.map_cons, total, total, ih]

namespace Model

/-- The declared classes, in order. -/
def classifiers (m : Model) : List Classifier :=
  m.declarations.classes.zipIdx.map fun (decl, index) => { index, decl }

/-- The members of the declared classes. -/
def callables (m : Model) : List Callable := m.classifiers.flatMap (·.members m)

/-- The top-level functions, in order. -/
def functions (m : Model) : List Callable :=
  m.declarations.functions.zipIdx.map fun (f, index) => m.functionAt index f

/-- The classes are told apart by their qualified names. -/
def DistinctNames (m : Model) : Prop :=
  (m.declarations.classes.map (·.qualifiedName)).Nodup

/-- The classes of a program are its declarations at their places, without companions. -/
theorem mem_classifiers {m : Model} {c : Classifier} :
    c ∈ m.classifiers ↔ m.declarations.classes[c.index]? = some c.decl ∧ c.isCompanion = false := by
  simp only [classifiers, List.mem_map, Prod.exists, List.mk_mem_zipIdx_iff_getElem?]
  constructor
  · rintro ⟨decl, index, hd, rfl⟩
    exact ⟨hd, rfl⟩
  · rintro ⟨hd, hc⟩
    refine ⟨c.decl, c.index, hd, ?_⟩
    rw [← hc]

/-- A class of the program is declared there. -/
theorem decl_mem_of_mem_classifiers {m : Model} {c : Classifier} (h : c ∈ m.classifiers) :
    c.decl ∈ m.declarations.classes :=
  List.mem_of_getElem? (mem_classifiers.1 h).1

/-- A look-up by name finds a class at its own place, under the name asked for. -/
theorem lastNamed_eq_some {name : String} {c : Classifier} :
    ∀ {classes : List ClassDecl} {start : Nat}, lastNamed name start classes = some c →
      c.isCompanion = false ∧ c.decl.qualifiedName = name ∧ start ≤ c.index ∧
        classes[c.index - start]? = some c.decl := by
  intro classes
  induction classes with
  | nil =>
    intro start h
    simp only [lastNamed, reduceCtorEq] at h
  | cons d classes ih =>
    intro start h
    rw [lastNamed] at h
    split at h
    · next found hf =>
      cases h
      obtain ⟨hc, hn, hi, hd⟩ := ih hf
      refine ⟨hc, hn, by omega, ?_⟩
      have hs : c.index - start = (c.index - (start + 1)) + 1 := by omega
      rw [hs, List.getElem?_cons_succ]
      exact hd
    · split at h
      · next hn =>
        cases h
        refine ⟨rfl, hn, Nat.le_refl _, ?_⟩
        rw [Nat.sub_self, List.getElem?_cons_zero]
      · simp only [reduceCtorEq] at h

/-- A class that is found by a name is a class of the program, and has the name. -/
theorem mem_classifiers_of_classNamed {m : Model} {name : String} {c : Classifier}
    (h : m.classNamed name = some c) : c ∈ m.classifiers ∧ c.decl.qualifiedName = name := by
  obtain ⟨hc, hn, _, hd⟩ := lastNamed_eq_some h
  rw [Nat.sub_zero] at hd
  exact ⟨mem_classifiers.2 ⟨hd, hc⟩, hn⟩

/-- The class of a type is a class of the program. -/
theorem mem_classifiers_of_classOf {m : Model} {t : TypeExpr} {c : Classifier}
    (h : m.classOf t = some c) : c ∈ m.classifiers :=
  (mem_classifiers_of_classNamed h).1

/-- A class that is found by an annotation is a class of the program. -/
theorem mem_classifiers_of_mem_classesAnnotated {m : Model} {name : String} {c : Classifier}
    (h : c ∈ m.classesAnnotated name) : c ∈ m.classifiers := by
  obtain ⟨n, hn, rfl⟩ := List.mem_map.1 h
  exact List.mem_map.2 ⟨n, (List.mem_filter.1 hn).1, rfl⟩

/-- With distinct names, a declared class is known by its name. -/
theorem DistinctNames.eq_of_qualifiedName {m : Model} (h : m.DistinctNames) {c d : Classifier}
    (hc : c ∈ m.classifiers) (hd : d ∈ m.classifiers)
    (hn : c.decl.qualifiedName = d.decl.qualifiedName) : c = d := by
  rw [mem_classifiers] at hc hd
  have hlt : c.index < (m.declarations.classes.map (·.qualifiedName)).length := by
    rw [List.length_map]
    exact (List.getElem?_eq_some_iff.1 hc.1).1
  have hi : c.index = d.index := by
    refine (List.getElem?_inj hlt h).1 ?_
    simp only [List.getElem?_map, hc.1, hd.1, Option.map_some, hn]
  have hdecl : c.decl = d.decl := by
    have := hc.1
    rw [hi, hd.1] at this
    exact (Option.some.inj this).symm
  cases c
  cases d
  simp_all

/-- A name stands for nothing exactly if no class is declared under it. -/
theorem lastNamed_eq_none_iff {name : String} : ∀ {classes : List ClassDecl} {start : Nat},
    lastNamed name start classes = none ↔ ∀ d ∈ classes, d.qualifiedName ≠ name := by
  intro classes
  induction classes with
  | nil =>
    intro start
    exact ⟨fun _ d hd => absurd hd List.not_mem_nil, fun _ => rfl⟩
  | cons d classes ih =>
    intro start
    rw [lastNamed, List.forall_mem_cons]
    cases hrest : lastNamed name (start + 1) classes with
    | some found =>
      refine ⟨fun h => (nomatch h), fun h => ?_⟩
      rw [ih.2 h.2] at hrest
      cases hrest
    | none =>
      dsimp only
      rw [← @ih (start + 1), hrest]
      split
      · next hname => exact ⟨fun h => (nomatch h), fun h => absurd hname h.1⟩
      · next hname => exact ⟨fun _ => ⟨hname, rfl⟩, fun _ => rfl⟩

/-- No class is found by a name exactly if none that is declared has it. -/
theorem classNamed_eq_none_iff {m : Model} {name : String} :
    m.classNamed name = none ↔ ∀ d ∈ m.declarations.classes, d.qualifiedName ≠ name :=
  lastNamed_eq_none_iff

/-- A function that is found by its name is a function of the program. -/
theorem mem_functions_of_functionsNamed {m : Model} {package name : String} {f : Callable}
    (h : f ∈ m.functionsNamed package name) : f ∈ m.functions := by
  simp only [functionsNamed, List.mem_map, List.mem_filter] at h
  obtain ⟨⟨d, index⟩, ⟨hd, _⟩, rfl⟩ := h
  exact List.mem_map.2 ⟨(d, index), hd, rfl⟩

end Model

namespace Classifier

/-- The path of a class of the program is its qualified name. -/
theorem path_of_mem_classifiers {m : Model} {c : Classifier} (h : c ∈ m.classifiers) :
    c.path = c.decl.qualifiedName := by
  simp only [path, ClassDecl.qualifiedName, package, name, (Model.mem_classifiers.1 h).2,
    Bool.false_eq_true, if_false]

/-- With distinct names, a declared class is the one that its name stands for. -/
theorem classNamed_of_mem_classifiers {m : Model} {c : Classifier} (hd : m.DistinctNames)
    (hc : c ∈ m.classifiers) : m.classNamed c.path = some c := by
  rw [path_of_mem_classifiers hc]
  cases hfound : m.classNamed c.decl.qualifiedName with
  | none =>
    exact absurd rfl (Model.classNamed_eq_none_iff.1 hfound _
      (Model.decl_mem_of_mem_classifiers hc))
  | some d =>
    obtain ⟨hmem, hname⟩ := Model.mem_classifiers_of_classNamed hfound
    rw [hd.eq_of_qualifiedName hmem hc hname]

/-- A class of the program has the supertypes it is declared with. -/
theorem superTypes_of_mem_classifiers {m : Model} {c : Classifier} (h : c ∈ m.classifiers) :
    c.superTypes = c.decl.superTypes := by
  simp only [superTypes, (Model.mem_classifiers.1 h).2, Bool.false_eq_true, if_false]

/-- A superclass is a class of the program. -/
theorem mem_classifiers_of_mem_superClasses {m : Model} {c d : Classifier}
    (h : d ∈ c.superClasses m) : d ∈ m.classifiers := by
  obtain ⟨t, _, ht⟩ := List.mem_filterMap.1 h
  exact Model.mem_classifiers_of_classOf ht

end Classifier

namespace Model

/-- What a name stands for is what its own name stands for. -/
theorem classNamed_path {m : Model} {name : String} {c : Classifier}
    (h : m.classNamed name = some c) : m.classNamed c.path = some c := by
  obtain ⟨hc, hn⟩ := mem_classifiers_of_classNamed h
  rw [Classifier.path_of_mem_classifiers hc, hn]
  exact h

end Model

end Wiring
