import Wiring.Proofs.Descent
import Wiring.Proofs.Model.Supertypes

/-!
# The chain and the search for an ancestor

The ancestry of a class are the declared classes that its supertypes name, what the supertypes of
those name, and so on. The chain of the class lists its ancestry by a recursive visit that remembers
the names of classes. What a class supplies for an ancestor is found apart from that, by a search
over a stack that remembers their places. The search comes to an ancestor exactly when the chain
lists it, whether supertypes meet again higher up or come back to where they started.
-/

namespace Wiring

namespace Walk

variable {α κ : Type} {key : α → κ} {next : α → List α}

/-- A search for a node with a key, over a stack that has its top at the head. It ends when such a
node is on the top, and a node on the top makes way for what follows it only if its key is new. -/
inductive Seeks (key : α → κ) (next : α → List α) (target : κ) :
    List α → List κ → Option α → Prop where
  | found {a todo seen} (ht : key a = target) : Seeks key next target (a :: todo) seen (some a)
  | exhausted {seen} : Seeks key next target [] seen none
  | again {a todo seen found} (ht : key a ≠ target) (hs : key a ∈ seen)
      (hr : Seeks key next target todo seen found) : Seeks key next target (a :: todo) seen found
  | enter {a todo seen found} (ht : key a ≠ target) (hs : key a ∉ seen)
      (hr : Seeks key next target (next a ++ todo) (key a :: seen) found) :
      Seeks key next target (a :: todo) seen found

variable {target : κ} {todo : List α} {seen : List κ} {found found' : Option α}

/-- The rules leave no choice, so a search has one outcome. -/
theorem Seeks.unique (h : Seeks key next target todo seen found)
    (h' : Seeks key next target todo seen found') : found = found' := by
  induction h with
  | found ht =>
    cases h' with
    | found => rfl
    | again ht' | enter ht' => exact absurd ht ht'
  | exhausted =>
    cases h'
    rfl
  | again ht hs _ ih =>
    cases h' with
    | found ht' => exact absurd ht' ht
    | again _ _ hr' => exact ih hr'
    | enter _ hs' _ => exact absurd hs hs'
  | enter ht hs _ ih =>
    cases h' with
    | found ht' => exact absurd ht' ht
    | again _ hs' _ => exact absurd hs' hs
    | enter _ _ hr' => exact ih hr'

/-- A search finds what a walk that goes to its end enters under the key. -/
theorem Runs.seeks [DecidableEq κ] {ms : List (α × Bool)} (h : Runs key next todo seen ms)
    (ht : target ∉ seen) :
    Seeks key next target todo seen ((entered ms).find? fun a => key a == target) := by
  induction h with
  | done => exact .exhausted
  | @again a todo seen rest hs _ ih =>
    have hne : key a ≠ target := by
      rintro rfl
      exact ht hs
    exact .again hne hs (ih ht)
  | @enter a todo seen rest hs _ ih =>
    have hhead : entered ((a, true) :: rest) = a :: entered rest := rfl
    rw [hhead]
    by_cases hkey : key a = target
    · rw [List.find?_cons_of_pos (p := fun a => key a == target) (beq_iff_eq.2 hkey)]
      exact .found hkey
    · rw [List.find?_cons_of_neg (p := fun a => key a == target) fun h => hkey (beq_iff_eq.1 h)]
      refine .enter hkey hs (ih fun hmem => ?_)
      rcases List.mem_cons.1 hmem with rfl | hmem
      · exact hkey rfl
      · exact ht hmem

end Walk

namespace Classifier

variable {m : Model} {c d a : Classifier} {b : Bindings} {index : Nat} {answer : Option Bindings}

/-- A supertype that `d` is written with names the declared class `a`, itself or through an
alias. -/
def Extends (m : Model) (d a : Classifier) : Prop :=
  a ∈ m.classifiers ∧ ∃ t ∈ d.superTypes, t.resolved.qualifiedName = a.decl.qualifiedName

/-- Where qualified names are different, a class extends its superclasses. -/
theorem extends_iff (hn : m.DistinctNames) : d.Extends m a ↔ a ∈ d.superClasses m := by
  rw [Extends, superClasses, List.mem_filterMap]
  constructor
  · rintro ⟨ha, t, ht, hname⟩
    refine ⟨t, ht, ?_⟩
    rw [Model.classOf, hname, ← path_of_mem_classifiers ha]
    exact classNamed_of_mem_classifiers hn ha
  · rintro ⟨t, ht, hclass⟩
    obtain ⟨ha, hname⟩ := Model.mem_classifiers_of_classNamed hclass
    exact ⟨ha, t, ht, hname.symm⟩

/-! ### The chain -/

/-- The chain of a class begins with the class. -/
theorem exists_chain_eq_cons (m : Model) (c : Classifier) : ∃ later, c.chain m = c :: later := by
  obtain ⟨ms, hruns, hchain⟩ := chain_runs m c
  rw [hchain]
  cases hruns with
  | again hs => exact absurd hs List.not_mem_nil
  | enter _ _ => exact ⟨_, rfl⟩

/-- With distinct names, the chain lists a class and all that it inherits from. -/
theorem mem_chain_iff (hn : m.DistinctNames) (hc : c ∈ m.classifiers) :
    a ∈ c.chain m ↔ Relation.ReflTransGen (Extends m) c a := by
  have hsame : Extends m = fun d a => a ∈ d.superClasses m :=
    funext fun d => funext fun a => propext (extends_iff hn)
  rw [hsame]
  exact ⟨reflTransGen_of_mem_chain,
    mem_chain_of_reflTransGen (classNamed_of_mem_classifiers hn hc)⟩

/-- What comes later in a chain is extended by something before it. -/
theorem exists_extends_before (hn : m.DistinctNames) {before after : List Classifier}
    (h : c.chain m = before ++ a :: after) (hbefore : before ≠ []) :
    ∃ e ∈ before, e.Extends m a := by
  rcases exists_subclass_before h with rfl | ⟨e, he, hea⟩
  · -- The class itself stands at the head, and nowhere else.
    obtain ⟨later, hchain⟩ := exists_chain_eq_cons m a
    obtain ⟨first, before, rfl⟩ := List.exists_cons_of_ne_nil hbefore
    have hpaths := nodup_chain m a
    rw [h, List.cons_append] at hchain hpaths
    obtain ⟨rfl, _⟩ := List.cons.inj hchain
    rw [List.map_cons, List.nodup_cons, List.map_append, List.map_cons] at hpaths
    exact absurd List.mem_append_cons_self hpaths.1
  · exact ⟨e, he, (extends_iff hn).2 hea⟩

/-- A companion object has no supertypes, so its chain has nothing else. -/
theorem chain_of_isCompanion (h : c.isCompanion = true) : c.chain m = [c] := by
  obtain ⟨ms, hruns, hchain⟩ := chain_runs m c
  have hnone : c.superClasses m = [] := by
    rw [superClasses, superTypes, if_pos h, List.filterMap_nil]
  rw [hchain]
  cases hruns with
  | again hs => exact absurd hs List.not_mem_nil
  | enter _ hr =>
    rw [hnone, List.nil_append] at hr
    cases hr
    rfl

/-! ### The search -/

/-- The search for what the supertypes of `c` bind the type parameters of the class at a place to,
and its answer. Of the supertypes of a class the last one goes to the top of the stack. -/
def SearchesFor (m : Model) (c : Classifier) (index : Nat) (answer : Option Bindings) : Prop :=
  ∃ found, Walk.Seeks (fun n => n.1.index) (fun n => n.1.boundSupers m n.2) index [(c, [])] [] found
    ∧ answer = found.map (·.2)

/-- The search comes to an end, and its answer is what the class supplies. -/
theorem searchesFor_iff : c.SearchesFor m index answer ↔ answer = c.supplied m index := by
  obtain ⟨ms, hruns, hall⟩ := instantiations_run m c
  have hseeks : Walk.Seeks (fun n => n.1.index) (fun n => n.1.boundSupers m n.2) index [(c, [])] []
      ((Walk.entered ms).find? fun n => n.1.index == index) := hruns.seeks List.not_mem_nil
  rw [← hall] at hseeks
  constructor
  · rintro ⟨found, hfound, rfl⟩
    rw [hfound.unique hseeks]
    rfl
  · rintro rfl
    exact ⟨_, hseeks, rfl⟩

/-- An ancestor that type parameters are bound for in one step is a superclass. -/
theorem mem_superClasses_of_mem_boundSupers {n : Classifier × Bindings} (hd : d ∈ m.classifiers)
    (h : n ∈ d.boundSupers m b) : n.1 ∈ d.superClasses m := by
  rw [boundSupers, List.mem_reverse] at h
  obtain ⟨t, ht, hbound⟩ := List.mem_filterMap.1 h
  obtain ⟨e, hclass, rfl⟩ := Option.map_eq_some_iff.1 hbound
  rw [← superTypes_of_mem_classifiers hd] at ht
  exact List.mem_filterMap.2 ⟨t, ht, hclass⟩

/-- The search goes to nothing but the class and what it inherits from. -/
theorem reflTransGen_of_mem_instantiations {n : Classifier × Bindings} (hc : c ∈ m.classifiers)
    (h : n ∈ c.instantiations m) :
    Relation.ReflTransGen (fun d a => a ∈ d.superClasses m) c n.1 := by
  refine (Walk.forall_mem_preorder (P := fun n => n.1 ∈ m.classifiers ∧
    Relation.ReflTransGen (fun d a => a ∈ d.superClasses m) c n.1) ?_ ?_ n h).2
  · rintro n ⟨hn, hreached⟩ e he
    exact ⟨mem_classifiers_of_mem_boundSupers he,
      hreached.tail (mem_superClasses_of_mem_boundSupers hn he)⟩
  · intro n hn
    rw [List.mem_singleton.1 hn]
    exact ⟨hc, .refl⟩

/-- The search by places succeeds exactly for what the visit by names has listed. -/
theorem isSome_supplied_iff_mem_chain (hn : m.DistinctNames) (hc : c ∈ m.classifiers)
    (ha : a ∈ m.classifiers) : (c.supplied m a.index).isSome = true ↔ a ∈ c.chain m := by
  refine ⟨fun h => ?_, isSome_supplied_of_mem_chain hc⟩
  obtain ⟨n, hmem, hindex⟩ := isSome_supplied_iff.1 h
  obtain rfl := Model.eq_of_index (mem_classifiers_of_mem_instantiations hc hmem) ha hindex
  exact mem_chain_of_reflTransGen (classNamed_of_mem_classifiers hn hc)
    (reflTransGen_of_mem_instantiations hc hmem)

/-- The chain of a class is its ancestry. -/
structure ListsAncestry (m : Model) (c : Classifier) : Prop where
  /-- It is what a recursive visit lists that goes to each class that a supertype names unless the
  name has been seen. -/
  visits : ∃ seen, Walk.Descent (·.path) (superClasses m) [] [c] (c.chain m) seen
  /-- The class comes first. -/
  starts : (c.chain m).head? = some c
  /-- Listed are the class and what it inherits from, nothing else. -/
  lists : ∀ a, a ∈ c.chain m ↔ Relation.ReflTransGen (Extends m) c a
  /-- Nothing is listed twice. -/
  once : (c.chain m).Nodup
  /-- Every later class is written as a supertype on one before it. -/
  follows : ∀ before a after, c.chain m = before ++ a :: after → before ≠ [] →
    ∃ e ∈ before, e.Extends m a
  /-- The search for the class at a place comes to an end with one answer, which is what `c`
  supplies. -/
  searches : ∀ index answer, c.SearchesFor m index answer ↔ answer = c.supplied m index
  /-- Listed are the classes for which the search succeeds. -/
  found : ∀ a ∈ m.classifiers, a ∈ c.chain m ↔ ∃ b, c.SearchesFor m a.index (some b)
  /-- The companion object, if there is one, is listed by its own chain only. -/
  companion : ∀ k, c.companion? = some k → k.chain m = [k]

/-- Where classes have distinct names, the chain of every class is its ancestry, whatever the
hierarchy is like. -/
theorem listsAncestry (hn : m.DistinctNames) (hc : c ∈ m.classifiers) : ListsAncestry m c where
  visits := by
    obtain ⟨ms, hruns, hchain⟩ := chain_runs m c
    rw [hchain]
    exact hruns.descent
  starts := by
    obtain ⟨later, hchain⟩ := exists_chain_eq_cons m c
    rw [hchain, List.head?_cons]
  lists _ := mem_chain_iff hn hc
  once := (nodup_chain m c).of_map _
  follows _ _ _ hchain hbefore := exists_extends_before hn hchain hbefore
  searches _ _ := searchesFor_iff
  found a ha := by
    rw [← isSome_supplied_iff_mem_chain hn hc ha, Option.isSome_iff_exists]
    exact exists_congr fun b => eq_comm.trans searchesFor_iff.symm
  companion k hk := by
    rw [companion?] at hk
    obtain ⟨_, hk⟩ := Option.ite_none_right_eq_some.1 hk
    cases hk
    exact chain_of_isCompanion rfl

/-- Two ways up from a porch, one of them through an alias, that meet in a house. The house and its
wing name each other, and the porch names a class that is not declared. -/
def homestead : Model :=
  Sketch.program [
    { package := "app", name := "House", isInterface := true, superTypes := [Sketch.type "Wing"] },
    { package := "app", name := "Wing", isInterface := true, superTypes := [Sketch.type "House"] },
    { package := "app", name := "Garden", isInterface := true
      superTypes := [Sketch.type "House"] },
    { package := "app", name := "Porch", hasCompanion := true
      superTypes := [Sketch.type "Street", Sketch.type "Wing",
        .aliased "app" "Yard" [] false (Sketch.type "Garden")] },
    { package := "app", name := "Street.Corner" }]

/-- The porch has the house once, after the wing and before the garden, and never the corner. -/
theorem listsAncestry_porch :
    homestead.DistinctNames ∧ ∃ c ∈ homestead.classifiers, ListsAncestry homestead c ∧
      (c.chain homestead).map (·.path) = ["app.Porch", "app.Wing", "app.House", "app.Garden"] := by
  have hn : homestead.DistinctNames := by
    unfold Model.DistinctNames
    decide
  have hc : homestead.classifiers[3] ∈ homestead.classifiers := List.getElem_mem _
  exact ⟨hn, homestead.classifiers[3], hc, listsAncestry hn hc, by decide⟩

end Classifier

end Wiring
