import Wiring.Proofs.Model.Declared
import Wiring.Proofs.Walk

/-!
# Walks over a program

The three walks a program is gone through by: the ancestors of a class, its instantiated
supertypes, and the components it reaches. Each ends by itself, since entering a class uses up the
supertypes or parameters written on it, and the bound on its meetings never cuts it short. What is
met on the way is declared in the program, the start apart.
-/

namespace Wiring

namespace Walk

variable {β κ : Type} [DecidableEq κ]

/-- The weights of the declarations whose name has not been seen. -/
def unseenWeight (n : β → κ) (w : β → Nat) (seen : List κ) : List β → Nat
  | [] => 0
  | d :: declared =>
    (if n d ∈ seen then 0 else w d) + unseenWeight n w seen declared

variable {n : β → κ} {w : β → Nat}

/-- The more has been seen, the less weight is left. -/
theorem unseenWeight_anti {seen seen' : List κ} (h : ∀ k ∈ seen, k ∈ seen') (declared : List β) :
    unseenWeight n w seen' declared ≤ unseenWeight n w seen declared := by
  induction declared with
  | nil => exact Nat.le_refl _
  | cons d declared ih =>
    rw [unseenWeight, unseenWeight]
    by_cases hd : n d ∈ seen
    · rw [if_pos hd, if_pos (h _ hd)]
      omega
    · rw [if_neg hd]
      split <;> omega

/-- Seeing a declaration uses up its weight. -/
theorem weight_add_unseenWeight_le {declared : List β} {d : β} {seen : List κ}
    (hd : d ∈ declared) (hn : n d ∉ seen) :
    w d + unseenWeight n w (n d :: seen) declared
      ≤ unseenWeight n w seen declared := by
  have hsub : ∀ k ∈ seen, k ∈ n d :: seen := fun k hk => List.mem_cons_of_mem _ hk
  induction declared with
  | nil => exact absurd hd List.not_mem_nil
  | cons e declared ih =>
    rw [unseenWeight, unseenWeight]
    rcases List.mem_cons.1 hd with rfl | hd
    · have hrest := unseenWeight_anti (n := n) (w := w) hsub declared
      rw [if_pos (List.mem_cons_self ..), if_neg hn]
      omega
    · have hrest := ih hd
      by_cases he : n e ∈ seen
      · rw [if_pos he, if_pos (hsub _ he)]
        omega
      · rw [if_neg he]
        split <;> omega

/-- What is left weighs no more than all there is. -/
theorem unseenWeight_le_total (seen : List κ) (declared : List β) :
    unseenWeight n w seen declared ≤ total w declared := by
  induction declared with
  | nil => exact Nat.le_refl _
  | cons d declared ih =>
    rw [unseenWeight, total]
    split <;> omega

end Walk

namespace Model

/-- The supertypes written on the classes whose name has not been seen. -/
def unseenSupers (m : Model) (seen : List String) : Nat :=
  Walk.unseenWeight ClassDecl.qualifiedName (fun d => d.superTypes.length) seen
    m.declarations.classes

/-- The supertypes written on the classes whose place has not been seen. -/
def unseenSupersAt (m : Model) (seen : List Nat) : Nat :=
  Walk.unseenWeight Prod.snd (fun d => d.1.superTypes.length) seen m.declarations.classes.zipIdx

/-- The constructor parameters written on the classes whose name has not been seen. -/
def unseenParams (m : Model) (seen : List (Option String)) : Nat :=
  Walk.unseenWeight (fun d => some d.qualifiedName)
    (fun d => (d.constructor.elim [] (·.params)).length) seen m.declarations.classes

/-- No more supertypes are left than are written in the program. -/
theorem unseenSupers_le (m : Model) (seen : List String) : m.unseenSupers seen ≤ m.superTypeCount :=
  Walk.unseenWeight_le_total seen _

/-- No more supertypes are left at unseen places than are written in the program. -/
theorem unseenSupersAt_le (m : Model) (seen : List Nat) :
    m.unseenSupersAt seen ≤ m.superTypeCount := by
  refine Nat.le_trans (Walk.unseenWeight_le_total seen _) (Nat.le_of_eq ?_)
  exact total_zipIdx (fun d : ClassDecl => d.superTypes.length) _ 0

/-- No more constructor parameters are left than are written in the program. -/
theorem unseenParams_le (m : Model) (seen : List (Option String)) :
    m.unseenParams seen ≤ Arrival.paramCount m :=
  Walk.unseenWeight_le_total seen _

end Model

namespace Classifier

/-- A class has no more superclasses than supertypes. -/
theorem length_superClasses_le (m : Model) (c : Classifier) :
    (c.superClasses m).length ≤ c.superTypes.length :=
  List.length_filterMap_le ..

/-- Entering a declared class uses up its supertypes. -/
theorem superClasses_add_unseenSupers_le {m : Model} {c : Classifier} {seen : List String}
    (hc : c ∈ m.classifiers) (hs : c.path ∉ seen) :
    (c.superClasses m).length + m.unseenSupers (c.path :: seen) ≤ m.unseenSupers seen := by
  rw [path_of_mem_classifiers hc] at hs ⊢
  have hl := length_superClasses_le m c
  rw [superTypes_of_mem_classifiers hc] at hl
  refine Nat.le_trans (Nat.add_le_add_right hl _) ?_
  exact Walk.weight_add_unseenWeight_le (w := fun d => d.superTypes.length)
    (Model.decl_mem_of_mem_classifiers hc) hs

/-- Walking through the ancestors of a class comes to an end, and meets the chain. -/
theorem chain_runs (m : Model) (c : Classifier) :
    ∃ ms, Walk.Runs (·.path) (superClasses m) [c] [] ms ∧ c.chain m = Walk.entered ms := by
  refine ⟨_, ?_, rfl⟩
  refine Walk.runs_meetings_start (P := (· ∈ m.classifiers)) (S := m.unseenSupers)
    (fun _ _ b hb => mem_classifiers_of_mem_superClasses hb)
    (fun _ _ ha hs => superClasses_add_unseenSupers_le ha hs) c
    (fun b hb => mem_classifiers_of_mem_superClasses hb) ?_
  have hl := length_superClasses_le m c
  have hs := m.unseenSupers_le [c.path]
  omega

/-- Every class of a chain is the class itself or declared. -/
theorem mem_chain {m : Model} {c d : Classifier} (h : d ∈ c.chain m) :
    d = c ∨ d ∈ m.classifiers := by
  refine Walk.forall_mem_preorder (P := fun d => d = c ∨ d ∈ m.classifiers) ?_ ?_ d h
  · intro a _ b hb
    exact .inr (mem_classifiers_of_mem_superClasses hb)
  · intro a ha
    exact .inl (List.mem_singleton.1 ha)

/-- Bound supertypes are classes of the program. -/
theorem mem_classifiers_of_mem_boundSupers {m : Model} {c : Classifier} {b : Bindings}
    {n : Classifier × Bindings} (h : n ∈ c.boundSupers m b) : n.1 ∈ m.classifiers := by
  rw [boundSupers, List.mem_reverse] at h
  obtain ⟨t, _, ht⟩ := List.mem_filterMap.1 h
  obtain ⟨s, hs, rfl⟩ := Option.map_eq_some_iff.1 ht
  exact Model.mem_classifiers_of_classOf hs

/-- A class has no more bound supertypes than supertypes are written on it. -/
theorem length_boundSupers_le (m : Model) (c : Classifier) (b : Bindings) :
    (c.boundSupers m b).length ≤ c.decl.superTypes.length := by
  rw [boundSupers, List.length_reverse]
  exact List.length_filterMap_le ..

/-- Opening a declared class uses up the supertypes at its place. -/
theorem superTypes_add_unseenSupersAt_le {m : Model} {c : Classifier} {seen : List Nat}
    (hc : c ∈ m.classifiers) (hs : c.index ∉ seen) :
    c.decl.superTypes.length + m.unseenSupersAt (c.index :: seen) ≤ m.unseenSupersAt seen := by
  have hmem : (c.decl, c.index) ∈ m.declarations.classes.zipIdx :=
    List.mk_mem_zipIdx_iff_getElem?.2 (Model.mem_classifiers.1 hc).1
  exact Walk.weight_add_unseenWeight_le (n := Prod.snd)
    (w := fun d : ClassDecl × Nat => d.1.superTypes.length) hmem hs

/-- Following the supertypes of a class with their arguments comes to an end. -/
theorem instantiations_run (m : Model) (c : Classifier) :
    ∃ ms, Walk.Runs (fun n => n.1.index) (fun n => n.1.boundSupers m n.2) [(c, [])] [] ms ∧
      c.instantiations m = Walk.entered ms := by
  refine ⟨_, ?_, rfl⟩
  refine Walk.runs_meetings_start (P := fun n => n.1 ∈ m.classifiers)
    (S := m.unseenSupersAt) (fun _ _ b hb => mem_classifiers_of_mem_boundSupers hb) ?_ (c, [])
    (fun b hb => mem_classifiers_of_mem_boundSupers hb) ?_
  · intro n seen hn hs
    exact Nat.le_trans (Nat.add_le_add_right (length_boundSupers_le m n.1 n.2) _)
      (superTypes_add_unseenSupersAt_le hn hs)
  · have hl := length_boundSupers_le m c []
    have hs := m.unseenSupersAt_le [c.index]
    dsimp only
    omega

end Classifier

namespace Arrival

/-- What is reached from here is what a parameter leads to. -/
theorem mem_onward_iff {m : Model} {a b : Arrival} : b ∈ onward m a ↔
    ∃ c, a.component = some c ∧ ∃ p ∈ componentParams m c,
      ⟨some p, a.accessor.isNone, m.classOf p.type, some (extend a.accessor p.name)⟩ = b := by
  rw [onward]
  cases a.component with
  | none =>
    constructor
    · intro h
      exact absurd h List.not_mem_nil
    · rintro ⟨_, hc, _⟩
      cases hc
  | some c =>
    rw [List.mem_map]
    constructor
    · intro h
      exact ⟨c, rfl, h⟩
    · rintro ⟨_, hc, h⟩
      cases hc
      exact h

/-- What is reached from here is reached through a type, so it is declared. -/
theorem component_of_mem_onward {m : Model} {a b : Arrival} (h : b ∈ onward m a) :
    ∀ c, b.component = some c → c ∈ m.classifiers := by
  intro c hc
  obtain ⟨_, _, p, _, rfl⟩ := mem_onward_iff.1 h
  exact Model.mem_classifiers_of_classOf hc

/-- A class has no more component parameters than parameters are written on its constructor. -/
theorem length_componentParams_le (m : Model) (c : Classifier) :
    (componentParams m c).length ≤ (c.decl.constructor.elim [] (·.params)).length := by
  rw [componentParams, Classifier.constructor?]
  cases hk : c.decl.constructor with
  | none =>
    cases hc : c.isCompanion <;> exact Nat.zero_le _
  | some k =>
    cases hc : c.isCompanion with
    | true => exact Nat.zero_le _
    | false =>
      refine Nat.le_trans (List.length_filter_le ..) ?_
      simp only [Model.paramsOf, List.length_map, Option.elim, Nat.le_refl]

/-- An arrival goes on to no more arrivals than parameters are written on its constructor. -/
theorem length_onward_le {m : Model} {a : Arrival} {c : Classifier} (hc : a.component = some c) :
    (onward m a).length ≤ (c.decl.constructor.elim [] (·.params)).length := by
  simp only [onward, hc, List.length_map]
  exact length_componentParams_le m c

/-- Going through a component and the components it reaches comes to an end. -/
theorem walk_runs (m : Model) (c : Classifier) :
    Walk.Runs (fun a => a.component.map (·.path)) (onward m) [start c] [] (walk m c) := by
  refine Walk.runs_meetings_start
    (P := fun a => ∀ c, a.component = some c → c ∈ m.classifiers) (S := m.unseenParams)
    (fun _ _ b hb => component_of_mem_onward hb) ?_ (start c)
    (fun b hb => component_of_mem_onward hb) ?_
  · intro a seen ha hs
    cases hc : a.component with
    | none =>
      simp only [onward, hc, List.length_nil, Option.map_none, Nat.zero_add]
      exact Walk.unseenWeight_anti (fun k hk => List.mem_cons_of_mem _ hk) _
    | some d =>
      have hd := ha d hc
      rw [hc, Option.map_some, Classifier.path_of_mem_classifiers hd] at hs
      rw [Option.map_some, Classifier.path_of_mem_classifiers hd]
      refine Nat.le_trans (Nat.add_le_add_right (length_onward_le hc) _) ?_
      exact Walk.weight_add_unseenWeight_le (n := fun d => some d.qualifiedName)
        (w := fun d : ClassDecl => (d.constructor.elim [] (·.params)).length)
        (Model.decl_mem_of_mem_classifiers hd) hs
  · have hl := length_onward_le (m := m) (a := start c) rfl
    have hs := m.unseenParams_le [(start c).component.map (·.path)]
    omega

/-- What holds at the start of the walk, and is passed on along parameters, holds of every
arrival. -/
theorem forall_mem_walk {m : Model} {c : Classifier} {P : Arrival → Prop} (hstart : P (start c))
    (hnext : ∀ a d p, P a → a.component = some d → p ∈ componentParams m d →
      P ⟨some p, a.accessor.isNone, m.classOf p.type, some (extend a.accessor p.name)⟩) :
    ∀ n ∈ walk m c, P n.1 := by
  refine Walk.forall_mem_meetings (fun a ha b hb => ?_) _ _ _ fun a ha => ?_
  · obtain ⟨d, hd, p, hp, rfl⟩ := mem_onward_iff.1 hb
    exact hnext a d p ha hd hp
  · rw [List.mem_singleton.1 ha]
    exact hstart

/-- Every component of the walk is the one at the start or declared. -/
theorem component_of_mem_walk {m : Model} {c d : Classifier} {n : Arrival × Bool}
    (h : n ∈ walk m c) (hd : n.1.component = some d) : d = c ∨ d ∈ m.classifiers := by
  refine forall_mem_walk
    (P := fun a => ∀ d, a.component = some d → d = c ∨ d ∈ m.classifiers) ?_ ?_ n h d hd
  · intro d hd
    cases hd
    exact .inl rfl
  · intro _ _ _ _ _ _ d hd
    exact .inr (Model.mem_classifiers_of_classOf hd)

end Arrival

namespace Classifier

/-- What is left of members is among them. -/
theorem mem_of_mem_dropOverridden {f : Callable} :
    ∀ {fs earlier : List Callable}, f ∈ dropOverridden earlier fs → f ∈ fs := by
  intro fs
  induction fs with
  | nil =>
    intro earlier h
    exact h
  | cons g fs ih =>
    intro earlier h
    rw [dropOverridden] at h
    split at h
    · exact List.mem_cons_of_mem _ (ih h)
    · rcases List.mem_cons.1 h with rfl | h
      · exact List.mem_cons_self ..
      · exact List.mem_cons_of_mem _ (ih h)

/-- The members of a declared class and its ancestors are declared. -/
theorem mem_callables_of_mem_allMembers {m : Model} {c : Classifier} {f : Callable}
    (hc : c ∈ m.classifiers) (h : f ∈ c.allMembers m) : f ∈ m.callables := by
  obtain ⟨a, ha, hf⟩ := List.mem_flatMap.1 (mem_of_mem_dropOverridden h)
  have hd : a ∈ m.classifiers := by
    rcases mem_chain ha with rfl | hd
    · exact hc
    · exact hd
  exact List.mem_flatMap.2 ⟨a, hd, hf⟩

end Classifier

end Wiring
