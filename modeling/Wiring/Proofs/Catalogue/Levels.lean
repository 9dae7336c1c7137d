import Mathlib.Data.List.Nodup
import Wiring.Proofs.Catalogue.Collected

/-!
# The levels of a component

A component and the parents it reaches, each a level once, by the first path that leads to it. The
component itself comes first and has no path. What a level owns depends on its path only in how
the cache is reached, and no level has a member twice.
-/

namespace Wiring

namespace Callable

/-- A member has its own shape. -/
theorem overrides_refl (f : Callable) : f.overrides f = true := by
  simp only [overrides, BEq.rfl, Bool.and_self]

end Callable

namespace Classifier

/-- A member that is not overridden is not overridden by what came before. -/
theorem not_overrides_of_mem_dropOverridden {f : Callable} :
    ∀ {fs earlier : List Callable}, f ∈ dropOverridden earlier fs →
      earlier.any (·.overrides f) = false := by
  intro fs
  induction fs with
  | nil =>
    intro earlier h
    exact absurd h List.not_mem_nil
  | cons g fs ih =>
    intro earlier h
    rw [dropOverridden] at h
    split at h
    · exact ih h
    · next hg =>
      rcases List.mem_cons.1 h with rfl | h
      · exact Bool.eq_false_iff.2 hg
      · have hrest := ih h
        rw [List.any_append, Bool.or_eq_false_iff] at hrest
        exact hrest.1

/-- No member is left twice. -/
theorem nodup_dropOverridden : ∀ fs earlier : List Callable, (dropOverridden earlier fs).Nodup := by
  intro fs
  induction fs with
  | nil =>
    intro earlier
    exact List.nodup_nil
  | cons g fs ih =>
    intro earlier
    rw [dropOverridden]
    split
    · exact ih earlier
    · refine List.nodup_cons.2 ⟨fun hg => ?_, ih _⟩
      have hnot := not_overrides_of_mem_dropOverridden hg
      simp only [List.any_append, List.any_cons, g.overrides_refl, Bool.true_or, Bool.or_true,
        reduceCtorEq] at hnot

/-- No member is listed twice. -/
theorem nodup_allMembers (m : Model) (c : Classifier) : (c.allMembers m).Nodup :=
  nodup_dropOverridden _ []

end Classifier

namespace Arrival

/-- A parameter that is followed has the element of a parameter. -/
theorem kind_of_mem_walk {m : Model} {c : Classifier} {n : Arrival × Bool} (h : n ∈ walk m c)
    {p : Param} (hp : n.1.via = some p) : p.element.id.kind = .parameter := by
  refine forall_mem_walk
    (P := fun a => ∀ p, a.via = some p → p.element.id.kind = .parameter) ?_ ?_ n h p hp
  · intro p hp
    cases hp
  · intro _ _ p' _ _ hp' p hp
    cases hp
    rw [componentParams] at hp'
    split at hp'
    · next k hk =>
      rw [Classifier.constructor?] at hk
      split at hk
      · cases hk
      · obtain ⟨_, _, rfl⟩ := Option.map_eq_some_iff.1 hk
        obtain ⟨_, _, rfl⟩ := List.mem_map.1 (List.mem_of_mem_filter hp')
        rfl
    · exact absurd hp' List.not_mem_nil

end Arrival

namespace Collect

variable {m : Model} {o : Options} {c : Classifier} {l l' : Level}

/-- The level of a component that is reached by a path. -/
def levelAt (m : Model) (o : Options) (accessor : Option String) (d : Classifier) : Level :=
  ⟨d, accessor, ownerOf accessor (Role.findScope m o d)⟩

/-- A level is the one of its component. -/
@[simp] theorem levelAt_component (m : Model) (o : Options) (accessor : Option String)
    (d : Classifier) : (levelAt m o accessor d).component = d := rfl

/-- The levels are those of the components entered on the walk. -/
theorem levels_eq (m : Model) (o : Options) (c : Classifier) :
    levels m o c = (Walk.entered (Arrival.walk m c)).filterMap fun a =>
      a.component.map (levelAt m o a.accessor) := by
  rw [levels, Walk.entered, List.filterMap_filterMap, List.filterMap_eq_flatMap_toList]
  refine List.flatMap_congr fun n _ => ?_
  obtain ⟨⟨via, fromStart, component, accessor⟩, isNew⟩ := n
  cases isNew <;> cases component <;> rfl

/-- The levels are those of the components that the walk enters, with the accessor it enters them
by. -/
theorem mem_levels_iff : l ∈ levels m o c ↔
    ∃ a, (a, true) ∈ Arrival.walk m c ∧ a.component = some l.component ∧
      l = levelAt m o a.accessor l.component := by
  rw [levels, List.mem_flatMap]
  constructor
  · rintro ⟨⟨a, isNew⟩, hn, hl⟩
    cases hcomponent : a.component with
    | none =>
      simp only [hcomponent, List.not_mem_nil] at hl
    | some d =>
      cases isNew with
      | false => simp only [hcomponent, Bool.false_eq_true, if_false, List.not_mem_nil] at hl
      | true =>
        simp only [hcomponent, if_true, List.mem_singleton] at hl
        subst hl
        exact ⟨a, hn, hcomponent, rfl⟩
  · rintro ⟨a, hn, hcomponent, hl⟩
    refine ⟨(a, true), hn, ?_⟩
    simp only [hcomponent, if_true, List.mem_singleton]
    exact hl

/-- A level is that of its component at its path. -/
theorem eq_levelAt_of_mem_levels (h : l ∈ levels m o c) :
    l = levelAt m o l.accessor l.component := by
  obtain ⟨a, _, _, hl⟩ := mem_levels_iff.1 h
  rw [hl]
  rfl

/-- Whatever is found concerns a parameter of the component, the scope of a component in reach, or
a member of a level. -/
theorem mem_findings_iff {x : Finding} : x ∈ findings m o c ↔
    (∃ n ∈ Arrival.walk m c, ∃ p, n.1.via = some p ∧ n.1.fromStart = true ∧ x ∈ paramProblems p)
      ∨ (∃ n ∈ Arrival.walk m c, ∃ d, n.1.component = some d ∧
          x ∈ scopeFindings n.1.accessor (Role.findScope m o d))
      ∨ ∃ l ∈ levels m o c, ∃ f ∈ l.component.allMembers m, x ∈ memberFindings m o l f := by
  rw [findings, List.mem_flatMap]
  simp only [arrivalFindings_eq, List.mem_append]
  constructor
  · rintro ⟨⟨a, isNew⟩, hn, hx | hx⟩
    · cases hvia : a.via with
      | none => simp only [hvia, Option.elim, List.not_mem_nil] at hx
      | some p =>
        simp only [hvia, Option.elim] at hx
        obtain ⟨hstart, hx⟩ := List.mem_ite_nil_right.1 hx
        exact .inl ⟨_, hn, p, hvia, hstart, hx⟩
    · cases hcomponent : a.component with
      | none => simp only [hcomponent, Option.elim, List.not_mem_nil] at hx
      | some d =>
        simp only [hcomponent, Option.elim, List.mem_append, List.mem_ite_nil_right] at hx
        rcases hx with hx | ⟨rfl, hx⟩
        · exact .inr (.inl ⟨_, hn, d, hcomponent, hx⟩)
        · obtain ⟨f, hf, hx⟩ := List.mem_flatMap.1 hx
          have hl : levelAt m o a.accessor d ∈ levels m o c :=
            mem_levels_iff.2 ⟨a, hn, hcomponent, rfl⟩
          exact .inr (.inr ⟨_, hl, f, hf, hx⟩)
  · rintro (⟨n, hn, p, hvia, hstart, hx⟩ | ⟨n, hn, d, hcomponent, hx⟩ | ⟨l, hl, f, hf, hx⟩)
    · refine ⟨n, hn, .inl ?_⟩
      simp only [hvia, Option.elim, hstart, if_true]
      exact hx
    · refine ⟨n, hn, .inr ?_⟩
      simp only [hcomponent, Option.elim, List.mem_append]
      exact .inl hx
    · obtain ⟨a, hn, hcomponent, hl⟩ := mem_levels_iff.1 hl
      refine ⟨(a, true), hn, .inr ?_⟩
      simp only [hcomponent, Option.elim, List.mem_append, if_true]
      rw [hl] at hx
      exact .inr (List.mem_flatMap.2 ⟨f, hf, hx⟩)

/-- The component itself is the first level. -/
theorem exists_levels_eq_cons (m : Model) (o : Options) (c : Classifier) :
    ∃ rest, levels m o c = levelAt m o none c :: rest := by
  have hwalk : ∃ rest, Arrival.walk m c = (Arrival.start c, true) :: rest := by
    rw [Arrival.walk, Walk.meetings, if_neg List.not_mem_nil]
    exact ⟨_, rfl⟩
  obtain ⟨rest, hrest⟩ := hwalk
  rw [levels, hrest, List.flatMap_cons]
  exact ⟨_, rfl⟩

/-- Only the component itself is reached without a path. -/
theorem component_of_accessor (hl : l ∈ levels m o c) (h : l.accessor = none) :
    l.component = c := by
  obtain ⟨a, ha, hcomponent, hlevel⟩ := mem_levels_iff.1 hl
  have haccessor : a.accessor = none := by
    rw [hlevel] at h
    exact h
  have hstart : a.accessor = none → a.component = some c := by
    refine Arrival.forall_mem_walk (P := fun a => a.accessor = none → a.component = some c)
      (fun _ => rfl) ?_ _ ha
    intro _ _ _ _ _ _ hnone
    cases hnone
  rw [hstart haccessor] at hcomponent
  exact (Option.some.inj hcomponent).symm

/-- No component is a level twice. -/
theorem nodup_levels (m : Model) (o : Options) (c : Classifier) :
    ((levels m o c).map fun l => l.component.path).Nodup := by
  have hkeys := (Arrival.walk_runs m c).nodup_entered.2
  rw [levels_eq, List.map_filterMap]
  have hpaths : ((Walk.entered (Arrival.walk m c)).filterMap fun a =>
        (a.component.map (levelAt m o a.accessor)).map fun l => l.component.path)
      = ((Walk.entered (Arrival.walk m c)).map fun a => a.component.map (·.path)).filterMap id := by
    rw [List.filterMap_map]
    refine List.filterMap_congr fun a _ => ?_
    obtain ⟨via, fromStart, component, accessor⟩ := a
    cases component <;> rfl
  rw [hpaths]
  exact hkeys.filterMap fun a a' b ha ha' => ha.trans ha'.symm

/-- Members of levels are all different when those of each level are. -/
theorem nodup_flatMap_levels {fs : Level → List Callable} (h : ∀ l ∈ levels m o c, (fs l).Nodup) :
    ((levels m o c).flatMap fun l => (fs l).map (l, ·)).Nodup := by
  rw [List.nodup_flatMap]
  constructor
  · intro l hl
    exact (h l hl).map fun f g he => (Prod.mk.inj he).2
  · refine List.Pairwise.imp ?_ (List.pairwise_map.1 (nodup_levels m o c))
    intro l l' hne n hn hn'
    obtain ⟨f, _, rfl⟩ := List.mem_map.1 hn
    obtain ⟨g, _, hg⟩ := List.mem_map.1 hn'
    exact hne (congrArg (fun n : Level × Callable => n.1.component.path) hg).symm

/-- A component has one level. -/
theorem eq_of_mem_levels (hl : l ∈ levels m o c) (hl' : l' ∈ levels m o c)
    (h : l.component = l'.component) : l = l' :=
  List.inj_on_of_nodup_map (nodup_levels m o c) hl hl' (congrArg Classifier.path h)

end Collect

end Wiring
