import Mathlib.Logic.Relation
import Wiring.Proofs.Catalogue.Reports
import Wiring.Proofs.Component.Requirements
import Wiring.Proofs.Sketch

/-!
# Parents that can be planned by themselves

What is reported of the members of a parent while a child is planned, when the parent itself can be
planned with nothing to report. The child sees what the parent asks for as bindings, and these take
part in its duplicates, whereas the parent asks for them and reports nothing. Two members that
provide, on the other hand, are duplicates for the parent if they are for the child, and a member
has the same problems in both.
-/

namespace Wiring

open Annotation (component)
open Collect

namespace Catalogue

variable {m : Model} {o : Options} {c p : Classifier} {key : Key}

/-- What a providing member binds does not depend on how its level is reached. -/
theorem bindsKey_levelAt {f : Callable} (hp : Role.isProvides f = true) (a a' : Option String) :
    bindsKey m o (levelAt m o a p) f = bindsKey m o (levelAt m o a' p) f := by
  rw [bindsKey, bindsKey, if_pos hp, if_pos hp]
  rfl

/-- A list with two different elements begins with two elements. -/
theorem exists_cons_cons {α : Type} {l : List α} {a b : α} (ha : a ∈ l) (hb : b ∈ l)
    (hne : a ≠ b) : ∃ x y rest, l = x :: y :: rest := by
  cases l with
  | nil => exact absurd ha List.not_mem_nil
  | cons x l =>
    cases l with
    | nil => exact absurd ((List.mem_singleton.1 ha).trans (List.mem_singleton.1 hb).symm) hne
    | cons y rest => exact ⟨x, y, rest, rfl⟩

/-- No member binds a key twice. -/
theorem nodup_binders (m : Model) (o : Options) (c : Classifier) (key : Key) :
    (binders m o c key).Nodup := by
  rw [binders]
  exact nodup_flatMap_levels fun l _ => (l.component.nodup_allMembers m).filter _

/-- Two members that provide at one level bind the key twice for the component of that level,
too. -/
theorem Rivals.own {first later : Level × Callable} (h : Rivals m o c key first later)
    (hfirst : first.1.component = p) (hlater : later.1.component = p)
    (hp : Role.isProvides first.2 = true) (hp' : Role.isProvides later.2 = true) :
    ∃ first later, Rivals m o p key first later := by
  obtain ⟨before, after, hbinders, hhead, _⟩ := h
  have hmem : first ∈ before := List.mem_of_mem_head? hhead
  have hnodup := nodup_binders m o c key
  rw [hbinders, List.nodup_append] at hnodup
  have hne : first ≠ later := hnodup.2.2 first hmem later (List.mem_cons_self ..)
  obtain ⟨hl, hf, hk⟩ := mem_binders_iff.1 (hbinders ▸ List.mem_append_left _ hmem)
  obtain ⟨hl', hf', hk'⟩ := mem_binders_iff.1 (hbinders ▸ List.mem_append_cons_self)
  have hlevel : first.1 = later.1 := eq_of_mem_levels hl hl' (hfirst.trans hlater.symm)
  have hcallable : first.2 ≠ later.2 := fun he => hne (Prod.ext hlevel he)
  -- At its own level the component lists both members among those that bind the key.
  obtain ⟨rest, hrest⟩ := exists_levels_eq_cons m o p
  have hown : ∀ f, f ∈ p.allMembers m → bindsKey m o (levelAt m o none p) f = some key →
      f ∈ (p.allMembers m).filter fun f => bindsKey m o (levelAt m o none p) f = some key :=
    fun f hf hk => List.mem_filter.2 ⟨hf, decide_eq_true hk⟩
  rw [eq_levelAt_of_mem_levels hl, hfirst, bindsKey_levelAt hp _ none] at hk
  rw [eq_levelAt_of_mem_levels hl', hlater, bindsKey_levelAt hp' _ none] at hk'
  obtain ⟨x, y, tail, htail⟩ := exists_cons_cons (hown _ (hfirst ▸ hf) hk)
    (hown _ (hlater ▸ hf') hk') hcallable
  have hbinders' : ∃ after, binders m o p key
      = [(levelAt m o none p, x)] ++ (levelAt m o none p, y) :: after := by
    rw [binders, hrest, List.flatMap_cons, levelAt_component, htail]
    exact ⟨_, rfl⟩
  obtain ⟨after, hafter⟩ := hbinders'
  exact ⟨(levelAt m o none p, x), (levelAt m o none p, y), _, after, hafter, rfl, rfl⟩

end Catalogue

namespace Component

/-- The class `p` is a parent of `c`, which holds it in a public property among its constructor
parameters. -/
def IsParent (m : Model) (c p : Classifier) : Prop :=
  ∃ q ∈ Arrival.componentParams m c, q.isVal = true ∧ q.isPrivate = false ∧
    m.classOf q.type = some p

/-- An element is that of a member declared in the inheritance chain of `p`, and not in the chain
of `c`. -/
def OfParent (m : Model) (c p : Classifier) (e : Element) : Prop :=
  ∃ a ∈ p.chain m, a ∉ c.chain m ∧ ∃ f ∈ a.members m, e.id = f.element.id

/-- Nothing is reported of the members of a parent, or of a parent of a parent and so on, that can
be planned by itself without an error. -/
def ParentsCompose (m : Model) (o : Options) (c : Classifier) : Prop :=
  ∀ p, Relation.TransGen (IsParent m) c p → (plan m o p).hasErrors = false →
    ∀ d ∈ (plan m o c).diagnostics, ∀ e, d.element = some e → ¬ OfParent m c p e

/-- Two members provide at the level of `p`. -/
structure BothProvide (p : Classifier) (first later : Level × Callable) : Prop where
  first_component : first.1.component = p
  later_component : later.1.component = p
  first_provides : Role.isProvides first.2 = true
  later_provides : Role.isProvides later.2 = true

/-- The members of `p` are in order as far as the planning of `c` sees more of them than that of `p`
does. -/
structure InOrder (m : Model) (o : Options) (c p : Classifier) : Prop where
  /-- They take part in no duplicates but those of two members that provide at the level of `p`. -/
  duplicates : ∀ key first later, Catalogue.Rivals m o c key first later →
    OfParent m c p first.2.element ∨ OfParent m c p later.2.element → BothProvide p first later
  /-- They have no problems but at the level of `p`. -/
  problems : ∀ l ∈ levels m o c, ∀ f ∈ l.component.allMembers m, OfParent m c p f.element →
    ∀ d, .problem d ∈ memberFindings m o l f → l.component = p

variable {m : Model} {o : Options} {c p : Classifier} {e : Element} {d : Diagnostic}

/-- What is of a parent is a member. -/
theorem kind_of_ofParent (h : OfParent m c p e) : e.id.kind = .member := by
  obtain ⟨a, _, _, f, hf, he⟩ := h
  rw [Classifier.members] at hf
  split at hf
  · exact absurd hf List.not_mem_nil
  · obtain ⟨⟨d, i⟩, _, rfl⟩ := List.mem_map.1 hf
    exact congrArg ElementId.kind he

/-- A valid component reports what its catalogue reports. -/
theorem diagnostics_plan (hi : invalid? c = none) :
    (plan m o c).diagnostics = (Catalogue.collect m o c).diagnostics := by
  simp only [plan, hi]
  split <;> rfl

/-- A class that cannot be a component is planned without diagnostics of its catalogue. -/
theorem diagnostics_of_invalid {failure : Failure} (hi : invalid? c = some failure) :
    (plan m o c).diagnostics = [] := by
  simp only [plan, hi]

/-- A component that is planned without an error has nothing to report. -/
theorem diagnostics_eq_nil_of_hasErrors (h : (plan m o c).hasErrors = false) :
    (Catalogue.collect m o c).diagnostics = [] := by
  rw [ComponentPlan.hasErrors, Bool.or_eq_false_iff] at h
  cases hi : invalid? c with
  | some failure =>
    have hfailure := (failure_eq_some_iff (m := m) (o := o)).2 (.inl hi)
    rw [hfailure] at h
    cases h.1
  | none =>
    rw [diagnostics_plan hi] at h
    refine List.eq_nil_iff_forall_not_mem.2 fun d hd => ?_
    have herror := Catalogue.isError_of_mem_diagnostics_collect hd
    exact List.any_eq_false.1 h.2 d hd herror

/-- A component that is planned without an error has no two members that provide for one key. -/
theorem not_bothProvide_of_hasErrors (h : (plan m o p).hasErrors = false) {key : Key}
    {first later : Level × Callable} (hr : Catalogue.Rivals m o c key first later) :
    ¬ BothProvide p first later := by
  intro hboth
  obtain ⟨first', later', hown⟩ := hr.own hboth.first_component hboth.later_component
    hboth.first_provides hboth.later_provides
  obtain ⟨d, hd, _⟩ := Catalogue.reported_of_rivals hown
  rw [diagnostics_eq_nil_of_hasErrors h] at hd
  exact absurd hd List.not_mem_nil

/-- A component that is planned without an error has no member with a problem, wherever it is
reached from. -/
theorem no_problem_of_hasErrors (h : (plan m o p).hasErrors = false) {l : Level}
    (hl : l ∈ levels m o c) (hp : l.component = p) {f : Callable}
    (hf : f ∈ p.allMembers m) : .problem d ∉ memberFindings m o l f := by
  intro hd
  rw [eq_levelAt_of_mem_levels hl, hp] at hd
  have hown := problem_mem_memberFindings_levelAt hd none
  obtain ⟨rest, hrest⟩ := exists_levels_eq_cons m o p
  have hmem : levelAt m o none p ∈ levels m o p := by
    rw [hrest]
    exact List.mem_cons_self ..
  have hfound := mem_findings_iff.2 (.inr (.inr ⟨_, hmem, f, hf, hown⟩))
  have hreported := Catalogue.mem_diagnostics_collect.2 (.inl hfound)
  rw [diagnostics_eq_nil_of_hasErrors h] at hreported
  exact absurd hreported List.not_mem_nil

/-- Nothing is reported of the members of a parent that can be planned by itself exactly when they
are in order where the child sees more of them. -/
theorem parentsCompose_iff (m : Model) (o : Options) (c : Classifier) : ParentsCompose m o c ↔
    ∀ p, Relation.TransGen (IsParent m) c p → (plan m o p).hasErrors = false →
      invalid? c = none → InOrder m o c p := by
  constructor
  · intro h p hp hclean hi
    have hreport := h p hp hclean
    rw [diagnostics_plan hi] at hreport
    constructor
    · intro key first later hr hparent
      have hclash : ∀ d ∈ Catalogue.clash key (providerOf o first) (providerOf o later),
          ∀ e, d.element = some e → ¬ OfParent m c p e := fun d hd =>
        hreport d (Catalogue.mem_diagnostics_collect.2 (.inr ⟨key, first, later, hr, hd⟩))
      have haccessor : (providerOf o first).accessor = (providerOf o later).accessor := by
        obtain ⟨_, _, _, _, ha⟩ := hr
        exact ha
      exfalso
      rcases hparent with hparent | hparent
      · exact hclash _ (Catalogue.mem_clash_iff.2 ⟨haccessor, .inr rfl⟩) _ rfl hparent
      · exact hclash _ (Catalogue.mem_clash_iff.2 ⟨haccessor, .inl rfl⟩) _ rfl hparent
    · intro l hl f hf hparent d hd
      have hfound := mem_findings_iff.2 (.inr (.inr ⟨l, hl, f, hf, hd⟩))
      obtain ⟨code, message, rfl⟩ := errorAt_of_mem_memberFindings hd
      exact absurd hparent
        (hreport _ (Catalogue.mem_diagnostics_collect.2 (.inl hfound)) _ rfl)
  · intro h p hp hclean d hd e he hparent
    cases hi : invalid? c with
    | some failure =>
      rw [diagnostics_of_invalid hi] at hd
      exact absurd hd List.not_mem_nil
    | none =>
      obtain ⟨hduplicates, hproblems⟩ := h p hp hclean hi
      rw [diagnostics_plan hi] at hd
      -- What is reported of the parent is a problem or a clash, and it would report both by itself.
      rcases Catalogue.mem_diagnostics_collect.1 hd with hfound | ⟨key, first, later, hr, hd⟩
      · obtain ⟨code, message, e', rfl, hkind⟩ := errorAt_of_mem_findings hfound
        cases he
        rw [kind_of_ofParent hparent] at hkind
        rcases hkind with hkind | hkind | ⟨l, hl, f, hf, rfl, hd⟩
        · cases hkind
        · cases hkind
        · have hlevel := hproblems l hl f hf hparent _ hd
          exact no_problem_of_hasErrors hclean hl hlevel (hlevel ▸ hf) hd
      · refine not_bothProvide_of_hasErrors hclean hr (hduplicates key first later hr ?_)
        obtain ⟨_, rfl | rfl⟩ := Catalogue.mem_clash_iff.1 hd
        · cases he
          exact .inr hparent
        · cases he
          exact .inl hparent

/-- A flat in a house. -/
def flat : ClassDecl :=
  Sketch.component "Flat" []
    [Sketch.param "house" (Sketch.type "House") [component]] []

/-- A house that asks for a door and provides it, too. -/
def house : ClassDecl :=
  Sketch.component "House" [] [] [
    Sketch.requirement "door" (Sketch.type "Door") [],
    Sketch.provider "makeDoor" [] (Sketch.type "Door") []]

/-- The program of the flat and the house. -/
def flatProgram : Model := Sketch.program [flat, house, Sketch.plain "Door"]

/-- The house has a plan and nothing to report, and in the flat its door is a duplicate. -/
theorem not_parentsCompose_flat : ⟨0, flat, false⟩ ∈ flatProgram.classifiers ∧
    (plan flatProgram {} ⟨1, house, false⟩).hasErrors = false ∧
    ¬ ParentsCompose flatProgram {} ⟨0, flat, false⟩ := by
  have hclean : (plan flatProgram {} ⟨1, house, false⟩).hasErrors = false := by decide +kernel
  refine ⟨Model.mem_classifiers.2 ⟨rfl, rfl⟩, hclean, fun h => ?_⟩
  have hparent : IsParent flatProgram ⟨0, flat, false⟩ ⟨1, house, false⟩ :=
    ⟨_, List.mem_singleton.2 rfl, rfl, rfl, rfl⟩
  obtain ⟨door, d, reports, hdoor, hreports, he⟩ :
      ∃ door : Callable, ∃ d reports,
        (Classifier.members flatProgram ⟨1, house, false⟩)[0]? = some door ∧
        (plan flatProgram {} ⟨0, flat, false⟩).diagnostics = reports ++ [d] ∧
        d.element = some door.element :=
    ⟨_, _, [_], rfl, rfl, rfl⟩
  have hd : d ∈ (plan flatProgram {} ⟨0, flat, false⟩).diagnostics := by
    rw [hreports]
    exact List.mem_append_cons_self
  refine h _ (.single hparent) hclean d hd _ he ⟨⟨1, house, false⟩, ?_, ?_, door, ?_, rfl⟩
  · exact List.mem_singleton.2 rfl
  · exact fun hmem => absurd hmem (by decide +kernel)
  · exact List.mem_of_getElem? hdoor

end Component

end Wiring
