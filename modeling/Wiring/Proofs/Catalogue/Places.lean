import Wiring.Proofs.Catalogue.Reports
import Wiring.Text.Affix

/-!
# Where accessors lead

A parent component is reached through component parameters, one after the other, and its accessor
names them. Where names of component parameters hold no dot and are different in one class,
following an accessor from the component leads to the very level that has it.
-/

namespace Wiring

open Collect

/-- The names in an accessor. -/
def segments (accessor : String) : List String :=
  (Text.pieces '.' accessor.toList).map String.ofList

/-- The names of two accessors with a dot between them are the names of both. -/
theorem segments_append (a b : String) : segments (a ++ "." ++ b) = segments a ++ segments b := by
  have hdot : (a ++ "." ++ b).toList = a.toList ++ '.' :: b.toList := by
    rw [String.toList_append, String.toList_append, List.append_assoc]
    rfl
  rw [segments, hdot, Text.pieces_append, List.map_append]
  rfl

/-- An accessor without a dot is one name. -/
theorem segments_of_not_mem {name : String} (h : '.' ∉ name.toList) : segments name = [name] := by
  rw [segments, Text.pieces_of_not_mem h, List.map_singleton, String.ofList_toList]

/-- A path that is extended by a name has the name as its last. -/
theorem segments_extend (accessor : Option String) {name : String} (h : '.' ∉ name.toList) :
    segments (Arrival.extend accessor name) = accessor.elim [] segments ++ [name] := by
  cases accessor with
  | none => exact segments_of_not_mem h
  | some path =>
    rw [Arrival.extend, segments_append, segments_of_not_mem h]
    rfl

/-- Every accessor has a first name. -/
theorem exists_segments_eq_cons (accessor : String) :
    ∃ name rest, segments accessor = name :: rest := by
  obtain ⟨p, ps, hp⟩ := List.exists_cons_of_ne_nil (Text.pieces_ne_nil '.' accessor.toList)
  rw [segments, hp, List.map_cons]
  exact ⟨_, _, rfl⟩

/-- A component with the path of parameters that leads to it; none for the generated component. -/
structure Place where
  component : Classifier
  accessor : Option String
  deriving DecidableEq, Repr

/-- The place of a level. -/
def Collect.Level.place (l : Level) : Place := ⟨l.component, l.accessor⟩

namespace Place

variable {m : Model} {o : Options} {c d : Classifier} {p place : Place} {name : String}

/-- Whether a name can be read inside a place: its class or an ancestor has a member of that name,
or the constructor has such a parameter that is a property. -/
def declares (m : Model) (p : Place) (name : String) : Bool :=
  ((p.component.chain m).any fun a => (a.members m).any (·.name == name))
    || (p.component.constructor? m).elim false fun k =>
      k.params.any fun q => q.isVal && q.name == name

/-- The place that a component parameter leads to. -/
def follow (m : Model) (p : Place) (name : String) : Option Place :=
  ((Arrival.componentParams m p.component).find? (·.name == name)).bind fun q =>
    (m.classOf q.type).map fun d => ⟨d, some (Arrival.extend p.accessor q.name)⟩

/-- The place that component parameters lead to, one after the other. -/
def reach (m : Model) (p : Place) (names : List String) : Option Place :=
  names.foldlM (follow m) p

/-- A path is followed by following its first part and then the rest. -/
theorem reach_append (names more : List String) :
    p.reach m (names ++ more) = (p.reach m names).bind fun q => q.reach m more :=
  List.foldlM_append

/-- A path is followed by following its first name and then the rest. -/
theorem reach_cons (more : List String) :
    p.reach m (name :: more) = (p.follow m name).bind fun q => q.reach m more :=
  List.foldlM_cons

/-- A parameter that is followed is a component parameter of the name. -/
theorem exists_param_of_follow (h : p.follow m name = some place) :
    ∃ q ∈ Arrival.componentParams m p.component, q.name = name := by
  obtain ⟨q, hq, _⟩ := Option.bind_eq_some_iff.1 h
  exact ⟨q, List.mem_of_find?_eq_some hq, by simpa using List.find?_some hq⟩

/-- Where names are different, each component parameter is followed to the component it holds. -/
theorem follow_of_mem (hn : ((Arrival.componentParams m p.component).map (·.name)).Nodup)
    {q : Param} (hq : q ∈ Arrival.componentParams m p.component) (hd : m.classOf q.type = some d) :
    p.follow m q.name = some ⟨d, some (Arrival.extend p.accessor q.name)⟩ := by
  have hfind : (Arrival.componentParams m p.component).find? (·.name == q.name) = some q := by
    cases hf : (Arrival.componentParams m p.component).find? (·.name == q.name) with
    | none => exact absurd BEq.rfl (List.find?_eq_none.1 hf q hq)
    | some q' =>
      have hname : q'.name = q.name := by simpa using List.find?_some hf
      rw [List.inj_on_of_nodup_map hn (List.mem_of_find?_eq_some hf) hq hname]
  rw [follow, hfind, Option.bind_some, hd, Option.map_some]

/-- A component parameter that is a property can be read inside the place. -/
theorem declares_of_mem {q : Param} (hq : q ∈ Arrival.componentParams m p.component)
    (hv : q.isVal = true) : p.declares m q.name = true := by
  rw [Arrival.componentParams] at hq
  rw [declares]
  cases hk : p.component.constructor? m with
  | none =>
    rw [hk] at hq
    exact absurd hq List.not_mem_nil
  | some k =>
    rw [hk] at hq
    refine Bool.or_eq_true_iff.2 (.inr ?_)
    refine List.any_eq_true.2 ⟨q, List.mem_of_mem_filter hq, ?_⟩
    rw [hv, Bool.true_and, beq_self_eq_true]

end Place

/-- The accessors of the levels of a component can be taken apart: names of component parameters
hold no dot and are different in one class. -/
structure PathsApart (m : Model) (o : Options) (c : Classifier) : Prop where
  dotless : ∀ l ∈ levels m o c, ∀ p ∈ Arrival.componentParams m l.component, '.' ∉ p.name.toList
  distinct : ∀ l ∈ levels m o c, ((Arrival.componentParams m l.component).map (·.name)).Nodup

/-- What the parameters of a component that has been reached lead to is reached as well. -/
theorem PathsApart.reach_onward {m : Model} {o : Options} {c d e : Classifier}
    (h : PathsApart m o c) {accessor : Option String} (hl : levelAt m o accessor d ∈ levels m o c)
    (hreach : (⟨c, none⟩ : Place).reach m (accessor.elim [] segments) = some ⟨d, accessor⟩)
    {p : Param} (hp : p ∈ Arrival.componentParams m d) (he : m.classOf p.type = some e) :
    (⟨c, none⟩ : Place).reach m (segments (Arrival.extend accessor p.name))
      = some ⟨e, some (Arrival.extend accessor p.name)⟩ := by
  have hfollow : Place.follow m ⟨d, accessor⟩ p.name
      = some ⟨e, some (Arrival.extend accessor p.name)⟩ :=
    Place.follow_of_mem (h.distinct _ hl) hp he
  rw [segments_extend accessor (h.dotless _ hl p hp), Place.reach_append, hreach, Option.bind_some,
    Place.reach_cons, hfollow]
  rfl

/-- Every level is where its accessor leads. -/
theorem PathsApart.reach_level {m : Model} {o : Options} {c : Classifier} (h : PathsApart m o c)
    {l : Level} (hl : l ∈ levels m o c) :
    (⟨c, none⟩ : Place).reach m (l.accessor.elim [] segments) = some l.place := by
  obtain ⟨a, hmem, hcomponent, hlevel⟩ := mem_levels_iff.1 hl
  rw [hlevel]
  refine (Arrival.walk_runs m c).forall_mem_entered
    (P := fun a => ∀ d, a.component = some d →
      (⟨c, none⟩ : Place).reach m (a.accessor.elim [] segments) = some ⟨d, a.accessor⟩)
    ?_ ?_ a (Walk.mem_entered.2 hmem) _ hcomponent
  · intro a ha d hd
    rw [List.mem_singleton.1 ha] at hd ⊢
    cases hd
    rfl
  · intro b hb ih a ha d hd
    obtain ⟨e, he, p, hp, rfl⟩ := Arrival.mem_onward_iff.1 ha
    have hlevel : levelAt m o b.accessor e ∈ levels m o c :=
      mem_levels_iff.2 ⟨b, Walk.mem_entered.1 hb, he, rfl⟩
    exact h.reach_onward hlevel (ih e he) hp hd

/-- One path leads to one level. -/
theorem PathsApart.eq_of_accessor {m : Model} {o : Options} {c : Classifier}
    (h : PathsApart m o c) {l l' : Level} (hl : l ∈ levels m o c) (hl' : l' ∈ levels m o c)
    (ha : l.accessor = l'.accessor) : l = l' := by
  have hplace := h.reach_level hl
  rw [ha, h.reach_level hl'] at hplace
  exact eq_of_mem_levels hl hl' (congrArg Place.component (Option.some.inj hplace)).symm

/-- The names of the accessor of a level lead from the component to the place of the level. -/
theorem PathsApart.reach_segments {m : Model} {o : Options} {c : Classifier} (h : PathsApart m o c)
    {l : Level} (hl : l ∈ levels m o c) {accessor : String} (ha : l.accessor = some accessor) :
    (⟨c, none⟩ : Place).reach m (segments accessor) = some l.place := by
  have hreach := h.reach_level hl
  rw [ha] at hreach
  exact hreach

end Wiring
