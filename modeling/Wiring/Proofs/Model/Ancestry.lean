import Mathlib.Data.List.Nodup
import Mathlib.Logic.Relation
import Wiring.Proofs.Catalogue.Levels
import Wiring.Proofs.Model.Identity

/-!
# Ancestors and the order of the chain

A class inherits from what its supertypes name, and from what they inherit. The chain of a class
goes depth first, so a class follows one that names it, but where a class is named by several it
need not follow all of them. Of the members of one shape the first of the chain is the one that
counts.
-/

namespace Wiring

namespace Classifier

variable {m : Model} {c d e a : Classifier}

/-- The class `d` has `a` among its ancestors. -/
def Inherits (m : Model) (d a : Classifier) : Prop :=
  Relation.TransGen (fun d a => a ∈ d.superClasses m) d a

/-- The class `d` is a proper descendant of `a`. -/
def Descends (m : Model) (d a : Classifier) : Prop := d.Inherits m a ∧ ¬ a.Inherits m d

/-- No class is its own proper descendant. -/
theorem Descends.ne (h : d.Descends m a) : d ≠ a := by
  rintro rfl
  exact h.2 h.1

/-- Every class of a chain is the class itself or one of its ancestors. -/
theorem reflTransGen_of_mem_chain (h : d ∈ c.chain m) :
    Relation.ReflTransGen (fun d a => a ∈ d.superClasses m) c d := by
  refine Walk.forall_mem_preorder
    (P := Relation.ReflTransGen (fun d a => a ∈ d.superClasses m) c) ?_ ?_ d h
  · intro d hd a ha
    exact hd.tail ha
  · intro a ha
    rw [List.mem_singleton.1 ha]

/-- A class that its own name stands for has all its ancestors in its chain. -/
theorem mem_chain_of_reflTransGen (hc : m.classNamed c.path = some c)
    (h : Relation.ReflTransGen (fun d a => a ∈ d.superClasses m) c a) : a ∈ c.chain m := by
  have hnamed : ∀ d ∈ c.chain m, m.classNamed d.path = some d := by
    refine Walk.forall_mem_preorder (P := fun d => m.classNamed d.path = some d) ?_ ?_
    · intro _ _ e he
      obtain ⟨t, _, hclass⟩ := List.mem_filterMap.1 he
      exact Model.classNamed_path hclass
    · intro d hd
      rw [List.mem_singleton.1 hd]
      exact hc
  -- Classes that their names stand for are told apart by them, as they are on the walk.
  have hentered : ∀ d, m.classNamed d.path = some d → d.path ∈ (c.chain m).map (·.path) →
      d ∈ c.chain m := by
    intro d hd hmem
    obtain ⟨e, he, hpath⟩ := List.mem_map.1 hmem
    have hsame := hnamed e he
    rw [hpath, hd] at hsame
    rwa [Option.some.inj hsame]
  obtain ⟨ms, hruns, hchain⟩ := chain_runs m c
  rw [hchain] at hentered ⊢
  induction h with
  | refl =>
    exact hentered c hc ((hruns.closed.1 c (List.mem_singleton_self c)).resolve_left
      List.not_mem_nil)
  | @tail d e _ he hd =>
    obtain ⟨t, _, hclass⟩ := List.mem_filterMap.1 he
    exact hentered e (Model.classNamed_path hclass) ((hruns.closed.2 d hd e he).resolve_left
      List.not_mem_nil)

/-- Unless it is the class itself, a class of a chain follows one that it is named by. -/
theorem exists_subclass_before {before after : List Classifier}
    (h : c.chain m = before ++ a :: after) : a = c ∨ ∃ e ∈ before, a ∈ e.superClasses m := by
  obtain ⟨ms, hruns, hchain⟩ := chain_runs m c
  rw [hchain] at h
  exact (hruns.follows h).imp_left List.mem_singleton.1

/-- No two classes of a chain have one path. -/
theorem nodup_chain (m : Model) (c : Classifier) : ((c.chain m).map (·.path)).Nodup := by
  obtain ⟨ms, hruns, hchain⟩ := chain_runs m c
  rw [hchain]
  exact hruns.nodup_entered.2

/-- The chain of a class of the program is made of classes of the program. -/
theorem mem_classifiers_of_mem_chain (hc : c ∈ m.classifiers) (h : d ∈ c.chain m) :
    d ∈ m.classifiers := by
  rcases mem_chain h with rfl | hd
  · exact hc
  · exact hd

/-- The ancestors of a class form a tree: it is none of them, and no two of them, itself included,
name one class. -/
structure TreeAbove (m : Model) (c : Classifier) : Prop where
  acyclic : ¬ c.Inherits m c
  named_once : ∀ a e e', Relation.ReflTransGen (fun d a => a ∈ d.superClasses m) c e →
    Relation.ReflTransGen (fun d a => a ∈ d.superClasses m) c e' →
    a ∈ e.superClasses m → a ∈ e'.superClasses m → e = e'

/-- In a tree the chain takes every class before its ancestors. -/
theorem TreeAbove.mem_before (h : TreeAbove m c) {before after : List Classifier}
    (hchain : c.chain m = before ++ a :: after) (hd : d ∈ c.chain m) (hda : d.Inherits m a) :
    d ∈ before := by
  have hcd := reflTransGen_of_mem_chain hd
  have hsub : ∀ {before after : List Classifier} {e a : Classifier},
      c.chain m = before ++ a :: after → Relation.ReflTransGen
        (fun d a => a ∈ d.superClasses m) d e → a ∈ e.superClasses m → e ∈ before := by
    intro before after e a hchain hde hea
    rcases exists_subclass_before hchain with rfl | ⟨e', he', hnamed⟩
    · exact absurd (Relation.TransGen.tail' (hcd.trans hde) hea) h.acyclic
    · have hmem : e' ∈ c.chain m := by
        rw [hchain]
        exact List.mem_append_left _ he'
      rwa [h.named_once a e e' (hcd.trans hde) (reflTransGen_of_mem_chain hmem) hea hnamed]
  induction hda generalizing before after with
  | single hstep => exact hsub hchain .refl hstep
  | tail hde hstep ih =>
    have he := hsub hchain hde.to_reflTransGen hstep
    obtain ⟨init, rest, rfl⟩ := List.append_of_mem he
    rw [List.append_assoc, List.cons_append] at hchain
    exact List.mem_append_left _ (ih hchain)

end Classifier

namespace Callable

variable {f g h : Callable}

/-- Members have one shape exactly if they agree in name, kind, receiver and the types of their
parameters. -/
theorem overrides_iff : g.overrides f = true ↔ g.name = f.name ∧ g.kind = f.kind ∧
    g.receiver = f.receiver ∧ g.params.map (·.type) = f.params.map (·.type) := by
  simp only [overrides, Bool.and_eq_true, beq_iff_eq, and_assoc]

/-- Having the shape of another member is mutual. -/
theorem overrides_symm (hgf : g.overrides f = true) : f.overrides g = true := by
  obtain ⟨hname, hkind, hreceiver, hparams⟩ := overrides_iff.1 hgf
  exact overrides_iff.2 ⟨hname.symm, hkind.symm, hreceiver.symm, hparams.symm⟩

/-- Having the shape of another member carries over. -/
theorem overrides_trans (hhg : h.overrides g = true) (hgf : g.overrides f = true) :
    h.overrides f = true := by
  obtain ⟨hname, hkind, hreceiver, hparams⟩ := overrides_iff.1 hhg
  obtain ⟨hname', hkind', hreceiver', hparams'⟩ := overrides_iff.1 hgf
  exact overrides_iff.2 ⟨hname.trans hname', hkind.trans hkind', hreceiver.trans hreceiver',
    hparams.trans hparams'⟩

end Callable

namespace Classifier

variable {m : Model} {c d e a : Classifier} {f g : Callable}

/-- Where something stands in a list: at the head, or in the rest. -/
theorem exists_split_cons {α : Type} {P : List α → Prop} {x y : α} {xs : List α} :
    (∃ before after, x :: xs = before ++ y :: after ∧ P before) ↔
      (x = y ∧ P []) ∨ ∃ before after, xs = before ++ y :: after ∧ P (x :: before) := by
  constructor
  · rintro ⟨before, after, he, hp⟩
    cases before with
    | nil => exact .inl ⟨(List.cons.inj he).1, hp⟩
    | cons z before =>
      obtain ⟨rfl, rfl⟩ := List.cons.inj he
      exact .inr ⟨before, after, rfl, hp⟩
  · rintro (⟨rfl, hp⟩ | ⟨before, after, rfl, hp⟩)
    · exact ⟨[], xs, rfl, hp⟩
    · exact ⟨x :: before, after, rfl, hp⟩

/-- A callable stays exactly when it stands somewhere with nothing of its shape before it. -/
theorem mem_dropOverridden_iff : ∀ {fs earlier : List Callable},
    f ∈ dropOverridden earlier fs ↔ ∃ before after, fs = before ++ f :: after ∧
      ∀ g ∈ earlier ++ before, g.overrides f = false := by
  intro fs
  induction fs with
  | nil =>
    intro earlier
    refine ⟨fun h => absurd h List.not_mem_nil, ?_⟩
    rintro ⟨before, after, he, _⟩
    exact absurd he.symm (List.append_ne_nil_of_right_ne_nil _ (List.cons_ne_nil _ _))
  | cons x fs ih =>
    intro earlier
    rw [exists_split_cons, List.append_nil, dropOverridden]
    split
    · next hx =>
      -- What is dropped has a shape that came before, and so has everything of that shape.
      obtain ⟨y, hy, hyx⟩ := List.any_eq_true.1 hx
      rw [ih]
      constructor
      · rintro ⟨before, after, rfl, hfree⟩
        refine .inr ⟨before, after, rfl, fun g hg => ?_⟩
        rcases List.mem_append.1 hg with hg | hg
        · exact hfree g (List.mem_append_left _ hg)
        · rcases List.mem_cons.1 hg with rfl | hg
          · refine Bool.eq_false_iff.2 fun hgf => ?_
            have hyf := Callable.overrides_trans hyx hgf
            rw [hfree y (List.mem_append_left _ hy)] at hyf
            cases hyf
          · exact hfree g (List.mem_append_right _ hg)
      · rintro (⟨rfl, hfree⟩ | ⟨before, after, rfl, hfree⟩)
        · rw [hfree y hy] at hyx
          cases hyx
        · refine ⟨before, after, rfl, fun g hg => hfree g ?_⟩
          rcases List.mem_append.1 hg with hg | hg
          · exact List.mem_append_left _ hg
          · exact List.mem_append_right _ (List.mem_cons_of_mem _ hg)
    · next hx =>
      have hfresh : ∀ y ∈ earlier, y.overrides x = false := fun y hy =>
        Bool.eq_false_iff.2 fun hyx => hx (List.any_eq_true.2 ⟨y, hy, hyx⟩)
      rw [List.mem_cons, ih]
      refine or_congr ⟨?_, fun h => h.1.symm⟩ ?_
      · rintro rfl
        exact ⟨rfl, hfresh⟩
      · simp only [List.append_assoc, List.singleton_append]

/-- Of every shape a callable stays. -/
theorem exists_mem_dropOverridden {fs : List Callable} (h : g ∈ fs) :
    ∃ f ∈ dropOverridden [] fs, f.overrides g = true := by
  cases hfind : fs.find? (·.overrides g) with
  | none =>
    have hself := List.find?_eq_none.1 hfind g h
    exact absurd g.overrides_refl hself
  | some f =>
    obtain ⟨hfg, before, after, hsplit, hfirst⟩ := List.find?_eq_some_iff_append.1 hfind
    refine ⟨f, mem_dropOverridden_iff.2 ⟨before, after, hsplit, fun x hx => ?_⟩, hfg⟩
    refine Bool.eq_false_iff.2 fun hxf => ?_
    have hxg := Callable.overrides_trans hxf hfg
    have hnot := hfirst x hx
    rw [hxg] at hnot
    cases hnot

/-- No two of the callables that stay have one shape. -/
theorem eq_of_mem_dropOverridden {fs : List Callable} (hf : f ∈ dropOverridden [] fs)
    (hg : g ∈ dropOverridden [] fs) (hgf : g.overrides f = true) : g = f := by
  obtain ⟨before, after, rfl, hfree⟩ := mem_dropOverridden_iff.1 hf
  obtain ⟨before', after', hsplit, hfree'⟩ := mem_dropOverridden_iff.1 hg
  rcases List.append_eq_append_iff.1 hsplit with ⟨between, rfl, hrest⟩ | ⟨between, rfl, hrest⟩
  · cases between with
    | nil => exact (List.cons.inj hrest).1.symm
    | cons x between =>
      obtain ⟨rfl, _⟩ := List.cons.inj hrest
      have hfg := hfree' f (List.mem_append_right _ List.mem_append_cons_self)
      rw [Callable.overrides_symm hgf] at hfg
      cases hfg
  · cases between with
    | nil => exact (List.cons.inj hrest).1
    | cons x between =>
      obtain ⟨rfl, _⟩ := List.cons.inj hrest
      have hgf' := hfree g (List.mem_append_right _ List.mem_append_cons_self)
      rw [hgf] at hgf'
      cases hgf'

/-- A member is declared at the place of its class. -/
theorem exists_origin_of_mem_members (hf : f ∈ c.members m) :
    ∃ i, f.origin = .member c.index i := by
  rw [members] at hf
  split at hf
  · exact absurd hf List.not_mem_nil
  · obtain ⟨⟨d, i⟩, _, rfl⟩ := List.mem_map.1 hf
    exact ⟨i, rfl⟩

/-- A member is declared by one class. -/
theorem eq_of_mem_members (hd : d ∈ m.classifiers) (he : e ∈ m.classifiers)
    (hf : f ∈ d.members m) (hf' : f ∈ e.members m) : d = e := by
  obtain ⟨i, hi⟩ := exists_origin_of_mem_members hf
  obtain ⟨i', hi'⟩ := exists_origin_of_mem_members hf'
  rw [hi] at hi'
  exact Model.eq_of_index hd he (Origin.member.inj hi').1

/-- No member of a class is listed twice. -/
theorem nodup_members (m : Model) (c : Classifier) : (c.members m).Nodup := by
  have horigins : ((c.members m).map (·.origin)).Nodup := by
    rw [members]
    split
    · exact List.nodup_nil
    · rw [List.map_map]
      have hplaces : (c.decl.members.zipIdx.map Prod.snd).Nodup := by
        rw [List.zipIdx_map_snd]
        exact List.nodup_range'
      have horigin := hplaces.map (f := Origin.member c.index) fun i j h => (Origin.member.inj h).2
      rwa [List.map_map] at horigin
  exact horigins.of_map _

/-- No member of a chain is declared twice. -/
theorem nodup_members_chain (hc : c ∈ m.classifiers) :
    ((c.chain m).flatMap (members m)).Nodup := by
  refine List.nodup_flatMap.2 ⟨fun d _ => nodup_members m d, ?_⟩
  have hpaths := nodup_chain m c
  rw [List.Nodup, List.pairwise_map] at hpaths
  refine hpaths.imp_of_mem fun {d e} hd he hne f hfd hfe => ?_
  have hde := eq_of_mem_members (mem_classifiers_of_mem_chain hc hd)
    (mem_classifiers_of_mem_chain hc he) hfd hfe
  exact hne (congrArg Classifier.path hde)

/-- A member of a chain is left out exactly when one of its shape stands before it. -/
theorem not_mem_allMembers_iff (hc : c ∈ m.classifiers) {before after : List Classifier}
    {others rest : List Callable} (hchain : c.chain m = before ++ a :: after)
    (hmembers : a.members m = others ++ f :: rest) :
    f ∉ c.allMembers m ↔ ∃ h ∈ before.flatMap (members m) ++ others, h.overrides f = true := by
  have hall : (c.chain m).flatMap (members m)
      = (before.flatMap (members m) ++ others) ++ f :: (rest ++ after.flatMap (members m)) := by
    rw [hchain, List.flatMap_append, List.flatMap_cons, hmembers]
    simp only [List.append_assoc, List.cons_append]
  have hnodup := nodup_members_chain hc
  rw [hall] at hnodup
  rw [allMembers, hall, mem_dropOverridden_iff]
  constructor
  · intro h
    by_contra hnone
    refine h ⟨_, _, rfl, fun g hg => Bool.eq_false_iff.2 fun hgf => hnone ⟨g, hg, hgf⟩⟩
  · rintro ⟨h, hh, hhf⟩ ⟨before', after', hsplit, hfree⟩
    -- The member stands in one place only.
    have hapart := (List.nodup_cons.1 (List.nodup_middle.1 hnodup)).1
    rw [List.mem_append, not_or] at hapart
    obtain ⟨rfl, _, _⟩ := (List.append_cons_inj_of_notMem hapart.1 hapart.2).1 hsplit
    rw [hfree h hh] at hhf
    cases hhf

end Classifier

end Wiring
