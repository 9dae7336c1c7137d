import Wiring.Catalogue.Lookup
import Wiring.Proofs.Catalogue.Reports
import Wiring.Proofs.Sketch

/-!
# What becomes of a providing member

A providing member is registered under one key: the key of its result, or that of the collection it
contributes to. Looking the key up gives the member, or a collection it is part of, or a member of
a level that was collected earlier, and otherwise the member is reported. The exception are
collections whose key is also bound as a whole. The explicit binding of a key hides its collection
without a report, wherever the two come from, so contributions are lost when their own level or a
later one binds the key and no earlier one does.
-/

namespace Wiring

open Annotation (intoSet)
open Collect

namespace Catalogue

variable {m : Model} {o : Options} {c : Classifier} {key : Key} {l : Level} {f : Callable}
  {earlier later : List Level}

/-- The key that a providing member of a level is registered under. -/
def registeredKey (m : Model) (o : Options) (l : Level) (f : Callable) : Key :=
  match contributes m o l f with
  | some (_, key) => key
  | none => ⟨f.returnsFor m l.component, Role.qualifier? o f.annotations⟩

/-- A member of a level binds a key by itself. -/
def BoundAt (m : Model) (o : Options) (key : Key) (l : Level) : Prop :=
  ∃ f ∈ l.component.allMembers m, bindsKey m o l f = some key

/-- A member of the level `l`, registered under a key, can be accounted for. The levels `earlier`
were collected before `l`. -/
inductive Accounted (m : Model) (o : Options) (c : Classifier) (earlier : List Level) (l : Level)
    (f : Callable) (key : Key) : Prop where
  /-- The key is resolved to the member. -/
  | provided {p : Provider}
      (h : ∀ skipOwn, (collect m o c).resolve m o key skipOwn = .ok (some (.provider p)))
      (hf : p.callable = f) (ha : p.accessor = l.accessor) : Accounted m o c earlier l f key
  /-- The key is resolved to a collection that the member is part of. -/
  | collected {k : Container}
      (h : ∀ skipOwn, (collect m o c).resolve m o key skipOwn = .ok (some (.container k)))
      (hk : ⟨f, l.accessor, none⟩ ∈ k.parts) : Accounted m o c earlier l f key
  /-- The member is reported as a further binding of the key. -/
  | reported (h : Reported m o c f) : Accounted m o c earlier l f key
  /-- The key is resolved to a member of an earlier level. -/
  | shadowed {p : Provider} {l' : Level}
      (h : ∀ skipOwn, (collect m o c).resolve m o key skipOwn = .ok (some (.provider p)))
      (hl : l' ∈ earlier) (hp : p.callable ∈ l'.component.allMembers m)
      (hk : bindsKey m o l' p.callable = some key) (ha : p.accessor = l'.accessor) :
      Accounted m o c earlier l f key

/-- No providing member of any level in reach is lost, unless there is a problem with the member
itself. -/
def NothingLost (m : Model) (o : Options) (c : Classifier) : Prop :=
  ∀ earlier l later f, levels m o c = earlier ++ l :: later → f ∈ l.component.allMembers m →
    Role.isProvides f = true → (∀ d, .problem d ∉ providesFindings m o l f) →
    Accounted m o c earlier l f (registeredKey m o l f)

/-- A key with a binder is resolved to the first of them. -/
theorem resolve_of_binders {n : Level × Callable} (h : (binders m o c key).head? = some n)
    (skipOwn : Bool) :
    (collect m o c).resolve m o key skipOwn = .ok (some (.provider (providerOf o n))) := by
  have hlookup := lookup_bindings_collect m o c key
  rw [h, Option.map_some] at hlookup
  rw [resolve, hlookup]

/-- A key with contributors and no binder is resolved to the collection of all its contributors. -/
theorem resolve_of_contributors {b : Builder} (hnone : binders m o c key = [])
    (hc : contributors m o c b key ≠ []) : ∃ k,
    (∀ skipOwn, (collect m o c).resolve m o key skipOwn = .ok (some (.container k))) ∧
      k.parts = (contributors m o c b key).map fun n => ⟨n.2, n.1.accessor, none⟩ := by
  obtain ⟨n, rest, hn⟩ := List.exists_cons_of_ne_nil hc
  have hmem : n ∈ contributors m o c b key := by
    rw [hn]
    exact List.mem_cons_self ..
  have hkey := (mem_levels_of_mem_contributors hmem).2.2
  have hfound := filterMap_part_findings (c := c) fun _ _ _ hc' => builder_unique hc' hkey
  have hlookup := (describes_collect m o c).containers key
  rw [hfound, hn] at hlookup
  have hbindings := lookup_bindings_collect m o c key
  rw [hnone] at hbindings
  cases hk : (collect m o c).containers.lookup key with
  | none =>
    rw [hk] at hlookup
    cases hlookup
  | some k =>
    obtain ⟨hne, hparts, _⟩ := parts_of_lookup_containers hk
    obtain ⟨n', rest', hn'⟩ := List.exists_cons_of_ne_nil hne
    have hmem' : n' ∈ contributors m o c k.builder key := by
      rw [hn']
      exact List.mem_cons_self ..
    have hb := builder_unique (mem_levels_of_mem_contributors hmem').2.2 hkey
    rw [hb] at hparts
    refine ⟨k, fun skipOwn => ?_, hparts⟩
    rw [resolve, hbindings, List.head?_nil, Option.map_none, hk]

/-- A key that has neither binders nor contributors has no entry. -/
theorem lookups_eq_none (hnone : binders m o c key = [])
    (hnone' : ∀ b, contributors m o c b key = []) :
    (collect m o c).bindings.lookup key = none ∧ (collect m o c).containers.lookup key = none := by
  constructor
  · rw [lookup_bindings_collect, hnone]
    rfl
  · cases hlookup : (collect m o c).containers.lookup key with
    | none => rfl
    | some k => exact absurd (hnone' k.builder) (parts_of_lookup_containers hlookup).1

/-- A providing member has no problems when it is neither private nor without a value, its level
owns its scope, and it contributes a pair if it contributes to a map. -/
theorem no_problem_iff : (∀ d, .problem d ∉ providesFindings m o l f) ↔
    f.isPrivate = false ∧ (f.returnsFor m l.component).isUnit = false ∧
      scopeProblems o l f = [] ∧
      ∀ d, contribution o l f (f.returnsFor m l.component) ≠ .problem d := by
  rw [providesFindings]
  by_cases hprivate : f.isPrivate = true
  · rw [if_pos hprivate]
    refine ⟨fun h => absurd (List.mem_singleton.2 rfl) (h _), fun h => ?_⟩
    exact absurd hprivate (Bool.eq_false_iff.1 h.1)
  rw [if_neg hprivate]
  by_cases hunit : (f.returnsFor m l.component).isUnit = true
  · rw [if_pos hunit]
    refine ⟨fun h => absurd (List.mem_singleton.2 rfl) (h _), fun h => ?_⟩
    exact absurd hunit (Bool.eq_false_iff.1 h.2.1)
  rw [if_neg hunit]
  constructor
  · intro h
    simp only [List.mem_append, List.mem_singleton, not_or] at h
    refine ⟨Bool.eq_false_iff.2 hprivate, Bool.eq_false_iff.2 hunit, ?_, fun d hd => ?_⟩
    · refine List.eq_nil_iff_forall_not_mem.2 fun x hx => ?_
      obtain ⟨d, rfl⟩ := problem_of_mem_scopeProblems hx
      exact (h d).1 hx
    · exact (h d).2 hd.symm
  · rintro ⟨_, _, hs, hc⟩ d hd
    rw [hs, List.nil_append, List.mem_singleton] at hd
    exact hc d hd.symm

/-- A providing member without problems contributes to the collection of the key it is registered
under, or binds the key by itself. -/
theorem contributes_or_bindsKey (hp : Role.isProvides f = true)
    (h : ∀ d, .problem d ∉ providesFindings m o l f) :
    (∃ b, contributes m o l f = some (b, registeredKey m o l f)) ∨
      bindsKey m o l f = some (registeredKey m o l f) := by
  obtain ⟨hprivate, hunit, _, hcontribution⟩ := no_problem_iff.1 h
  cases hc : contributes m o l f with
  | some found =>
    refine .inl ⟨found.1, ?_⟩
    rw [registeredKey, hc]
  | none =>
    refine .inr ?_
    rw [registeredKey, hc]
    simp only [contributes, hp, hprivate, hunit, Bool.not_false, Bool.and_self, if_true] at hc
    rw [contribution] at hcontribution
    by_cases hs : Role.isIntoSet f = true
    · rw [if_pos hs] at hc
      cases hc
    rw [if_neg hs] at hc hcontribution
    by_cases hm : Role.isIntoMap f = true
    · rw [if_pos hm, Option.map_eq_none_iff] at hc
      rw [if_pos hm, hc] at hcontribution
      exact absurd rfl (hcontribution _)
    simp only [bindsKey, hp, hprivate, hunit, Bool.eq_false_iff.2 hs, Bool.eq_false_iff.2 hm,
      Bool.or_self, if_true, Bool.false_eq_true, if_false]

/-- A member that contributes to a collection provides, and only its scope can be a problem. -/
theorem no_problem_of_contributes {b : Builder} (h : contributes m o l f = some (b, key))
    (hs : scopeProblems o l f = []) :
    Role.isProvides f = true ∧ ∀ d, .problem d ∉ providesFindings m o l f := by
  have hall : Role.isProvides f = true ∧ f.isPrivate = false ∧
      (f.returnsFor m l.component).isUnit = false := by
    simp only [contributes] at h
    split at h
    · next hall => simpa [and_assoc] using hall
    · cases h
  obtain ⟨hp, hprivate, hunit⟩ := hall
  refine ⟨hp, no_problem_iff.2 ⟨hprivate, hunit, hs, fun d hd => ?_⟩⟩
  simp only [contributes, hp, hprivate, hunit, Bool.not_false, Bool.and_self, if_true] at h
  rw [contribution] at hd
  by_cases hset : Role.isIntoSet f = true
  · rw [if_pos hset] at hd
    cases hd
  rw [if_neg hset] at hd h
  by_cases hmap : Role.isIntoMap f = true
  · rw [if_pos hmap] at hd h
    obtain ⟨arguments, ha, _⟩ := Option.map_eq_some_iff.1 h
    rw [ha] at hd
    cases hd
  · rw [if_neg hmap] at h
    cases h

/-- The binders of a key at one level. -/
theorem binders_eq_append (key : Key) (h : levels m o c = earlier ++ l :: later) :
    ∃ before own after, binders m o c key = before ++ own ++ after ∧
      (∀ n, n ∈ before ↔ n.1 ∈ earlier ∧ n.2 ∈ n.1.component.allMembers m ∧
        bindsKey m o n.1 n.2 = some key) ∧
      (∀ n, n ∈ own ↔ n.1 = l ∧ n.2 ∈ l.component.allMembers m ∧
        bindsKey m o l n.2 = some key) := by
  refine ⟨_, _, _, by rw [binders, h, List.flatMap_append, List.flatMap_cons, List.append_assoc],
    fun n => ?_, fun n => ?_⟩
  · simp only [List.mem_flatMap, List.mem_map, List.mem_filter, decide_eq_true_eq]
    constructor
    · rintro ⟨l', hl, g, ⟨hg, hk⟩, rfl⟩
      exact ⟨hl, hg, hk⟩
    · rintro ⟨hl, hg, hk⟩
      exact ⟨n.1, hl, n.2, ⟨hg, hk⟩, rfl⟩
  · simp only [List.mem_map, List.mem_filter, decide_eq_true_eq]
    constructor
    · rintro ⟨g, ⟨hg, hk⟩, rfl⟩
      exact ⟨rfl, hg, hk⟩
    · rintro ⟨rfl, hg, hk⟩
      exact ⟨n.2, ⟨hg, hk⟩, rfl⟩

/-- Where an earlier level binds a key, the key is resolved to a member of an earlier level. -/
theorem Accounted.of_boundAt_earlier (h : levels m o c = earlier ++ l :: later)
    (hb : ∃ l' ∈ earlier, BoundAt m o key l') : Accounted m o c earlier l f key := by
  obtain ⟨before, own, after, hbinders, hbefore, _⟩ := binders_eq_append key h
  obtain ⟨l', hl', g, hg, hk⟩ := hb
  cases before with
  | nil => exact absurd ((hbefore (l', g)).2 ⟨hl', hg, hk⟩) List.not_mem_nil
  | cons n before =>
    have hhead : (binders m o c key).head? = some n := by
      rw [hbinders]
      rfl
    obtain ⟨hl, hg, hk⟩ := (hbefore n).1 (List.mem_cons_self ..)
    exact .shadowed (resolve_of_binders hhead) hl hg hk rfl

/-- A member that binds a key by itself can be accounted for. -/
theorem Accounted.of_bindsKey (h : levels m o c = earlier ++ l :: later)
    (hf : f ∈ l.component.allMembers m) (hk : bindsKey m o l f = some key) :
    Accounted m o c earlier l f key := by
  by_cases hb : ∃ l' ∈ earlier, BoundAt m o key l'
  · exact .of_boundAt_earlier h hb
  · obtain ⟨before, own, after, hbinders, hbefore, hown⟩ := binders_eq_append key h
    have hnone : before = [] := by
      refine List.eq_nil_iff_forall_not_mem.2 fun n hn => ?_
      obtain ⟨hl, hg, hk⟩ := (hbefore n).1 hn
      exact hb ⟨n.1, hl, n.2, hg, hk⟩
    obtain ⟨init, rest, rfl⟩ := List.append_of_mem ((hown (l, f)).2 ⟨rfl, hf, hk⟩)
    rw [hnone, List.nil_append, List.append_assoc, List.cons_append] at hbinders
    cases init with
    | nil =>
      have hhead : (binders m o c key).head? = some (l, f) := by
        rw [hbinders]
        rfl
      exact .provided (resolve_of_binders hhead) rfl rfl
    | cons n init =>
      -- Another member of the same level comes first.
      have hl := ((hown n).1 (List.mem_cons_self ..)).1
      have hrivals : Rivals m o c key n (l, f) := ⟨_, _, hbinders, rfl, by rw [hl]⟩
      exact .reported (reported_of_rivals hrivals)

/-- A contribution to a collection whose key no level binds can be accounted for. -/
theorem Accounted.of_contributes {b : Builder} (h : levels m o c = earlier ++ l :: later)
    (hf : f ∈ l.component.allMembers m) (hk : contributes m o l f = some (b, key))
    (hnone : binders m o c key = []) : Accounted m o c earlier l f key := by
  have hmem : (l, f) ∈ contributors m o c b key := by
    refine List.mem_flatMap.2 ⟨l, ?_, List.mem_map.2 ⟨f, List.mem_filter.2 ⟨hf, ?_⟩, rfl⟩⟩
    · rw [h]
      exact List.mem_append_cons_self
    · exact decide_eq_true hk
  obtain ⟨k, hresolve, hparts⟩ := resolve_of_contributors hnone (List.ne_nil_of_mem hmem)
  refine .collected hresolve ?_
  rw [hparts]
  exact List.mem_map.2 ⟨(l, f), hmem, rfl⟩

/-- Nothing is lost exactly when no key of a collection is also bound as a whole, at the level of a
contributor or a later one, unless an earlier level binds it too, or what is reported elsewhere
happens to have the element of the contributor. -/
theorem nothingLost_iff (m : Model) (o : Options) (c : Classifier) : NothingLost m o c ↔
    ∀ earlier l later f b key, levels m o c = earlier ++ l :: later →
      f ∈ l.component.allMembers m → contributes m o l f = some (b, key) →
      scopeProblems o l f = [] → (∃ l' ∈ l :: later, BoundAt m o key l') →
      (∃ l' ∈ earlier, BoundAt m o key l') ∨ Reported m o c f := by
  constructor
  · intro h earlier l later f b key hl hf hc hs ⟨l', hl', g, hg, hk⟩
    obtain ⟨hp, hproblem⟩ := no_problem_of_contributes hc hs
    have hkey : registeredKey m o l f = key := by rw [registeredKey, hc]
    have hmem : (l', g) ∈ binders m o c key := by
      refine mem_binders_iff.2 ⟨?_, hg, hk⟩
      rw [hl]
      exact List.mem_append_right _ hl'
    obtain ⟨n, rest, hn⟩ := List.exists_cons_of_ne_nil (List.ne_nil_of_mem hmem)
    have hhead : (binders m o c key).head? = some n := by rw [hn, List.head?_cons]
    have hresolve := resolve_of_binders hhead false
    have haccounted := h earlier l later f hl hf hp hproblem
    rw [hkey] at haccounted
    cases haccounted with
    | reported hr => exact .inr hr
    | shadowed _ hl' hg hk => exact .inl ⟨_, hl', _, hg, hk⟩
    | collected hr =>
      rw [hr] at hresolve
      cases hresolve
    | provided hr hf' =>
      -- The key would be bound by the contributor itself, which binds no key.
      rw [hr] at hresolve
      cases hresolve
      have hbinds := (mem_binders_iff.1 (List.mem_of_mem_head? hhead)).2.2
      have hcallable : n.2 = f := hf'
      rw [hcallable, bindsKey_eq_none_of_contributes hc] at hbinds
      cases hbinds
  · intro h earlier l later f hl hf hp hproblem
    rcases contributes_or_bindsKey hp hproblem with ⟨b, hc⟩ | hk
    · generalize registeredKey m o l f = key at hc ⊢
      by_cases hb : ∃ l' ∈ earlier, BoundAt m o key l'
      · exact .of_boundAt_earlier hl hb
      · by_cases hr : Reported m o c f
        · exact .reported hr
        · refine .of_contributes hl hf hc (List.eq_nil_iff_forall_not_mem.2 fun n hn => ?_)
          obtain ⟨hmem, hg, hk⟩ := mem_binders_iff.1 hn
          rw [hl, List.mem_append] at hmem
          rcases hmem with hearlier | hlater
          · exact hb ⟨n.1, hearlier, n.2, hg, hk⟩
          · have hs := (no_problem_iff.1 hproblem).2.2.1
            rcases h earlier l later f b key hl hf hc hs ⟨n.1, hlater, n.2, hg, hk⟩ with hb' | hr'
            · exact hb hb'
            · exact hr hr'
    · exact .of_bindsKey hl hf hk

/-- A band whose songs are provided as a whole and one by one. -/
def band : ClassDecl :=
  Sketch.component "Band" [] [] [
    Sketch.requirement "songs" (.known .set [Sketch.type "Song"]) [],
    Sketch.provider "hits" [] (.known .set [Sketch.type "Song"]) [],
    Sketch.provider "single" [] (Sketch.type "Song") [intoSet]]

/-- The program of the band. -/
def bandProgram : Model := Sketch.program [band, Sketch.plain "Song"]

/-- The single is neither part of the songs nor reported. -/
theorem not_nothingLost_band : ⟨0, band, false⟩ ∈ bandProgram.classifiers ∧
    ¬ NothingLost bandProgram {} ⟨0, band, false⟩ := by
  refine ⟨Model.mem_classifiers.2 ⟨rfl, rfl⟩, fun h => ?_⟩
  obtain ⟨l, single, hits, hlevels, hmem, hcontributes, hscope, hresolve, hkey, hhits, hsingle,
      hreports⟩ :
      ∃ l, ∃ single : Callable, ∃ hits : Provider,
        levels bandProgram {} ⟨0, band, false⟩ = [] ++ l :: [] ∧
        (l.component.allMembers bandProgram)[2]? = some single ∧
        contributes bandProgram {} l single
          = some (.setOf, ⟨.known .set [Sketch.type "Song"], none⟩) ∧
        scopeProblems {} l single = [] ∧
        (collect bandProgram {} ⟨0, band, false⟩).resolve bandProgram {}
          ⟨.known .set [Sketch.type "Song"], none⟩ false = .ok (some (.provider hits)) ∧
        registeredKey bandProgram {} l single = ⟨.known .set [Sketch.type "Song"], none⟩ ∧
        hits.callable.name = "hits" ∧ single.name = "single" ∧
        (collect bandProgram {} ⟨0, band, false⟩).diagnostics = [] :=
    ⟨_, _, _, rfl, rfl, rfl, rfl, rfl, rfl, rfl, rfl, rfl⟩
  obtain ⟨hp, hproblem⟩ := no_problem_of_contributes hcontributes hscope
  have haccounted := h [] l [] single hlevels (List.mem_of_getElem? hmem) hp hproblem
  rw [hkey] at haccounted
  cases haccounted with
  | provided hr hf =>
    rw [hr] at hresolve
    cases hresolve
    rw [hf, hsingle] at hhits
    exact absurd hhits (by decide)
  | collected hr =>
    rw [hr] at hresolve
    cases hresolve
  | reported hr =>
    obtain ⟨d, hd, _⟩ := hr
    rw [hreports] at hd
    exact absurd hd List.not_mem_nil
  | shadowed _ hl => exact absurd hl List.not_mem_nil

end Catalogue

end Wiring
