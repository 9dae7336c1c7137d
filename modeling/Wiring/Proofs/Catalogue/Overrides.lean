import Wiring.Proofs.Model.Ancestry
import Wiring.Proofs.Sketch

/-!
# Overridden members

A member that a descendant of its class overrides should not be collected. Collection keeps the
first member of every shape along the chain, so this depends on where the classes stand in it. A
class that is reached along another path first comes before a descendant of its own, and then it is
the overridden member that counts, unless one of its shape stands still further ahead.
-/

namespace Wiring

open Annotation (provides)
open Collect

namespace Catalogue

variable {m : Model} {o : Options} {c d a : Classifier} {f g : Callable}

/-- The member `f` of a component, which the member `g` of its class `d` overrides, is not used for
the component itself, and what counts in its place is `g` or a member that `g` does not override. -/
structure Superseded (m : Model) (o : Options) (c d : Classifier) (g f : Callable) : Prop where
  not_required : f ∉ (collect m o c).requirementMembers
  not_requirement : ∀ key p, (collect m o c).requirements.lookup key = some p → p.callable ≠ f
  not_binding : ∀ key p, (collect m o c).bindings.lookup key = some p → p.accessor = none →
    p.callable ≠ f
  not_part : ∀ key k, (collect m o c).containers.lookup key = some k →
    ∀ p ∈ k.parts, p.accessor = none → p.callable ≠ f
  replaced : ∃ e ∈ c.chain m, ∃ h ∈ e.members m, h ∈ c.allMembers m ∧ h.overrides g = true ∧
    ¬ d.Descends m e

/-- Of two members of one shape that a component inherits, that of a descendant supersedes that of
its ancestor. -/
def OverridesWin (m : Model) (o : Options) (c : Classifier) : Prop :=
  ∀ d ∈ c.chain m, ∀ a ∈ c.chain m, d.Descends m a → ∀ g ∈ d.members m, ∀ f ∈ a.members m,
    g.overrides f = true → Superseded m o c d g f

/-- What a component collects without a path is among its own members. -/
theorem mem_allMembers_of_mem_levels {l : Level} (hl : l ∈ levels m o c) (ha : l.accessor = none)
    (hf : f ∈ l.component.allMembers m) : f ∈ c.allMembers m := by
  rwa [component_of_accessor hl ha] at hf

/-- A member that is left out is not used at all. -/
theorem superseded_of_not_mem_allMembers (hf : f ∉ c.allMembers m)
    (hreplaced : ∃ e ∈ c.chain m, ∃ h ∈ e.members m, h ∈ c.allMembers m ∧ h.overrides g = true ∧
      ¬ d.Descends m e) : Superseded m o c d g f where
  not_required hmem := by
    obtain ⟨l, hl, key, hk, ha⟩ := offers_of_mem_requirementMembers hmem
    exact hf (mem_allMembers_of_mem_levels hl ha hk.member)
  not_requirement key p hp hcallable := by
    obtain ⟨l, hl, f', hk, rfl, ha⟩ := offers_of_lookup_requirements hp
    have hmem := mem_allMembers_of_mem_levels hl ha hk.member
    exact hf (hcallable ▸ hmem)
  not_binding key p hp ha hcallable := by
    obtain ⟨l, hl, f', hk, rfl⟩ := offers_of_lookup_bindings hp
    have hmem := mem_allMembers_of_mem_levels hl ha hk.member
    exact hf (hcallable ▸ hmem)
  not_part key k hk p hp ha hcallable := by
    obtain ⟨_, hparts, _⟩ := parts_of_lookup_containers hk
    rw [hparts] at hp
    obtain ⟨n, hn, rfl⟩ := List.mem_map.1 hp
    obtain ⟨hl, hmember, _⟩ := mem_levels_of_mem_contributors hn
    have hmem := mem_allMembers_of_mem_levels hl ha hmember
    exact hf (hcallable ▸ hmem)
  replaced := hreplaced

/-- A superseded member of an ancestor is left out. -/
theorem Superseded.not_mem_allMembers (hc : c ∈ m.classifiers) (hs : Superseded m o c d g f)
    (ha : a ∈ c.chain m) (hda : d.Descends m a) (hf : f ∈ a.members m)
    (hgf : g.overrides f = true) : f ∉ c.allMembers m := by
  intro hmem
  obtain ⟨e, he, h, hh, hkept, hhg, hde⟩ := hs.replaced
  obtain rfl := Classifier.eq_of_mem_dropOverridden hmem hkept (Callable.overrides_trans hhg hgf)
  have hea := Classifier.eq_of_mem_members (Classifier.mem_classifiers_of_mem_chain hc he)
    (Classifier.mem_classifiers_of_mem_chain hc ha) hh hf
  exact hde (hea ▸ hda)

/-- Overrides win exactly when the overridden members are left out. -/
theorem overridesWin_iff_not_mem (hc : c ∈ m.classifiers) : OverridesWin m o c ↔
    ∀ d ∈ c.chain m, ∀ a ∈ c.chain m, d.Descends m a → ∀ g ∈ d.members m, ∀ f ∈ a.members m,
      g.overrides f = true → f ∉ c.allMembers m := by
  constructor
  · intro h d hd a ha hda g hg f hf hgf
    exact (h d hd a ha hda g hg f hf hgf).not_mem_allMembers hc ha hda hf hgf
  · intro h d hd a ha hda g hg f hf hgf
    refine superseded_of_not_mem_allMembers (h d hd a ha hda g hg f hf hgf) ?_
    -- Of the shape of `g` something counts, and it is nothing that `g` overrides.
    obtain ⟨k, hk, hkg⟩ := Classifier.exists_mem_dropOverridden
      (List.mem_flatMap.2 ⟨d, hd, hg⟩ : g ∈ (c.chain m).flatMap (Classifier.members m))
    obtain ⟨e, he, hke⟩ := List.mem_flatMap.1 (Classifier.mem_of_mem_dropOverridden hk)
    refine ⟨e, he, k, hke, hk, hkg, fun hde => ?_⟩
    exact h d hd e he hde g hg k hke (Callable.overrides_symm hkg) hk

/-- Overrides win exactly when each member that comes before one overriding it has a member of its
shape before itself. -/
theorem overridesWin_iff (hc : c ∈ m.classifiers) : OverridesWin m o c ↔
    ∀ before a after d g others f rest, c.chain m = before ++ a :: after → d ∈ after →
      d.Descends m a → g ∈ d.members m → a.members m = others ++ f :: rest →
      g.overrides f = true →
      ∃ h ∈ before.flatMap (Classifier.members m) ++ others, h.overrides f = true := by
  rw [overridesWin_iff_not_mem hc]
  constructor
  · intro h before a after d g others f rest hchain hd hda hg hmembers hgf
    have hfa : f ∈ a.members m := by
      rw [hmembers]
      exact List.mem_append_cons_self
    refine (Classifier.not_mem_allMembers_iff hc hchain hmembers).1
      (h d ?_ a ?_ hda g hg f hfa hgf)
    · rw [hchain]
      exact List.mem_append_right _ (List.mem_cons_of_mem _ hd)
    · rw [hchain]
      exact List.mem_append_cons_self
  · intro h d hd a ha hda g hg f hf hgf
    obtain ⟨before, after, hchain⟩ := List.append_of_mem ha
    obtain ⟨others, rest, hmembers⟩ := List.append_of_mem hf
    refine (Classifier.not_mem_allMembers_iff hc hchain hmembers).2 ?_
    rw [hchain, List.mem_append, List.mem_cons] at hd
    rcases hd with hbefore | rfl | hafter
    · exact ⟨g, List.mem_append_left _ (List.mem_flatMap.2 ⟨d, hbefore, hg⟩), hgf⟩
    · exact absurd rfl hda.ne
    · exact h before a after d g others f rest hchain hafter hda hg hmembers hgf

/-- Where no class is named by two others, overrides win. -/
theorem overridesWin_of_treeAbove (hc : c ∈ m.classifiers) (htree : c.TreeAbove m) :
    OverridesWin m o c := by
  refine (overridesWin_iff hc).2 ?_
  intro before a after d g others f rest hchain hd hda _ _ _
  have hmem : d ∈ c.chain m := by
    rw [hchain]
    exact List.mem_append_right _ (List.mem_cons_of_mem _ hd)
  have hbefore := htree.mem_before hchain hmem hda.1
  -- No class stands in the chain twice.
  have hnodup := (Classifier.nodup_chain m c).of_map
  rw [hchain] at hnodup
  exact absurd (List.mem_cons_of_mem a hd)
    (fun hafter => List.disjoint_of_nodup_append hnodup hbefore hafter)

/-- Trade that asks for a coin. -/
def trade : ClassDecl :=
  { package := "app", name := "Trade", isInterface := true
    members := [Sketch.requirement "coin" (Sketch.type "Coin") []] }

/-- A place of trade that provides the coin it trades with. -/
def place (name : String) : ClassDecl :=
  { package := "app", name, isInterface := true, superTypes := [Sketch.type "Trade"]
    members := [
      { Sketch.requirement "coin" (Sketch.type "Coin") [provides] with
        isAbstract := false }] }

/-- A booth at two places of trade. -/
def booth : ClassDecl :=
  { Sketch.component "Booth" [] [] [] with
    superTypes := [Sketch.type "Bazaar", Sketch.type "Market"] }

/-- The program of the booth. -/
def boothProgram : Model :=
  Sketch.program [booth, trade, place "Bazaar", place "Market", Sketch.plain "Coin"]

/-- The coin that trade asks for comes before that of the market, and after that of the bazaar. -/
theorem overridesWin_booth : ⟨0, booth, false⟩ ∈ boothProgram.classifiers ∧
    OverridesWin boothProgram {} ⟨0, booth, false⟩ := by
  have hmem : ⟨0, booth, false⟩ ∈ boothProgram.classifiers := Model.mem_classifiers.2 ⟨rfl, rfl⟩
  refine ⟨hmem, (overridesWin_iff hmem).2 ?_⟩
  intro before a after d g others f rest hchain hd hda hg hmembers hgf
  obtain ⟨hclasses, htrade, hmarket, own, coin, hown, hcoin, hover⟩ :
      Classifier.chain boothProgram ⟨0, booth, false⟩ = [⟨0, booth, false⟩,
          ⟨2, place "Bazaar", false⟩, ⟨1, trade, false⟩, ⟨3, place "Market", false⟩] ∧
        Classifier.superClasses boothProgram ⟨1, trade, false⟩ = [] ∧
        Classifier.superClasses boothProgram ⟨3, place "Market", false⟩ = [⟨1, trade, false⟩] ∧
        ∃ own coin : Callable,
          Classifier.members boothProgram ⟨2, place "Bazaar", false⟩ = [own] ∧
          Classifier.members boothProgram ⟨1, trade, false⟩ = [coin] ∧
          own.overrides coin = true :=
    ⟨by decide +kernel, by decide +kernel, by decide +kernel, _, _, rfl, rfl, by decide +kernel⟩
  rw [hclasses] at hchain
  have htop : ∀ a, ¬ Classifier.Inherits boothProgram ⟨1, trade, false⟩ a := by
    intro a hinherits
    obtain ⟨b, hb, _⟩ := Relation.TransGen.head'_iff.1 hinherits
    rw [htrade] at hb
    exact absurd hb List.not_mem_nil
  match before with
  | [] =>
    obtain ⟨rfl, _⟩ := List.cons.inj hchain
    have hnone : Classifier.members boothProgram ⟨0, booth, false⟩ = [] := rfl
    rw [hnone] at hmembers
    exact absurd hmembers.symm (List.append_ne_nil_of_right_ne_nil _ (List.cons_ne_nil _ _))
  | [_] =>
    -- Neither trade nor the market inherits from the bazaar.
    obtain ⟨_, hchain⟩ := List.cons.inj hchain
    obtain ⟨rfl, rfl⟩ := List.cons.inj hchain
    rcases List.mem_cons.1 hd with rfl | hd
    · exact absurd hda.1 (htop _)
    · obtain rfl := List.mem_singleton.1 hd
      obtain ⟨b, hb, hpath⟩ := Relation.TransGen.head'_iff.1 hda.1
      rw [hmarket] at hb
      obtain rfl := List.mem_singleton.1 hb
      rcases Relation.reflTransGen_iff_eq_or_transGen.1 hpath with heq | hpath
      · exact absurd heq (by decide)
      · exact absurd hpath (htop _)
  | [_, bazaar] =>
    obtain ⟨_, hchain⟩ := List.cons.inj hchain
    obtain ⟨hbazaar, hchain⟩ := List.cons.inj hchain
    obtain ⟨rfl, _⟩ := List.cons.inj hchain
    have hf : f ∈ [coin] := by
      rw [← hcoin, hmembers]
      exact List.mem_append_cons_self
    obtain rfl := List.mem_singleton.1 hf
    refine ⟨own, List.mem_append_left _ (List.mem_flatMap.2 ⟨bazaar, ?_, ?_⟩), hover⟩
    · exact List.mem_cons_of_mem _ (List.mem_singleton.2 rfl)
    · rw [← hbazaar, hown]
      exact List.mem_singleton.2 rfl
  | _ :: _ :: _ :: before =>
    have hlength := congrArg List.length hchain
    have hpos := List.length_pos_of_mem hd
    simp only [List.length_append, List.length_cons, List.length_nil] at hlength
    omega

/-- A stall that trades and has a market, which trades too. -/
def stall : ClassDecl :=
  { Sketch.component "Stall" [] [] [] with
    superTypes := [Sketch.type "Trade", Sketch.type "Market"] }

/-- The program of the stall. -/
def stallProgram : Model := Sketch.program [stall, trade, place "Market", Sketch.plain "Coin"]

/-- The stall asks for a coin, though the market that provides it overrides the one asked for. -/
theorem not_overridesWin_stall : ⟨0, stall, false⟩ ∈ stallProgram.classifiers ∧
    ¬ OverridesWin stallProgram {} ⟨0, stall, false⟩ := by
  refine ⟨Model.mem_classifiers.2 ⟨rfl, rfl⟩, fun h => ?_⟩
  obtain ⟨hchain, coin, own, hcoin, hown, hover, hrequired⟩ :
      Classifier.chain stallProgram ⟨0, stall, false⟩
          = [⟨0, stall, false⟩, ⟨1, trade, false⟩, ⟨2, place "Market", false⟩] ∧
        ∃ coin own : Callable,
          Classifier.members stallProgram ⟨1, trade, false⟩ = [coin] ∧
          Classifier.members stallProgram ⟨2, place "Market", false⟩ = [own] ∧
          own.overrides coin = true ∧
          (collect stallProgram {} ⟨0, stall, false⟩).requirementMembers = [coin] :=
    ⟨by decide +kernel, _, _, rfl, rfl, by decide +kernel, rfl⟩
  have hdescends :
      Classifier.Descends stallProgram ⟨2, place "Market", false⟩ ⟨1, trade, false⟩ := by
    have hmarket : Classifier.superClasses stallProgram ⟨2, place "Market", false⟩
        = [⟨1, trade, false⟩] := by decide +kernel
    have htrade : Classifier.superClasses stallProgram ⟨1, trade, false⟩ = [] := by
      decide +kernel
    refine ⟨.single ?_, fun hback => ?_⟩
    · rw [hmarket]
      exact List.mem_singleton.2 rfl
    · obtain ⟨b, hb, _⟩ := Relation.TransGen.head'_iff.1 hback
      rw [htrade] at hb
      exact absurd hb List.not_mem_nil
  rw [OverridesWin, hchain] at h
  have hsuperseded := h ⟨2, place "Market", false⟩ (List.mem_of_getElem? (i := 2) rfl)
    ⟨1, trade, false⟩ (List.mem_of_getElem? (i := 1) rfl) hdescends own
    (by rw [hown]; exact List.mem_singleton.2 rfl) coin
    (by rw [hcoin]; exact List.mem_singleton.2 rfl) hover
  refine hsuperseded.not_required ?_
  rw [hrequired]
  exact List.mem_singleton.2 rfl

end Catalogue

end Wiring
