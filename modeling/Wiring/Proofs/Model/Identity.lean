import Wiring.Proofs.Model.Declared

/-!
# Places and identities

A declaration is known by its place: no two members, constructors or functions of a program share
one. The identity of an element says of which kind the declaration is, and of a constructor, when
classes have distinct names, which one it is. Of a member or a function it gives the written path
alone, which several declarations may share.
-/

namespace Wiring

namespace Model

variable {m : Model}

/-- A member of a program is declared at a place of a class. -/
theorem exists_of_mem_callables {f : Callable} (h : f ∈ m.callables) :
    ∃ c ∈ m.classifiers, ∃ d i, c.decl.members[i]? = some d ∧ f = c.memberAt m i d := by
  obtain ⟨c, hc, hf⟩ := List.mem_flatMap.1 h
  rw [Classifier.members, (mem_classifiers.1 hc).2] at hf
  obtain ⟨⟨d, i⟩, hd, rfl⟩ := List.mem_map.1 hf
  exact ⟨c, hc, d, i, List.mk_mem_zipIdx_iff_getElem?.1 hd, rfl⟩

/-- Two declared classes at one place are the same. -/
theorem eq_of_index {c c' : Classifier} (hc : c ∈ m.classifiers) (hc' : c' ∈ m.classifiers)
    (h : c.index = c'.index) : c = c' := by
  rw [mem_classifiers] at hc hc'
  have hdecl : some c.decl = some c'.decl := by rw [← hc.1, ← hc'.1, h]
  cases c
  cases c'
  simp_all

/-- Two members at one place are the same. -/
theorem eq_of_origin_callables {f g : Callable} (hf : f ∈ m.callables) (hg : g ∈ m.callables)
    (h : f.origin = g.origin) : f = g := by
  obtain ⟨c, hc, d, i, hd, rfl⟩ := exists_of_mem_callables hf
  obtain ⟨c', hc', d', i', hd', rfl⟩ := exists_of_mem_callables hg
  obtain ⟨hindex, hplace⟩ := Origin.member.inj h
  obtain rfl := eq_of_index hc hc' hindex
  subst hplace
  rw [hd] at hd'
  cases hd'
  rfl

/-- A function of the program is declared at some place. -/
theorem exists_of_mem_functions {f : Callable} (h : f ∈ m.functions) :
    ∃ d i, m.declarations.functions[i]? = some d ∧ f = m.functionAt i d := by
  obtain ⟨⟨d, i⟩, hd, rfl⟩ := List.mem_map.1 h
  exact ⟨d, i, List.mk_mem_zipIdx_iff_getElem?.1 hd, rfl⟩

/-- Two functions at one place are the same. -/
theorem eq_of_origin_functions {f g : Callable} (hf : f ∈ m.functions) (hg : g ∈ m.functions)
    (h : f.origin = g.origin) : f = g := by
  obtain ⟨d, i, hd, rfl⟩ := exists_of_mem_functions hf
  obtain ⟨d', i', hd', rfl⟩ := exists_of_mem_functions hg
  have hplace := Origin.function.inj h
  subst hplace
  rw [hd] at hd'
  cases hd'
  rfl

/-- The members of a program are known as members. -/
theorem kind_of_mem_callables {f : Callable} (h : f ∈ m.callables) :
    f.element.id.kind = .member := by
  obtain ⟨c, _, d, i, _, rfl⟩ := exists_of_mem_callables h
  rfl

/-- The functions of a program are known as functions. -/
theorem kind_of_mem_functions {f : Callable} (h : f ∈ m.functions) :
    f.element.id.kind = .function := by
  obtain ⟨d, i, _, rfl⟩ := exists_of_mem_functions h
  rfl

/-- The identity of a constructor is made from the name of its class. -/
theorem constructor_of_mem_classifiers {c : Classifier} {k : Constructor}
    (hk : c.constructor? m = some k) : k.classIndex = c.index ∧
      k.element.id = ⟨.constructor, c.decl.qualifiedName ++ ".<init>"⟩ := by
  rw [Classifier.constructor?] at hk
  split at hk
  · cases hk
  · obtain ⟨d, _, rfl⟩ := Option.map_eq_some_iff.1 hk
    exact ⟨rfl, rfl⟩

/-- With distinct names, the identity of a constructor tells its class. -/
theorem DistinctNames.eq_of_constructor_id {c c' : Classifier} {k k' : Constructor}
    (hd : m.DistinctNames) (hc : c ∈ m.classifiers) (hc' : c' ∈ m.classifiers)
    (hk : c.constructor? m = some k) (hk' : c'.constructor? m = some k')
    (h : k.element.id = k'.element.id) : c = c' := by
  rw [(constructor_of_mem_classifiers hk).2, (constructor_of_mem_classifiers hk').2] at h
  refine hd.eq_of_qualifiedName hc hc' ?_
  have htext := congrArg String.toList (ElementId.mk.inj h).2
  rw [String.toList_append, String.toList_append] at htext
  exact String.toList_inj.1 (List.append_cancel_right htext)

end Model

end Wiring
