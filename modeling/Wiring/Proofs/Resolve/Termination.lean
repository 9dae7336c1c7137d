import Wiring.Proofs.Resolve.Universe

/-!
# Resolution comes to an end

A request leads only to requests that have made progress: an element that was not on the path has
been entered, a lazy type has been unwrapped to a smaller one, or the cache entry of the same key
is being filled. Elements are entered out of a finite universe, so the chain of requests below any
request is finite, in cyclic programs too. Resolution up to the bound on depth is therefore
resolution without a bound: it answers every request as one step over its own answers does, and
the bound is never what makes it fail.
-/

namespace Wiring

namespace Request

/-- The elements of a universe that are not on the path of a request. -/
def unvisited (U : List ElementId) (q : Request) : List ElementId :=
  U.filter fun e => e ∉ q.context.path.elements.map (·.id)

/-- How far requests can still lead: elements to enter count most, then names to unwrap, then the
use of the cache. -/
def rank (U : List ElementId) (q : Request) : Nat :=
  (q.unvisited U).length * (2 * U.length + 2) + 2 * q.key.type.size
    + if q.context.skipScoped = some q.key.type then 0 else 1

/-- What one request achieves over the one that asks for it. -/
inductive Progress (U : List ElementId) (q q' : Request) : Prop where
  /-- An element of the universe that was not on the path has been entered. -/
  | enters {e : Element} (hU : e.id ∈ U) (hf : e.id ∉ q.context.path.elements.map (·.id))
      (hp : q'.context.path.elements = e :: q.context.path.elements)
  /-- A lazy type has been unwrapped. -/
  | unwraps (hp : q'.context.path = q.context.path) (hl : q.key.type.isKnown .lazy = true)
      (ha : q'.key.type ∈ q.key.type.resolved.arguments)
      (hs : q'.key.type.size < q.key.type.size)
  /-- The cache entry of the same key is being filled, and was not before. -/
  | fills (hp : q'.context.path = q.context.path) (hk : q'.key = q.key)
      (hs : q.context.skipScoped ≠ some q.key.type)
      (hs' : q'.context.skipScoped = some q.key.type)

/-- Entering an element of the universe leaves fewer to enter. -/
theorem unvisited_lt {U : List ElementId} {q q' : Request} {e : Element} (hU : e.id ∈ U)
    (hf : e.id ∉ q.context.path.elements.map (·.id))
    (hp : q'.context.path.elements = e :: q.context.path.elements) :
    (q'.unvisited U).length < (q.unvisited U).length := by
  have hfilter : q'.unvisited U = (q.unvisited U).filter fun i => i ≠ e.id := by
    rw [unvisited, unvisited, List.filter_filter, hp]
    refine List.filter_congr fun i _ => ?_
    simp [not_or]
  have hmem : e.id ∈ q.unvisited U := List.mem_filter.2 ⟨hU, by simpa using hf⟩
  rw [hfilter]
  exact List.length_filter_lt_length_iff_exists.2 ⟨e.id, hmem, by simp⟩

/-- Progress lowers the rank. -/
theorem Progress.rank_lt {U : List ElementId} {q q' : Request} (h : Progress U q q')
    (hs : q'.key.type.size ≤ U.length) : q'.rank U < q.rank U := by
  cases h with
  | enters hU hf hp =>
    have hlt := unvisited_lt hU hf hp
    have hmul : ((q'.unvisited U).length + 1) * (2 * U.length + 2)
        ≤ (q.unvisited U).length * (2 * U.length + 2) := Nat.mul_le_mul_right _ hlt
    rw [Nat.add_mul, Nat.one_mul] at hmul
    rw [rank, rank]
    split <;> split <;> omega
  | unwraps hp _ _ hlt =>
    rw [rank, rank, unvisited, unvisited, hp]
    split <;> split <;> omega
  | fills hp hk hne heq =>
    rw [rank, rank, unvisited, unvisited, hp, hk, if_pos heq, if_neg hne]
    omega

end Request

namespace Resolver

/-- A request leads only to requests that have made progress, and that stay in the universe. -/
theorem Asks.progress {m : Model} {o : Options} {c : Classifier} (hc : c ∈ m.classifiers)
    {U : List ElementId} (hm : m.ids.Sublist U) {q q' : Request} {s : Option Subject}
    (hq : q.key.type.ids.Sublist U) (h : (Component.resolver m o c).Asks q s q') :
    q.Progress U q' ∧ q'.key.type.ids.Sublist U := by
  cases s with
  | some s =>
    cases h with
    | inside hcand ht he hn =>
      obtain ⟨hid, hneeded⟩ := (declared_of_enter_mem_tasks hc hcand ht).ids_sublist hm hq
      obtain ⟨hfresh, hpath, _⟩ := Context.enter?_eq_some he
      refine ⟨.enters hid hfresh ?_, hneeded _ (type_mem_needed hn)⟩
      rw [path_of_mem_needs hn]
      exact hpath
  | none =>
    rcases h.onward_cases with ⟨_, _, _, _, hne, rfl⟩ | ⟨inner, hl, ha, rfl⟩
    · exact ⟨.fills rfl rfl hne rfl, hq⟩
    · have hmem := List.mem_of_mem_head? ha
      exact ⟨.unwraps rfl hl hmem (TypeExpr.size_lt_of_mem_arguments hmem),
        (TypeExpr.ids_sublist_of_mem_arguments hmem).trans hq⟩

/-- A request has a lower rank than the one that asks for it. -/
theorem Asks.rank_lt {m : Model} {o : Options} {c : Classifier} (hc : c ∈ m.classifiers)
    {U : List ElementId} (hm : m.ids.Sublist U) {q q' : Request} {s : Option Subject}
    (hq : q.key.type.ids.Sublist U) (h : (Component.resolver m o c).Asks q s q') :
    q'.rank U < q.rank U ∧ q'.key.type.ids.Sublist U := by
  obtain ⟨hp, hq'⟩ := h.progress hc hm hq
  have hl := hq'.length_le
  rw [TypeExpr.length_ids] at hl
  exact ⟨hp.rank_lt hl, hq'⟩

section Bounds

variable {m : Model} {o : Options} {c : Classifier}

/-- The bound on depth covers the rank of a request. -/
theorem rank_lt_depthBound (m : Model) (o : Options) (c : Classifier) (q : Request) :
    q.rank (m.enterable q.key.type) < (Component.resolver m o c).depthBound q.key := by
  have hn := m.length_enterable_le q.key.type
  have hfilter : (q.unvisited (m.enterable q.key.type)).length
      ≤ (m.enterable q.key.type).length := List.length_filter_le ..
  have hmul : (q.unvisited (m.enterable q.key.type)).length
        * (2 * (m.enterable q.key.type).length + 2)
      ≤ (m.weight + q.key.type.size) * (2 * (m.weight + q.key.type.size) + 2) :=
    Nat.mul_le_mul (by omega) (by omega)
  rw [depthBound]
  dsimp only [Component.resolver]
  rw [Nat.add_mul, Nat.one_mul, Request.rank]
  split <;> omega

/-- Resolution does not depend on the bound on depth, as long as it exceeds the rank. -/
theorem provideWithin_eq (hc : c ∈ m.classifiers) {U : List ElementId} (hm : m.ids.Sublist U) :
    ∀ (depth depth' : Nat) (q : Request), q.key.type.ids.Sublist U → q.rank U < depth →
      q.rank U < depth' → (Component.resolver m o c).provideWithin depth q
        = (Component.resolver m o c).provideWithin depth' q := by
  intro depth
  induction depth with
  | zero =>
    intro depth' q _ hlt _
    exact absurd hlt (Nat.not_lt_zero _)
  | succ depth ih =>
    intro depth' q hq hlt hlt'
    cases depth' with
    | zero => exact absurd hlt' (Nat.not_lt_zero _)
    | succ depth' =>
      rw [provideWithin, provideWithin]
      refine step_congr fun s q' hasks => ?_
      obtain ⟨hrank, hq'⟩ := hasks.rank_lt hc hm hq
      exact ih depth' q' hq' (by omega) (by omega)

/-- No chain of requests goes on forever. -/
theorem acc_asks (hc : c ∈ m.classifiers) (q : Request) :
    Acc (fun q' q => ∃ s, (Component.resolver m o c).Asks q s q') q := by
  have hall : ∀ (n : Nat) (U : List ElementId) (q : Request), m.ids.Sublist U →
      q.key.type.ids.Sublist U → q.rank U < n →
      Acc (fun q' q => ∃ s, (Component.resolver m o c).Asks q s q') q := by
    intro n
    induction n with
    | zero =>
      intro U q _ _ hlt
      exact absurd hlt (Nat.not_lt_zero _)
    | succ n ih =>
      intro U q hm hq hlt
      refine .intro q fun q' hasks => ?_
      obtain ⟨s, hasks⟩ := hasks
      obtain ⟨hrank, hq'⟩ := hasks.rank_lt hc hm hq
      exact ih U q' hm hq' (by omega)
  exact hall _ (m.enterable q.key.type) q (m.ids_sublist_enterable _) (m.type_sublist_enterable _)
    (Nat.lt_succ_self _)

/-- The answer to a request: the outcome of resolution up to the bound on depth for its key. -/
def answer (r : Resolver) (q : Request) : Except Failure Plan :=
  r.provideWithin (r.depthBound q.key) q

/-- Any bound above the rank gives the answer. -/
theorem provideWithin_eq_answer (hc : c ∈ m.classifiers) {U : List ElementId}
    (hm : m.ids.Sublist U) {q : Request} (hq : q.key.type.ids.Sublist U) {depth : Nat}
    (hlt : q.rank U < depth) : (Component.resolver m o c).provideWithin depth q
      = (Component.resolver m o c).answer q := by
  have hown := rank_lt_depthBound m o c q
  have hmax := Nat.le_max_left depth ((Component.resolver m o c).depthBound q.key)
  have hmax' := Nat.le_max_right depth ((Component.resolver m o c).depthBound q.key)
  rw [answer, provideWithin_eq hc hm depth (max depth ((Component.resolver m o c).depthBound q.key))
    q hq hlt (by omega)]
  exact provideWithin_eq hc (m.ids_sublist_enterable q.key.type) _ _ q (m.type_sublist_enterable _)
    (by omega) hown

/-- An answer is a step over the answers to the requests it asks. -/
theorem answer_eq_step (hc : c ∈ m.classifiers) (q : Request) :
    (Component.resolver m o c).answer q
      = (Component.resolver m o c).step (Component.resolver m o c).answer q := by
  have hlt := rank_lt_depthBound m o c q
  have hdepth : (Component.resolver m o c).depthBound q.key
      = ((Component.resolver m o c).depthBound q.key - 1) + 1 := by omega
  rw [answer, hdepth, provideWithin]
  refine step_congr fun s q' hasks => ?_
  obtain ⟨hrank, hq'⟩ := hasks.rank_lt hc (m.ids_sublist_enterable q.key.type)
    (m.type_sublist_enterable _)
  exact provideWithin_eq_answer hc (m.ids_sublist_enterable q.key.type) hq' (by omega)

/-- The bound on depth is never what makes resolution fail. -/
theorem answer_ne_lazyCycle (hc : c ∈ m.classifiers) (q : Request) (trace : List String)
    (e : Element) : (Component.resolver m o c).answer q ≠ .error (.lazyCycle trace e) := by
  induction acc_asks (o := o) hc q with
  | intro q _ ih =>
    intro h
    rw [answer_eq_step hc] at h
    rcases fails_or_asks h with hfails | ⟨s, q', hasks, he⟩
    · cases hfails
    · exact ih q' ⟨s, hasks⟩ he

end Bounds

end Resolver

end Wiring
