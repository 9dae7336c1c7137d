import Wiring.Catalogue.Levels

/-!
# Walks without a bound

The walk as it would run with no limit on the number of meetings, given by its rules. Where every
first meeting uses up some of a finite store of edges, the walk comes to an end, and a bound that
covers the store changes nothing about it. The inheritance chain, the instantiated supertypes and
the arrivals at parent components are such walks, in shared and in cyclic hierarchies alike.
-/

namespace Wiring.Walk

variable {α κ : Type} {key : α → κ} {next : α → List α}

/-- The unbounded walk from the nodes still to be visited, with the keys already seen, ends with
the given meetings. -/
inductive Runs (key : α → κ) (next : α → List α) :
    List α → List κ → List (α × Bool) → Prop where
  | done {seen} : Runs key next [] seen []
  | again {a todo seen rest} (hs : key a ∈ seen) (hr : Runs key next todo seen rest) :
      Runs key next (a :: todo) seen ((a, false) :: rest)
  | enter {a todo seen rest} (hs : key a ∉ seen)
      (hr : Runs key next (next a ++ todo) (key a :: seen) rest) :
      Runs key next (a :: todo) seen ((a, true) :: rest)

/-- The nodes met for the first time. -/
def entered (meetings : List (α × Bool)) : List α :=
  meetings.filterMap fun (a, isNew) => if isNew then some a else none

/-- What is entered is what is met and gone into. -/
theorem mem_entered {a : α} {ms : List (α × Bool)} : a ∈ entered ms ↔ (a, true) ∈ ms := by
  rw [entered, List.mem_filterMap]
  constructor
  · rintro ⟨⟨b, isNew⟩, hmem, hb⟩
    cases isNew with
    | false => cases hb
    | true =>
      cases hb
      exact hmem
  · exact fun h => ⟨_, h, rfl⟩

/-- The rules leave no choice, so a walk has one outcome. -/
theorem Runs.unique {todo : List α} {seen : List κ} {ms ms' : List (α × Bool)}
    (h : Runs key next todo seen ms) (h' : Runs key next todo seen ms') : ms = ms' := by
  induction h generalizing ms' with
  | done =>
    cases h'
    rfl
  | again hs _ ih =>
    cases h' with
    | again _ hr' => rw [ih hr']
    | enter hn _ => exact absurd hs hn
  | enter hs _ ih =>
    cases h' with
    | again hn _ => exact absurd hn hs
    | enter _ hr' => rw [ih hr']

/-- No key is entered twice, and none that was seen before. -/
theorem Runs.nodup_entered {todo : List α} {seen : List κ} {ms : List (α × Bool)}
    (h : Runs key next todo seen ms) :
    (∀ a ∈ entered ms, key a ∉ seen) ∧ ((entered ms).map key).Nodup := by
  induction h with
  | done => exact ⟨fun a ha => absurd ha List.not_mem_nil, List.nodup_nil⟩
  | again _ _ ih => exact ih
  | @enter a todo seen rest hs _ ih =>
    obtain ⟨hfresh, hnodup⟩ := ih
    have hhead : entered ((a, true) :: rest) = a :: entered rest := rfl
    rw [hhead, List.map_cons, List.nodup_cons]
    refine ⟨fun b hb => ?_, ?_, hnodup⟩
    · rcases List.mem_cons.1 hb with rfl | hb
      · exact hs
      · exact fun hseen => hfresh b hb (List.mem_cons_of_mem _ hseen)
    · intro ha
      obtain ⟨b, hb, hkey⟩ := List.mem_map.1 ha
      refine hfresh b hb ?_
      rw [hkey]
      exact List.mem_cons_self ..

/-- A node that is entered was to be visited from the start, or follows one that is entered before
it. -/
theorem Runs.follows {todo : List α} {seen : List κ} {ms : List (α × Bool)}
    (h : Runs key next todo seen ms) {before after : List α} {a : α}
    (he : entered ms = before ++ a :: after) : a ∈ todo ∨ ∃ b ∈ before, a ∈ next b := by
  induction h generalizing before with
  | done =>
    have hnil : entered ([] : List (α × Bool)) = [] := rfl
    rw [hnil] at he
    exact absurd he.symm (List.append_ne_nil_of_right_ne_nil _ (List.cons_ne_nil _ _))
  | again _ _ ih => exact (ih he).imp_left (List.mem_cons_of_mem _)
  | @enter x todo seen rest _ _ ih =>
    have hhead : entered ((x, true) :: rest) = x :: entered rest := rfl
    rw [hhead] at he
    cases before with
    | nil =>
      cases he
      exact .inl (List.mem_cons_self ..)
    | cons y before =>
      obtain ⟨rfl, hrest⟩ := List.cons.inj he
      rcases ih hrest with hmem | ⟨b, hb, hnext⟩
      · rcases List.mem_append.1 hmem with hmem | hmem
        · exact .inr ⟨x, List.mem_cons_self .., hmem⟩
        · exact .inl (List.mem_cons_of_mem _ hmem)
      · exact .inr ⟨b, List.mem_cons_of_mem _ hb, hnext⟩

/-- What is met is what was to be visited and what follows a node that is entered. -/
theorem Runs.met_iff {todo : List α} {seen : List κ} {ms : List (α × Bool)}
    (h : Runs key next todo seen ms) {a : α} :
    (∃ isNew, (a, isNew) ∈ ms) ↔ a ∈ todo ∨ ∃ b ∈ entered ms, a ∈ next b := by
  induction h with
  | done =>
    have hnil : entered ([] : List (α × Bool)) = [] := rfl
    simp only [hnil, List.not_mem_nil, exists_false, false_and, or_false]
  | @again x todo seen rest _ _ ih =>
    have hhead : entered ((x, false) :: rest) = entered rest := rfl
    simp only [hhead, List.mem_cons, exists_or, ih, Prod.mk.injEq, exists_and_left, exists_eq,
      and_true, or_assoc]
  | @enter x todo seen rest _ _ ih =>
    have hhead : entered ((x, true) :: rest) = x :: entered rest := rfl
    simp only [hhead, List.mem_cons, exists_or, ih, Prod.mk.injEq, exists_and_left, exists_eq,
      and_true, List.mem_append, or_and_right, exists_eq_left, or_assoc]
    refine or_congr_right ?_
    rw [or_left_comm]

/-- What holds of the nodes to visit, and is passed on by a node that is entered to those entered
later that follow it, holds of every node that is entered, together with the nodes before it. -/
theorem Runs.of_split_entered {todo : List α} {seen : List κ} {ms : List (α × Bool)}
    (h : Runs key next todo seen ms) {P : List α → α → Prop}
    (htodo : ∀ before, ∀ a ∈ todo, P before a)
    (hnext : ∀ before b between a after, entered ms = before ++ b :: (between ++ a :: after) →
      P before b → a ∈ next b → P (before ++ b :: between) a) :
    ∀ before a after, entered ms = before ++ a :: after → P before a := by
  intro before
  induction hn : before.length using Nat.strongRecOn generalizing before with
  | ind n ih =>
    intro a after he
    rcases h.follows he with ha | ⟨b, hb, ha⟩
    · exact htodo before a ha
    · -- The node follows one that is entered before it.
      obtain ⟨init, between, rfl⟩ := List.append_of_mem hb
      rw [List.append_assoc, List.cons_append] at he
      rw [List.length_append, List.length_cons] at hn
      exact hnext init b between a after he (ih init.length (by omega) init rfl b _ he) ha

/-- What holds of the nodes to visit and is passed on by nodes that are entered holds of every node
that is entered. -/
theorem Runs.forall_mem_entered {todo : List α} {seen : List κ} {ms : List (α × Bool)}
    (h : Runs key next todo seen ms) {P : α → Prop} (htodo : ∀ a ∈ todo, P a)
    (hnext : ∀ b ∈ entered ms, P b → ∀ a ∈ next b, P a) : ∀ a ∈ entered ms, P a := by
  intro a ha
  obtain ⟨before, after, he⟩ := List.append_of_mem ha
  refine h.of_split_entered (P := fun _ a => P a) (fun _ => htodo) ?_ before a after he
  intro before b between a after he hb ha
  refine hnext b ?_ hb a ha
  rw [he]
  exact List.mem_append_cons_self

/-- A node that is met again has a key that was seen from the start or entered before. -/
theorem Runs.entered_before {todo : List α} {seen : List κ} {ms : List (α × Bool)}
    (h : Runs key next todo seen ms) {before after : List (α × Bool)} {a : α}
    (he : ms = before ++ (a, false) :: after) :
    key a ∈ seen ∨ ∃ b, (b, true) ∈ before ∧ key b = key a := by
  induction h generalizing before with
  | done => exact absurd he.symm (List.append_ne_nil_of_right_ne_nil _ (List.cons_ne_nil _ _))
  | again hs _ ih =>
    cases before with
    | nil =>
      cases he
      exact .inl hs
    | cons n before =>
      obtain ⟨_, hrest⟩ := List.cons.inj he
      rcases ih hrest with hseen | ⟨b, hb, hkey⟩
      · exact .inl hseen
      · exact .inr ⟨b, List.mem_cons_of_mem _ hb, hkey⟩
  | @enter x todo seen rest _ _ ih =>
    cases before with
    | nil => cases he
    | cons n before =>
      obtain ⟨rfl, hrest⟩ := List.cons.inj he
      rcases ih hrest with hseen | ⟨b, hb, hkey⟩
      · rcases List.mem_cons.1 hseen with hkey | hseen
        · exact .inr ⟨x, List.mem_cons_self .., hkey.symm⟩
        · exact .inl hseen
      · exact .inr ⟨b, List.mem_cons_of_mem _ hb, hkey⟩

/-- A walk leaves nothing out: what was to be visited, and whatever follows a node that is entered,
has a key that was seen from the start or is entered. -/
theorem Runs.closed {todo : List α} {seen : List κ} {ms : List (α × Bool)}
    (h : Runs key next todo seen ms) :
    (∀ a ∈ todo, key a ∈ seen ∨ key a ∈ (entered ms).map key) ∧
      ∀ b ∈ entered ms, ∀ a ∈ next b, key a ∈ seen ∨ key a ∈ (entered ms).map key := by
  induction h with
  | done =>
    exact ⟨fun a ha => absurd ha List.not_mem_nil, fun b hb => absurd hb List.not_mem_nil⟩
  | @again a todo seen rest hs _ ih =>
    obtain ⟨htodo, hnext⟩ := ih
    refine ⟨fun b hb => ?_, hnext⟩
    rcases List.mem_cons.1 hb with rfl | hb
    · exact .inl hs
    · exact htodo b hb
  | @enter x todo seen rest _ _ ih =>
    obtain ⟨htodo, hnext⟩ := ih
    have hhead : entered ((x, true) :: rest) = x :: entered rest := rfl
    have hwider : ∀ k, k ∈ key x :: seen ∨ k ∈ (entered rest).map key →
        k ∈ seen ∨ k ∈ (x :: entered rest).map key := by
      rintro k (hk | hk)
      · rcases List.mem_cons.1 hk with rfl | hk
        · exact .inr (List.mem_cons_self ..)
        · exact .inl hk
      · exact .inr (List.mem_cons_of_mem _ hk)
    rw [hhead]
    refine ⟨fun a ha => ?_, fun b hb a ha => hwider _ ?_⟩
    · rcases List.mem_cons.1 ha with rfl | ha
      · exact .inr (List.mem_cons_self ..)
      · exact hwider _ (htodo a (List.mem_append_right _ ha))
    · rcases List.mem_cons.1 hb with rfl | hb
      · exact htodo a (List.mem_append_left _ ha)
      · exact hnext b hb a ha

/-- The images of what is entered are what is entered of the images. -/
theorem entered_map {β : Type} (g : α → β) (ms : List (α × Bool)) :
    entered (ms.map fun n => (g n.1, n.2)) = (entered ms).map g := by
  rw [entered, entered, List.filterMap_map, List.map_filterMap]
  refine congrArg (List.filterMap · ms) (funext fun n => ?_)
  obtain ⟨a, isNew⟩ := n
  cases isNew <;> rfl

/-- A walk over the images of nodes meets the images of what is met, when two images have one key
exactly if their nodes have, and the images of the successors are the successors of the image. -/
theorem Runs.map {β κ' : Type} {key' : β → κ'} {next' : β → List β} {g : α → β} {P : α → Prop}
    (hnext : ∀ a, P a → ∀ b ∈ next a, P b)
    (hkey : ∀ a b, P a → P b → (key' (g a) = key' (g b) ↔ key a = key b))
    (himage : ∀ a, P a → next' (g a) = (next a).map g) {todo : List α} {seen : List κ}
    {ms : List (α × Bool)} (h : Runs key next todo seen ms) {seen' : List κ'}
    (htodo : ∀ a ∈ todo, P a) (hseen : ∀ a, P a → (key' (g a) ∈ seen' ↔ key a ∈ seen)) :
    Runs key' next' (todo.map g) seen' (ms.map fun n => (g n.1, n.2)) := by
  induction h generalizing seen' with
  | done => exact .done
  | again hs _ ih =>
    obtain ⟨ha, hrest⟩ := List.forall_mem_cons.1 htodo
    exact .again ((hseen _ ha).2 hs) (ih hrest hseen)
  | @enter a todo seen rest hs _ ih =>
    obtain ⟨ha, hrest⟩ := List.forall_mem_cons.1 htodo
    refine .enter (fun hs' => hs ((hseen a ha).1 hs')) ?_
    rw [himage a ha, ← List.map_append]
    refine ih (fun b hb => ?_) fun b hb => ?_
    · rcases List.mem_append.1 hb with hb | hb
      · exact hnext a ha b hb
      · exact hrest b hb
    · rw [List.mem_cons, List.mem_cons, hkey b a hb ha, hseen b hb]

variable [DecidableEq κ]

/-- A bound that covers the nodes to visit and the store of edges lets the walk come to its end.
The store shrinks by the successors of a node when the node is entered. -/
theorem runs_meetings {P : α → Prop} {S : List κ → Nat}
    (hnext : ∀ a, P a → ∀ b ∈ next a, P b)
    (hstore : ∀ a seen, P a → key a ∉ seen →
      (next a).length + S (key a :: seen) ≤ S seen) :
    ∀ (fuel : Nat) (todo : List α) (seen : List κ), (∀ a ∈ todo, P a) →
      todo.length + S seen ≤ fuel →
      Runs key next todo seen (meetings key next fuel todo seen) := by
  intro fuel
  induction fuel with
  | zero =>
    intro todo seen _ hf
    have ht : todo = [] := List.length_eq_zero_iff.1 (by omega)
    subst ht
    exact .done
  | succ fuel ih =>
    intro todo seen hP hf
    cases todo with
    | nil => exact .done
    | cons a todo =>
      have ha := hP a (List.mem_cons_self ..)
      have htodo : ∀ b ∈ todo, P b := fun b hb => hP b (List.mem_cons_of_mem _ hb)
      rw [List.length_cons] at hf
      by_cases hs : key a ∈ seen
      · rw [meetings, if_pos hs]
        exact .again hs (ih todo seen htodo (by omega))
      · have hd := hstore a seen ha hs
        rw [meetings, if_neg hs]
        refine .enter hs (ih _ _ ?_ ?_)
        · intro b hb
          rcases List.mem_append.1 hb with hb | hb
          · exact hnext a ha b hb
          · exact htodo b hb
        · rw [List.length_append]
          omega

/-- The same from a start that need not have the property itself, as long as its successors
have it. -/
theorem runs_meetings_start {P : α → Prop} {S : List κ → Nat}
    (hnext : ∀ a, P a → ∀ b ∈ next a, P b)
    (hstore : ∀ a seen, P a → key a ∉ seen →
      (next a).length + S (key a :: seen) ≤ S seen)
    (a : α) (ha : ∀ b ∈ next a, P b) {fuel : Nat}
    (hf : (next a).length + S [key a] ≤ fuel) :
    Runs key next [a] [] (meetings key next (fuel + 1) [a] []) := by
  rw [meetings, if_neg (List.not_mem_nil)]
  refine .enter List.not_mem_nil ?_
  rw [List.append_nil]
  exact runs_meetings hnext hstore fuel (next a) [key a] ha hf

/-- What holds of the nodes to visit and is passed on to successors holds of every node met. -/
theorem forall_mem_meetings {P : α → Prop}
    (hnext : ∀ a, P a → ∀ b ∈ next a, P b) :
    ∀ (fuel : Nat) (todo : List α) (seen : List κ), (∀ a ∈ todo, P a) →
      ∀ n ∈ meetings key next fuel todo seen, P n.1 := by
  intro fuel
  induction fuel with
  | zero =>
    intro todo seen _ n hn
    simp only [meetings, List.not_mem_nil] at hn
  | succ fuel ih =>
    intro todo seen hP n hn
    cases todo with
    | nil => simp only [meetings, List.not_mem_nil] at hn
    | cons a todo =>
      have ha := hP a (List.mem_cons_self ..)
      have htodo : ∀ b ∈ todo, P b := fun b hb => hP b (List.mem_cons_of_mem _ hb)
      rw [meetings] at hn
      split at hn
      · rcases List.mem_cons.1 hn with rfl | hn
        · exact ha
        · exact ih _ _ htodo n hn
      · rcases List.mem_cons.1 hn with rfl | hn
        · exact ha
        · refine ih _ _ ?_ n hn
          intro b hb
          rcases List.mem_append.1 hb with hb | hb
          · exact hnext a ha b hb
          · exact htodo b hb

/-- What holds at the start and goes on to whatever is next holds wherever the walk goes. -/
theorem forall_mem_preorder {P : α → Prop}
    (hnext : ∀ a, P a → ∀ b ∈ next a, P b) {fuel : Nat} {todo : List α}
    (ht : ∀ a ∈ todo, P a) : ∀ a ∈ preorder key next fuel todo, P a := by
  intro a ha
  exact forall_mem_meetings hnext fuel todo [] ht _ (mem_entered.1 ha)

section Images

variable {β : Type} {key' : β → κ} {next' : β → List β} {g : α → β} {P : α → Prop}

/-- A walk over the images of nodes meets the images of what is met, when images have the keys of
the nodes and the images of the successors as successors. -/
theorem meetings_map (hnext : ∀ a, P a → ∀ b ∈ next a, P b)
    (hkey : ∀ a, P a → key' (g a) = key a) (himage : ∀ a, P a → next' (g a) = (next a).map g) :
    ∀ (fuel : Nat) (todo : List α) (seen : List κ), (∀ a ∈ todo, P a) →
      meetings key' next' fuel (todo.map g) seen
        = (meetings key next fuel todo seen).map fun n => (g n.1, n.2) := by
  intro fuel
  induction fuel with
  | zero =>
    intro todo seen _
    rfl
  | succ fuel ih =>
    intro todo seen hP
    cases todo with
    | nil => rfl
    | cons a todo =>
      have ha := hP a (List.mem_cons_self ..)
      have htodo : ∀ b ∈ todo, P b := fun b hb => hP b (List.mem_cons_of_mem _ hb)
      rw [List.map_cons, meetings, meetings, hkey a ha]
      by_cases hs : key a ∈ seen
      · rw [if_pos hs, if_pos hs, ih todo seen htodo]
        rfl
      · rw [if_neg hs, if_neg hs, himage a ha, ← List.map_append, ih]
        · rfl
        · intro b hb
          rcases List.mem_append.1 hb with hb | hb
          · exact hnext a ha b hb
          · exact htodo b hb

/-- A walk through images goes through the images of the walk. -/
theorem preorder_map (hnext : ∀ a, P a → ∀ b ∈ next a, P b)
    (hkey : ∀ a, P a → key' (g a) = key a) (himage : ∀ a, P a → next' (g a) = (next a).map g)
    {fuel : Nat} {todo : List α} (ht : ∀ a ∈ todo, P a) :
    preorder key' next' fuel (todo.map g) = (preorder key next fuel todo).map g := by
  rw [preorder, meetings_map hnext hkey himage fuel todo [] ht]
  exact entered_map g _

end Images

end Wiring.Walk
