import Wiring.Proofs.Walk

/-!
# Walks as descents

A depth-first walk is also a recursion. From a node that is new, all that lies below it is gone
through before the node beside it, and what has been seen there is passed on. The walk with one list
of nodes still to be visited enters the same nodes in the same order.
-/

namespace Wiring.Walk

variable {α κ : Type} {key : α → κ} {next : α → List α}

/-- From keys that are seen and nodes to visit, the nodes that are entered and the keys that are
seen in the end. -/
inductive Descent (key : α → κ) (next : α → List α) :
    List κ → List α → List α → List κ → Prop where
  | done {seen} : Descent key next seen [] [] seen
  | again {seen a todo order last} (hs : key a ∈ seen)
      (hr : Descent key next seen todo order last) : Descent key next seen (a :: todo) order last
  | enter {seen a todo below between order last} (hs : key a ∉ seen)
      (hb : Descent key next (key a :: seen) (next a) below between)
      (hr : Descent key next between todo order last) :
      Descent key next seen (a :: todo) (a :: (below ++ order)) last

namespace Descent

variable {seen last last' : List κ} {todo todo' order order' : List α}

/-- A descent has one outcome. -/
theorem unique (h : Descent key next seen todo order last)
    (h' : Descent key next seen todo order' last') : order = order' ∧ last = last' := by
  induction h generalizing order' last' with
  | done =>
    cases h'
    exact ⟨rfl, rfl⟩
  | again hs _ ih =>
    cases h' with
    | again _ hr' => exact ih hr'
    | enter hn _ _ => exact absurd hs hn
  | enter hs _ _ ihb ihr =>
    cases h' with
    | again hn _ => exact absurd hn hs
    | enter _ hb' hr' =>
      obtain ⟨rfl, rfl⟩ := ihb hb'
      obtain ⟨rfl, rfl⟩ := ihr hr'
      exact ⟨rfl, rfl⟩

/-- A descent from some nodes and then others is a descent from the ones and then one from the
others. -/
theorem of_append (h : Descent key next seen (todo ++ todo') order last) :
    ∃ first rest between, Descent key next seen todo first between ∧
      Descent key next between todo' rest last ∧ order = first ++ rest := by
  induction todo generalizing seen order with
  | nil => exact ⟨[], order, seen, .done, h, rfl⟩
  | cons a todo ih =>
    cases h with
    | again hs hr =>
      obtain ⟨first, rest, between, hfirst, hrest, rfl⟩ := ih hr
      exact ⟨first, rest, between, .again hs hfirst, hrest, rfl⟩
    | @enter _ _ _ below _ _ _ hs hb hr =>
      obtain ⟨first, rest, between, hfirst, hrest, rfl⟩ := ih hr
      refine ⟨a :: (below ++ first), rest, between, .enter hs hb hfirst, hrest, ?_⟩
      rw [List.cons_append, List.append_assoc]

end Descent

/-- What a walk enters is what a descent enters. -/
theorem Runs.descent {todo : List α} {seen : List κ} {ms : List (α × Bool)}
    (h : Runs key next todo seen ms) : ∃ last, Descent key next seen todo (entered ms) last := by
  induction h with
  | done => exact ⟨_, .done⟩
  | again hs _ ih =>
    obtain ⟨last, hrest⟩ := ih
    exact ⟨last, .again hs hrest⟩
  | @enter a todo seen rest hs _ ih =>
    obtain ⟨last, hrest⟩ := ih
    obtain ⟨below, others, between, hbelow, hothers, hsplit⟩ := hrest.of_append
    have hhead : entered ((a, true) :: rest) = a :: entered rest := rfl
    rw [hhead, hsplit]
    exact ⟨last, .enter hs hbelow hothers⟩

end Wiring.Walk
