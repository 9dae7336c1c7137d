import Wiring.Catalogue.Basic

/-!
# What a catalogue holds

A catalogue is filled finding by finding. Here its entries are described by the list of findings
as a whole: the binding of a key is the first one found for it, a collection has every
contribution found for its key, in order, and its scope is the first one among them.
-/

namespace Wiring

namespace Finding

/-- The owner of a scope that was found. -/
def owner? : Finding → Option ScopeOwner
  | owner o => some o
  | _ => none

/-- The provider of a key by itself that was found. -/
def provider? (key : Key) : Finding → Option Provider
  | binding k p => if k = key then some p else none
  | _ => none

/-- The provider by itself that was found, with its key. -/
def entry? : Finding → Option (Key × Provider)
  | binding key p => some (key, p)
  | _ => none

/-- The contribution to the collection of a key that was found. -/
def part? (key : Key) : Finding → Option (Builder × Provider)
  | part b k p => if k = key then some (b, p) else none
  | _ => none

/-- The requirement of a key that was found. -/
def requirement? (key : Key) : Finding → Option Provider
  | requirement k p => if k = key then some p else none
  | _ => none

/-- The member that asks for a value, whatever its key. -/
def requirementMember? : Finding → Option Callable
  | requirement _ p => some p.callable
  | _ => none

/-- The providers found for a key are those found with it. -/
theorem filterMap_provider? (key : Key) (found : List Finding) :
    found.filterMap (provider? key) = ((found.filterMap entry?).filter (·.1 = key)).map (·.2) := by
  induction found with
  | nil => rfl
  | cons x found ih =>
    cases x with
    | binding k p =>
      by_cases hk : k = key
      · simp [provider?, entry?, hk, ih]
      · simp [provider?, entry?, hk, ih]
    | owner => exact ih
    | part => exact ih
    | requirement => exact ih
    | problem => exact ih

end Finding

/-- The collection made of contributions: its builder is that of the first, none of them keeps a
scope of its own, and the first scope among them becomes that of the collection. -/
def Container.ofParts : List (Builder × Provider) → Option Container
  | [] => none
  | (b, p) :: rest =>
    some ⟨b, ((b, p) :: rest).map fun part => { part.2 with scope := none },
      ((b, p) :: rest).findSome? (·.2.scope)⟩

/-- A collection with one more contribution. -/
def Container.withPart (b : Builder) (p : Provider) : Option Container → Container
  | none => ⟨b, [{ p with scope := none }], p.scope⟩
  | some c =>
    { c with parts := c.parts ++ [{ p with scope := none }], scope := c.scope.or p.scope }

/-- A collection made of contributions has one of their builders, all of them as parts, and the
first of their scopes. -/
theorem Container.eq_of_ofParts {parts : List (Builder × Provider)} {k : Container}
    (h : ofParts parts = some k) :
    (∃ p, (k.builder, p) ∈ parts) ∧
      k.parts = parts.map (fun part => { part.2 with scope := none }) ∧
      k.scope = parts.findSome? (·.2.scope) := by
  cases parts with
  | nil => cases h
  | cons part rest =>
    cases h
    exact ⟨⟨part.2, List.mem_cons_self ..⟩, rfl, rfl⟩

/-- A container of more parts is the one of the parts before, with one part added. -/
theorem Container.ofParts_append (parts : List (Builder × Provider)) (b : Builder) (p : Provider) :
    ofParts (parts ++ [(b, p)]) = some (withPart b p (ofParts parts)) := by
  cases parts with
  | nil =>
    cases hs : p.scope <;> simp [ofParts, withPart, hs]
  | cons part rest =>
    obtain ⟨b', p'⟩ := part
    simp only [ofParts, withPart, List.cons_append, List.map_cons, List.map_append, List.map_nil,
      Option.some.injEq, Container.mk.injEq, true_and]
    rw [← List.cons_append, List.findSome?_append]
    cases hs : p.scope <;> simp [hs]

namespace Catalogue

/-- A catalogue holds what a list of findings amounts to. -/
structure Describes (c : Catalogue) (found : List Finding) : Prop where
  owners : c.owners = found.filterMap Finding.owner?
  bindings : ∀ key, c.bindings.lookup key = (found.filterMap (Finding.provider? key)).head?
  containers : ∀ key,
    c.containers.lookup key = Container.ofParts (found.filterMap (Finding.part? key))
  requirements : ∀ key,
    c.requirements.lookup key = (found.filterMap (Finding.requirement? key)).head?
  requirementMembers : c.requirementMembers = found.filterMap Finding.requirementMember?

section Entering

variable (c : Catalogue) (f : Finding) (key : Key)

/-- Adding a part changes what is looked up for its own key only. -/
theorem lookup_addPart (b : Builder) (k : Key) (p : Provider) (entries : List (Key × Container)) :
    (addPart b key p entries).lookup k =
      if key = k then some (Container.withPart b p (entries.lookup k)) else entries.lookup k := by
  induction entries with
  | nil =>
    by_cases hk : key = k
    · simp [addPart, Container.withPart, hk]
    · have hne : ¬ k = key := fun h => hk h.symm
      simp [addPart, hk, hne]
  | cons entry entries ih =>
    obtain ⟨k', c⟩ := entry
    rw [addPart]
    by_cases hk' : k' = key
    · rw [if_pos hk']
      subst hk'
      by_cases hk : k' = k
      · simp [Container.withPart, hk]
      · have hne : (k == k') = false := by simpa using fun h => hk h.symm
        simp [List.lookup_cons, hk, hne]
    · rw [if_neg hk', List.lookup_cons, ih, List.lookup_cons]
      by_cases hk : key = k
      · subst hk
        have hne : (key == k') = false := by simpa using fun h => hk' h.symm
        simp [hne]
      · simp only [if_neg hk]

/-- Entering a key only when it is new keeps the first entry of every key. -/
theorem lookup_enterNew (entries : List (Key × Provider)) (p : Provider) (k : Key) :
    (match entries.lookup key with
      | some _ => entries
      | none => entries ++ [(key, p)]).lookup k
      = (entries.lookup k).or (if key = k then some p else none) := by
  by_cases hk : key = k
  · subst hk
    cases hl : entries.lookup key with
    | some first => simp [hl]
    | none => simp [List.lookup_append, hl]
  · have hne : (k == key) = false := by simpa using fun h => hk h.symm
    cases hl : entries.lookup key with
    | some first => simp [hk]
    | none => simp [List.lookup_append, List.lookup_cons, hne, hk]

/-- Entering a finding adds the owner that it names, if it names one. -/
theorem owners_enter : (c.enter f).owners = c.owners ++ (Finding.owner? f).toList := by
  cases f with
  | owner o => rfl
  | binding key p =>
    rw [enter]
    cases c.bindings.lookup key <;> exact (List.append_nil _).symm
  | requirement key p =>
    simp only [enter]
    cases c.requirements.lookup key <;> exact (List.append_nil _).symm
  | part b key p => exact (List.append_nil _).symm
  | problem d => exact (List.append_nil _).symm

/-- Entering a finding adds the requirement that it names, if it names one. -/
theorem requirementMembers_enter : (c.enter f).requirementMembers
    = c.requirementMembers ++ (Finding.requirementMember? f).toList := by
  cases f with
  | requirement key p =>
    simp only [enter]
    cases c.requirements.lookup key <;> rfl
  | binding key p =>
    rw [enter]
    cases c.bindings.lookup key <;> exact (List.append_nil _).symm
  | owner o => exact (List.append_nil _).symm
  | part b key p => exact (List.append_nil _).symm
  | problem d => exact (List.append_nil _).symm

/-- A binding that is entered is found unless its key has one already. -/
theorem lookup_bindings_enter : (c.enter f).bindings.lookup key
    = (c.bindings.lookup key).or (Finding.provider? key f) := by
  cases f with
  | binding k p =>
    rw [Finding.provider?, ← lookup_enterNew, enter]
    cases c.bindings.lookup k <;> rfl
  | requirement k p =>
    simp only [enter]
    cases c.requirements.lookup k <;> exact Option.or_none.symm
  | owner o => exact Option.or_none.symm
  | part b k p => exact Option.or_none.symm
  | problem d => exact Option.or_none.symm

/-- A requirement that is entered is found unless its key has one already. -/
theorem lookup_requirements_enter : (c.enter f).requirements.lookup key
    = (c.requirements.lookup key).or (Finding.requirement? key f) := by
  cases f with
  | requirement k p =>
    rw [Finding.requirement?, ← lookup_enterNew]
    simp only [enter]
    cases c.requirements.lookup k <;> rfl
  | binding k p =>
    rw [enter]
    cases c.bindings.lookup k <;> exact Option.or_none.symm
  | owner o => exact Option.or_none.symm
  | part b k p => exact Option.or_none.symm
  | problem d => exact Option.or_none.symm

/-- A part that is entered joins the container of its key. -/
theorem lookup_containers_enter : (c.enter f).containers.lookup key
    = match Finding.part? key f with
      | none => c.containers.lookup key
      | some (b, p) => some (Container.withPart b p (c.containers.lookup key)) := by
  cases f with
  | part b k p =>
    rw [Finding.part?, enter]
    dsimp only
    rw [lookup_addPart]
    by_cases hk : k = key
    · rw [if_pos hk, if_pos hk]
    · rw [if_neg hk, if_neg hk]
  | binding k p =>
    rw [enter]
    cases c.bindings.lookup k <;> rfl
  | requirement k p =>
    simp only [enter]
    cases c.requirements.lookup k <;> rfl
  | owner o => rfl
  | problem d => rfl

end Entering

/-- What is found in a list with one more entry is what was found before, and what that entry gives.
-/
theorem filterMap_snoc {α β : Type} (g : α → Option β) (l : List α) (a : α) :
    (l ++ [a]).filterMap g = l.filterMap g ++ (g a).toList := by
  rw [List.filterMap_append]
  cases hg : g a <;> simp [hg]

/-- Entering a finding keeps the description. -/
theorem Describes.enter {c : Catalogue} {found : List Finding} (h : Describes c found)
    (f : Finding) : Describes (c.enter f) (found ++ [f]) where
  owners := by rw [owners_enter, h.owners, filterMap_snoc]
  bindings key := by
    rw [lookup_bindings_enter, h.bindings, filterMap_snoc, List.head?_append, Option.head?_toList]
  containers key := by
    rw [lookup_containers_enter, h.containers, filterMap_snoc]
    cases Finding.part? key f with
    | none => rw [Option.toList_none, List.append_nil]
    | some part => rw [Option.toList_some, Container.ofParts_append]
  requirements key := by
    rw [lookup_requirements_enter, h.requirements, filterMap_snoc, List.head?_append,
      Option.head?_toList]
  requirementMembers := by rw [requirementMembers_enter, h.requirementMembers, filterMap_snoc]

/-- The catalogue of findings is described by them. -/
theorem describes_ofFindings (component : Classifier) (found : List Finding) :
    Describes (ofFindings component found) found := by
  have hgen : ∀ (rest done : List Finding) (c : Catalogue), Describes c done →
      Describes (rest.foldl Catalogue.enter c) (done ++ rest) := by
    intro rest
    induction rest with
    | nil =>
      intro done c h
      rw [List.append_nil]
      exact h
    | cons f rest ih =>
      intro done c h
      have hrest := ih (done ++ [f]) (c.enter f) (h.enter f)
      rw [List.append_assoc] at hrest
      exact hrest
  exact hgen found [] { component } ⟨rfl, fun _ => rfl, fun _ => rfl, fun _ => rfl, rfl⟩

end Catalogue

end Wiring
