import Wiring.Element

/-!
# Resolution paths

The elements that are being resolved, most recent first. An element is entered only when it is not
yet on the path, so a path that starts without repetitions never gets one.
-/

namespace Wiring

/-- The elements being resolved, most recent first. -/
structure ResolutionPath where
  elements : List Element := []
  deriving Repr, Inhabited

namespace ResolutionPath

/-- Whether an element is being resolved. -/
def contains (p : ResolutionPath) (e : Element) : Bool := p.elements.any (·.same e)

/-- The path with an element in front; none when it is on the path already. -/
def enter? (p : ResolutionPath) (e : Element) : Option ResolutionPath :=
  if p.contains e then none else some ⟨e :: p.elements⟩

/-- The path without its most recent element. -/
def leave (p : ResolutionPath) : ResolutionPath := ⟨p.elements.tail⟩

/-- The number of elements on the path. -/
def depth (p : ResolutionPath) : Nat := p.elements.length

/-- How the elements on the path are shown, most recent first. -/
def trace (p : ResolutionPath) : List String := p.elements.map (·.trace)

/-- What is entered is put on top of the path. -/
theorem enter?_eq_some {p q : ResolutionPath} {e : Element} (h : p.enter? e = some q) :
    q.elements = e :: p.elements := by
  simp only [enter?] at h
  split at h
  · simp at h
  · cases h
    rfl

/-- Leaving undoes entering. -/
theorem leave_of_enter? {p q : ResolutionPath} {e : Element} (h : p.enter? e = some q) :
    q.leave = p := by
  simp [leave, enter?_eq_some h]

/-- Entering keeps the identities on a path distinct. -/
theorem nodup_of_enter? {p q : ResolutionPath} {e : Element} (h : p.enter? e = some q)
    (hp : (p.elements.map (·.id)).Nodup) : (q.elements.map (·.id)).Nodup := by
  have hq := enter?_eq_some h
  have hn : p.contains e = false := by
    cases hc : p.contains e with
    | false => rfl
    | true => simp [enter?, hc] at h
  rw [hq, List.map_cons, List.nodup_cons]
  refine ⟨?_, hp⟩
  intro hmem
  obtain ⟨x, hx, hid⟩ := List.mem_map.1 hmem
  have : p.contains e = true := by
    simp only [contains, List.any_eq_true]
    exact ⟨x, hx, by simp [Element.same, hid]⟩
  rw [hn] at this
  cases this

end ResolutionPath

end Wiring
