import Wiring.Proofs.Catalogue.Losses
import Wiring.Proofs.Catalogue.Multibindings
import Wiring.Proofs.Catalogue.Requirements

/-!
# Which binding of a key counts

Members compete for keys: those that provide a value by themselves, and those that a parent
implements for its child. Of the candidates for one key the first in the order of collection is its
binding, whatever else could satisfy the key. A later one is reported together with the first when
both are reached by one path, and is passed over in silence otherwise. Nothing else is reported as a
second binding.
-/

namespace Wiring

open Annotation renaming component → componentMark
open Catalogue

namespace Collect

variable {m : Model} {o : Options} {c : Classifier} {key : Key} {n : Level × Callable}

/-- A member provides a value by itself, and is accepted. -/
@[mk_iff]
structure Provided (m : Model) (n : Level × Callable) : Prop where
  provides : Role.isProvides n.2 = true
  no_element : Role.isIntoSet n.2 = false
  no_entry : Role.isIntoMap n.2 = false
  visible : n.2.isPrivate = false
  value : (n.2.returnsFor m n.1.component).isUnit = false

/-- A member asks for a value, and belongs to a parent, which implements it. -/
@[mk_iff]
structure Implemented (n : Level × Callable) : Prop where
  asks : Role.isProvider n.2 = true
  parent : n.1.accessor.isSome = true

instance : DecidablePred (Provided m) := fun n => decidable_of_iff' _ (provided_iff m n)

instance : DecidablePred Implemented := fun n => decidable_of_iff' _ (implemented_iff n)

/-- The members that compete for keys, in the order of collection. -/
def candidates (m : Model) (o : Options) (c : Classifier) : List (Level × Callable) :=
  (gathered m o c).filter fun n => Provided m n ∨ Implemented n

/-- The key of what a member returns, seen from the component of its level. -/
def resultKey (m : Model) (o : Options) (n : Level × Callable) : Key :=
  askedKey m o n.1.component n.2

/-- A member that competes binds the key of its result, and no other member binds a key. -/
theorem bindsKey_eq (m : Model) (o : Options) (n : Level × Callable) : bindsKey m o n.1 n.2
    = if Provided m n ∨ Implemented n then some (resultKey m o n) else none := by
  cases hp : Role.isProvides n.2 with
  | true =>
    have hnot : ¬ Implemented n := fun h => by
      rw [isProvides_of_isProvider h.asks] at hp
      cases hp
    simp only [bindsKey, hp, if_true, provided_iff, hnot, or_false, true_and]
    cases n.2.isPrivate <;> cases (n.2.returnsFor m n.1.component).isUnit <;>
      cases Role.isIntoSet n.2 <;> cases Role.isIntoMap n.2 <;> rfl
  | false =>
    simp only [bindsKey, hp, Bool.false_eq_true, if_false, provided_iff, implemented_iff, false_and,
      false_or, Bool.and_eq_true]
    rfl

/-- The members that bind a key are the candidates for it. -/
theorem binders_eq (m : Model) (o : Options) (c : Classifier) (key : Key) :
    binders m o c key = (candidates m o c).filter (resultKey m o · = key) := by
  have hbinds : ∀ n : Level × Callable, decide (bindsKey m o n.1 n.2 = some key)
      = (decide (resultKey m o n = key) && decide (Provided m n ∨ Implemented n)) := by
    intro n
    rw [bindsKey_eq, ← Bool.decide_and, decide_eq_decide, Option.ite_none_right_eq_some,
      Option.some.injEq, and_comm]
  have hgathered : binders m o c key
      = (gathered m o c).filter fun n => bindsKey m o n.1 n.2 = some key := by
    simp only [binders, gathered, ← allMembers_eq, List.filter_flatMap, List.filter_map,
      Function.comp_def]
  rw [hgathered, candidates, List.filter_filter]
  exact List.filter_congr fun n _ => hbinds n

/-- The values that are found for keys are those of the candidates, in order. -/
theorem entries_findings (m : Model) (o : Options) (c : Classifier) :
    (findings m o c).filterMap Finding.entry?
      = (candidates m o c).map fun n => (resultKey m o n, providerOf o n) := by
  rw [filterMap_findings (fun _ => rfl) (fun _ => rfl), candidates, gathered, List.filter_flatMap,
    List.map_flatMap]
  refine List.flatMap_congr fun l _ => ?_
  rw [← allMembers_eq]
  induction l.component.allMembers m with
  | nil => rfl
  | cons f fs ih =>
    rw [List.flatMap_cons, ih, entries_memberFindings, bindsKey_eq m o (l, f), List.map_cons]
    by_cases h : Provided m (l, f) ∨ Implemented (l, f)
    · simp [h]
    · simp [h]

end Collect

namespace Catalogue

open Collect

variable {m : Model} {o : Options} {c : Classifier}

/-- What is reported of a candidate as a second binding, in the light of the candidates before it:
an error at the candidate and one at the first with its key, when both are reached by one path. -/
def duplicates (m : Model) (o : Options) (before : List (Level × Callable))
    (later : Level × Callable) : List Diagnostic :=
  match before.find? (resultKey m o · = resultKey m o later) with
  | none => []
  | some first =>
    if first.1.accessor = later.1.accessor then
      [.errorAt Code.duplicateBinding ("Cannot provide: " ++ (resultKey m o later).displayText)
          later.2.element,
        .errorAt Code.duplicateBinding "as it is already provided" first.2.element]
    else []

/-- Whether a diagnostic is about two bindings of one key. -/
def isDuplicate (d : Diagnostic) : Bool := d.code = some Code.duplicateBinding

/-- Both errors of a clash are about two bindings of one key. -/
theorem filter_clash (key : Key) (first later : Provider) :
    (clash key first later).filter isDuplicate = clash key first later := by
  refine List.filter_eq_self.2 fun d hd => ?_
  obtain ⟨_, rfl | rfl⟩ := mem_clash_iff.1 hd <;> rfl

/-- What is reported of an entry, in the light of the entries before it. -/
def clashes (before : List (Key × Provider)) (e : Key × Provider) : List Diagnostic :=
  (before.find? (·.1 = e.1)).elim [] fun first => clash e.1 first.2 e.2

/-- A finding is reported as a second binding when its entry clashes. -/
theorem filter_reported {x : Finding} (h : x ∈ findings m o c) (before : List Finding) :
    (reported before x).filter isDuplicate
      = x.entry?.elim [] (clashes (before.filterMap Finding.entry?)) := by
  cases x with
  | binding key p =>
    dsimp only [Finding.entry?, Option.elim_some]
    rw [reported, clashes, Finding.filterMap_provider?, List.head?_map, List.head?_filter]
    cases (before.filterMap Finding.entry?).find? (·.1 = key) with
    | none => rfl
    | some first => exact filter_clash key first.2 p
  | problem d =>
    have hcode : isDuplicate d = false := by
      have hmem := code_of_mem_findings h
      simp only [List.mem_cons, List.not_mem_nil, or_false] at hmem
      rcases hmem with hd | hd | hd <;> rw [isDuplicate, hd] <;> decide
    rw [reported, List.filter_cons_of_neg (Bool.eq_false_iff.1 hcode), List.filter_nil]
    rfl
  | owner => rfl
  | part => rfl
  | requirement => rfl

/-- The explicit bindings of a component, told from the candidates for its keys. -/
structure Precedence (m : Model) (o : Options) (c : Classifier) : Prop where
  /-- The levels are what a descent through component parameters enters. -/
  descends : ∀ places, places = (levels m o c).map Level.place ↔
    ∃ last, Walk.Descent (fun p : Place => p.component.path) (Place.parents m) [] [⟨c, none⟩]
      places last
  once : ((levels m o c).map (·.component.path)).Nodup ∧ (candidates m o c).Nodup
  /-- Only a candidate is an explicit binding, and it is the first one with the key. -/
  bound : ∀ key, (collect m o c).bindings.lookup key
    = ((candidates m o c).find? (resultKey m o · = key)).map (providerOf o)
  /-- The first candidate wins, whatever else there is for the key. -/
  wins : ∀ key n, (candidates m o c).find? (resultKey m o · = key) = some n →
    ∀ skipOwn, (collect m o c).resolve m o key skipOwn = .ok (some (.provider (providerOf o n)))
  /-- Second bindings are reported candidate by candidate, and in no other case. -/
  reports : (collect m o c).diagnostics.filter isDuplicate
    = inTurn (duplicates m o) [] (candidates m o c)
  /-- Where paths can be told apart, candidates that are reached by one path are of one level. -/
  apart : PathsApart m o c → ∀ n ∈ candidates m o c, ∀ n' ∈ candidates m o c,
    n.1.accessor = n'.1.accessor → n.1 = n'.1

/-- The errors about second bindings are those of the candidates, in order. -/
theorem filter_isDuplicate_collect (m : Model) (o : Options) (c : Classifier) :
    (collect m o c).diagnostics.filter isDuplicate
      = inTurn (duplicates m o) [] (candidates m o c) := by
  let entry (n : Level × Callable) : Key × Provider := (resultKey m o n, providerOf o n)
  have hduplicates : ∀ before n,
      clashes (before.map entry) (entry n) = duplicates m o before n := by
    intro before n
    have hfirst : (before.map entry).find? (·.1 = (entry n).1)
        = (before.find? (resultKey m o · = resultKey m o n)).map entry := List.find?_map
    rw [clashes, hfirst, duplicates]
    cases before.find? (resultKey m o · = resultKey m o n) with
    | none => rfl
    | some first => rfl
  calc (collect m o c).diagnostics.filter isDuplicate
    _ = inTurn (fun before x => (reported before x).filter isDuplicate) [] (findings m o c) := by
      rw [collect, diagnostics_ofFindings, filter_inTurn]
    _ = inTurn clashes [] ((findings m o c).filterMap Finding.entry?) := by
      rw [inTurn_congr fun x hx before => filter_reported hx before]
      exact (inTurn_filterMap Finding.entry? clashes [] _).symm
    _ = inTurn clashes [] ((candidates m o c).map entry) := by rw [entries_findings]
    _ = inTurn (duplicates m o) [] (candidates m o c) := by
      refine (inTurn_map entry clashes [] _).trans ?_
      exact inTurn_congr (fun n _ before => hduplicates before n) []

/-- Explicit bindings go by the order of collection, in all programs. -/
theorem precedence (m : Model) (o : Options) (c : Classifier) : Precedence m o c where
  descends := eq_places_iff
  once := ⟨nodup_levels m o c, (nodup_gathered m o c).filter _⟩
  bound key := by rw [lookup_bindings_collect, binders_eq, List.head?_filter]
  wins key n hn := by
    refine resolve_of_binders ?_
    rw [binders_eq, List.head?_filter, hn]
  reports := filter_isDuplicate_collect m o c
  apart h n hn n' hn' := by
    have hl := (mem_gathered_iff.1 (List.mem_of_mem_filter hn)).1
    have hl' := (mem_gathered_iff.1 (List.mem_of_mem_filter hn')).1
    exact h.eq_of_accessor hl hl'

/-- An office with a branch, which provides a desk twice. -/
def office : ClassDecl :=
  Sketch.component "Office" []
    [Sketch.param "branch" (Sketch.type "Branch") [componentMark]]
    [Sketch.requirement "lamp" (Sketch.type "Lamp") [],
      Sketch.provider "desk" [] (Sketch.type "Desk") [],
      Sketch.provider "spare" [] (Sketch.type "Desk") []]

/-- The program of the office, where the branch has a desk and two lamps. -/
def officeProgram : Model :=
  Sketch.program [office,
    Sketch.component "Branch" [] []
      [Sketch.requirement "desk" (Sketch.type "Desk") [],
        Sketch.provider "lamp" [] (Sketch.type "Lamp") [],
        Sketch.provider "torch" [] (Sketch.type "Lamp") []],
    Sketch.injectable "Desk" [] [], Sketch.plain "Lamp"]

/-- The own desk wins over the class and the desk of the branch. The spare desk and the torch are
reported, each with what is bound before it, and the desk of the branch is not. -/
theorem precedence_office :
    Precedence officeProgram {} ⟨0, office, false⟩ ∧
    (collect officeProgram {} ⟨0, office, false⟩).bindings.map (fun e =>
        (e.1.displayText, e.2.callable.name, e.2.accessor))
      = [("app.Desk", "desk", none), ("app.Lamp", "lamp", some "branch")] ∧
    (collect officeProgram {} ⟨0, office, false⟩).diagnostics.map (fun d =>
        (d.message, d.element.map (·.id.path)))
      = [("Cannot provide: app.Desk", some "app.Office.spare()"),
        ("as it is already provided", some "app.Office.desk()"),
        ("Cannot provide: app.Lamp", some "app.Branch.torch()"),
        ("as it is already provided", some "app.Branch.lamp()")] :=
  ⟨precedence officeProgram {} ⟨0, office, false⟩, by decide +kernel, by decide +kernel⟩

end Catalogue

end Wiring
