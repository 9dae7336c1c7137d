import Wiring.Proofs.Component.Caches
import Wiring.Proofs.Emit.Processing
import Wiring.Proofs.Resolve.Origins
import Wiring.Proofs.Text.Literals

/-!
# Keys of caches in source text

A value that is kept in a cache is looked up under a key that stands in the generated source as a
string literal. Whatever characters the key has, the literal ends where it is closed and stands for
the key, so a cache keeps apart in the generated code what the plan keeps apart. Every part of a
plan is written somewhere in the file of its component, and so is every such key.
-/

namespace Wiring

/-- The member that a plan calls, and the arguments of the call. -/
def Plan.memberCall? : Plan → Option (Callable × List Plan)
  | call _ f args | extensionCall _ f _ args => some (f, args)
  | _ => none

namespace Resolver

variable {m : Model} {o : Options} {c : Classifier} {root : Request} {whole part : Plan}
  {f : Callable} {args : List Plan}

/-- A property is called without arguments. -/
theorem args_eq_nil_of_property (hc : c ∈ m.classifiers)
    (ha : (Component.resolver m o c).answer root = .ok whole) (hpart : part.Within whole)
    (h : part.memberCall? = some (f, args)) (hk : f.kind = .property) : args = [] := by
  have he : part.isEntered = true := by
    cases part with
    | call | extensionCall => rfl
    | _ => cases h
  obtain ⟨q, _, _, _, candidate, s, _, hcand, ht, hv⟩ := exists_visit_of_within hc ha hpart he
  obtain ⟨context, plans, _, hplans, rfl⟩ := visit_eq_ok_iff.1 hv
  cases s with
  | member p =>
    obtain ⟨l, _, hf, _⟩ := exists_level_of_task hcand ht
    obtain ⟨d, _, hmember⟩ := List.mem_flatMap.1 (Classifier.mem_of_mem_dropOverridden hf)
    rw [needs] at hplans
    rw [Subject.plan] at h
    cases hr : p.callable.receiver with
    | none =>
      rw [hr] at h hplans
      cases h
      rw [Emit.params_of_property hmember hk] at hplans
      cases hplans
      rfl
    | some type =>
      rw [hr] at h hplans
      cases h
      rw [Emit.params_of_property hmember hk] at hplans
      cases hplans with
      | cons _ hnil =>
        cases hnil
        rfl
  | constructor => cases h
  | lambda => cases h
  | function => cases h

end Resolver

namespace Emit

open Text Literal Component

variable {m : Model} {o : Options} {c : Classifier} {r : ProviderPlan} {whole child part : Plan}
  {f : Callable} {args : List Doc} {call d : Doc} {s source key : String} {accessor : Option String}

/-! ### What is written of a plan -/

/-- Plans one after the other are written one by one. -/
theorem expressions_eq_map (plans : List Plan) : expressions plans = plans.map expression := by
  induction plans with
  | nil => rfl
  | cons p plans ih => rw [expressions, ih, List.map_cons]

/-- What a call shows is shown if the call is made through an accessor. -/
theorem shows_through (h : call.Shows s) : (through accessor call).Shows s := by
  cases accessor with
  | none => exact h
  | some a => exact h.concat (List.mem_cons_of_mem _ (List.mem_cons_self ..))

/-- What a call shows is shown if the component of an accessor is entered for it. -/
theorem shows_inside (h : call.Shows s) : (inside accessor call).Shows s := by
  cases accessor with
  | none => exact h
  | some a => exact h.block

/-- What an argument of a function shows is shown by the call. -/
theorem exists_shows_of_mem_args (hk : f.kind = .function) (hd : d ∈ args) (h : d.Shows s) :
    ∃ e ∈ callParts f args, e.Shows s := by
  rw [callParts, hk]
  exact ⟨_, List.mem_cons_of_mem _ (List.mem_cons_self ..), h.delimited hd⟩

/-- What is shown of a part is shown of the plan that is directly made of it, when it calls
properties without arguments. -/
theorem shows_expression_of_mem_children (h : child ∈ whole.children)
    (hproperty : ∀ f args, whole.memberCall? = some (f, args) → f.kind = .property → args = [])
    (hs : (expression child).Shows s) : (expression whole).Shows s := by
  have hmem : ∀ {plans : List Plan}, child ∈ plans → expression child ∈ expressions plans := by
    intro plans hplans
    rw [expressions_eq_map]
    exact List.mem_map_of_mem hplans
  -- Arguments are written behind functions only.
  have hfunction : ∀ {f args}, whole.memberCall? = some (f, args) → child ∈ args →
      f.kind = .function := by
    intro f args hcall hargs
    cases hk : f.kind with
    | function => rfl
    | property =>
      rw [hproperty f args hcall hk] at hargs
      exact absurd hargs List.not_mem_nil
  cases whole with
  | call a f args =>
    obtain ⟨e, he, hshows⟩ := exists_shows_of_mem_args (hfunction rfl h) (hmem h) hs
    rw [expression]
    exact shows_through (hshows.concat he)
  | extensionCall a f receiver args =>
    rw [expression]
    refine shows_inside ?_
    rcases List.mem_cons.1 h with rfl | h
    · exact hs.concat (List.mem_cons_self ..)
    · obtain ⟨e, he, hshows⟩ := exists_shows_of_mem_args (hfunction rfl h) (hmem h) hs
      exact hshows.concat (List.mem_cons_of_mem _ (List.mem_cons_of_mem _ he))
  | cached a owner key inner =>
    rw [List.mem_singleton.1 h] at hs
    rw [expression]
    exact hs.block
  | construct k args =>
    rw [expression]
    exact (hs.delimited (hmem h)).concat (List.mem_cons_of_mem _ (List.mem_cons_self ..))
  | container b parts =>
    rw [expression]
    exact (hs.delimited (hmem h)).concat (List.mem_cons_of_mem _ (List.mem_cons_self ..))
  | function params body =>
    rw [List.mem_singleton.1 h] at hs
    rw [expression, lambda]
    split <;> exact hs.block
  | namedFunction f params args =>
    have hcall : (Doc.concat [.text f.callName, .delimited "(" (expressions args) ")"]).Shows s :=
      (hs.delimited (hmem h)).concat (List.mem_cons_of_mem _ (List.mem_cons_self ..))
    rw [expression, lambda]
    split <;> exact hcall.block
  | arg name => exact absurd h List.not_mem_nil
  | lazy inner =>
    rw [List.mem_singleton.1 h] at hs
    rw [expression]
    exact hs.block

/-- What is shown of a part of a plan of a component is shown of the plan. -/
theorem shows_expression_of_within (hc : c ∈ m.classifiers) (hr : r ∈ (plan m o c).providers)
    (hpart : part.Within r.plan) (hs : (expression part).Shows s) :
    (expression r.plan).Shows s := by
  have ha := answer_of_mem_providers hr
  -- From the part upwards, every plan on the way shows the text.
  suffices hup : ∀ above, above.Within r.plan → part.Within above → (expression above).Shows s from
    hup r.plan .refl hpart
  intro above habove hbelow
  induction hbelow using Relation.ReflTransGen.head_induction_on with
  | refl => exact hs
  | head hchild _ ih =>
    exact shows_expression_of_mem_children hchild
      (fun f args => Resolver.args_eq_nil_of_property hc ha habove) (ih (habove.tail hchild))

/-- What the expression of a plan shows is shown in the member that returns it. -/
theorem shows_member (h : (expression r.plan).Shows s) : (member r).Shows s := by
  rw [member]
  cases r.callable.kind with
  | property =>
    have hbody : (Doc.concat [.hardLine, .text "get() = ", expression r.plan]).Shows s :=
      h.concat (List.mem_cons_of_mem _ (List.mem_cons_of_mem _ (List.mem_cons_self ..)))
    exact hbody.indent.concat (List.mem_cons_of_mem _ (List.mem_cons_self ..))
  | function => exact h.concat (List.mem_cons_of_mem _ (List.mem_cons_self ..))

/-- What is shown of a part of a plan stands in the file of the component. -/
theorem contains_generate_of_within (hc : c ∈ m.classifiers) (hr : r ∈ (plan m o c).providers)
    (hpart : part.Within r.plan) (hs : (expression part).Shows s) :
    Contains (generate m o c).file.contents s := by
  have hmember : member r ∈ members (constructorParams m (plan m o c).component) (plan m o c) :=
    List.mem_append_right _ (List.mem_map_of_mem hr)
  exact contains_generate (shows_componentClass_of_mem hmember
    (shows_member (shows_expression_of_within hc hr hpart hs)))

/-! ### Keys -/

/-- The text that opens the expression of a value from a cache. -/
def lookUp (accessor : Option String) (key : String) : String :=
  cache accessor ++ ".get(\"" ++ escape key ++ "\") \x7b"

/-- A look-up is the cache, its getter, and the key as a literal in quotes. -/
theorem toList_lookUp (accessor : Option String) (key : String) :
    (lookUp accessor key).toList = (cache accessor ++ ".get(").toList ++
      '"' :: (encode key.toList ++ '"' :: ") \x7b".toList) := by
  simp only [lookUp, escape, String.toList_append, String.toList_ofList, List.append_assoc]
  rfl

/-- Somewhere in a source text a value is taken from the cache reached by an accessor, under the key
that the literal there is read as. -/
def LooksUp (source : String) (accessor : Option String) (key : String) : Prop :=
  ∃ before behind after, source.toList = before ++ (cache accessor ++ ".get(").toList ++ behind ∧
    Begins behind key.toList (") \x7b".toList ++ after)

/-- What stands behind the literal of a key in generated source is no quote. -/
theorem begins_lookUp (key : String) (after : List Char) :
    Begins ('"' :: (encode key.toList ++ '"' :: (") \x7b".toList ++ after))) key.toList
      (") \x7b".toList ++ after) :=
  (begins_iff fun h => by cases h).2 ⟨rfl, rfl⟩

/-- A text that a look-up is in looks the key up. -/
theorem looksUp_of_contains (h : Contains source (lookUp accessor key)) :
    LooksUp source accessor key := by
  obtain ⟨before, after, rfl⟩ := h
  refine ⟨before.toList, _, after.toList, ?_, begins_lookUp key after.toList⟩
  simp only [String.toList_append, toList_lookUp, List.append_assoc, List.cons_append]

/-- Texts that open with the same cache and go on with different keys are different. -/
theorem eq_of_lookUp_append {key' more more' : String}
    (h : lookUp accessor key ++ more = lookUp accessor key' ++ more') : key = key' := by
  have hlist := congrArg String.toList h
  simp only [String.toList_append, toList_lookUp, List.append_assoc, List.cons_append] at hlist
  have hbehind := (List.cons.inj (List.append_cancel_left (List.append_cancel_left hlist))).2
  have hkey := reads_encode key.toList (") \x7b".toList ++ more.toList)
  rw [hbehind] at hkey
  exact String.toList_inj.1 (hkey.unique (reads_encode key'.toList _)).1

/-- A key gets through generated source as it is. -/
structure KeySurvives (key : String) : Prop where
  /-- The body of its literal is read as the key. -/
  decoded : decode (escape key).toList = some key.toList
  /-- No line feed stands in the body. -/
  unbroken : '\n' ∉ (escape key).toList
  /-- Every quote and every dollar sign in the body has an odd number of backslashes before it. -/
  escaped : ∀ before c after, (escape key).toList = before ++ c :: after → c = '"' ∨ c = '$' →
    Odd (closingBackslashes before)
  /-- With anything but a quote behind it, the literal is read as the key and ends where it is
  closed, and in no other way. -/
  closed : ∀ behind, behind.head? ≠ some '"' → ∀ text rest,
    Begins ('"' :: ((escape key).toList ++ '"' :: behind)) text rest ↔
      text = key.toList ∧ rest = behind
  /-- No other key has this body. -/
  apart : ∀ key', escape key' = escape key → key' = key
  /-- What takes a value from the same cache under another key is different source text. -/
  distinct : ∀ page page' accessor owner owner' inner inner' key',
    (expression (.cached accessor owner key' inner')).render page'
      = (expression (.cached accessor owner' key inner)).render page → key' = key
  /-- Wherever a plan of a component takes a value from a cache under the key, the file of the
  component does. -/
  written : ∀ m o, ∀ c ∈ m.classifiers, ∀ r ∈ (plan m o c).providers, ∀ accessor owner inner,
    (Plan.cached accessor owner key inner).Within r.plan →
      LooksUp (generate m o c).file.contents accessor key

/-- Every key gets through, whatever characters it has. -/
theorem keySurvives (key : String) : KeySurvives key where
  decoded := by rw [escape, String.toList_ofList, decode_encode]
  unbroken := by
    rw [escape, String.toList_ofList]
    exact lineFeed_not_mem_encode key.toList
  escaped before c after h hc := by
    rw [escape, String.toList_ofList] at h
    exact odd_closingBackslashes hc h
  closed behind hbehind text rest := by
    rw [escape, String.toList_ofList]
    exact begins_iff hbehind
  apart key' h := String.toList_inj.1 (encode_injective (String.ofList_inj.1 h))
  distinct page page' accessor owner owner' inner inner' key' h := by
    obtain ⟨more, hmore⟩ := Doc.exists_render_block page (lookUp accessor key) (expression inner)
    obtain ⟨more', hmore'⟩ :=
      Doc.exists_render_block page' (lookUp accessor key') (expression inner')
    rw [expression, expression] at h
    exact eq_of_lookUp_append (hmore'.symm.trans (h.trans hmore))
  written m o c hc r hr accessor owner inner hpart := by
    refine looksUp_of_contains (contains_generate_of_within hc hr hpart ?_)
    rw [expression]
    exact Doc.shows_block _ _

end Emit

end Wiring
