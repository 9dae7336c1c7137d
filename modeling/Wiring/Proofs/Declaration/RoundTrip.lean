import Wiring.Declaration.Decoding
import Wiring.Declaration.Encoding
import Wiring.Proofs.Type.RoundTrip

/-!
# Declarations read again

Declarations are written in one way and read in many. A type may be a name or an object, fields may
stand in any order, and most of them may be left out. What is written is read as what it was written
from, kind by kind of declaration: every field that a record has is put back where it was taken
from. So the written form is a normal form of everything that is read as the same declarations.
-/

namespace Wiring

namespace Json

variable {α β : Type} {a : α} {fields : List (String × Json)}

namespace Record

variable {r : Record α}

/-- Fields are put into a record one after the other. -/
inductive Fills (r : Record α) : α → List (String × Json) → α → Prop where
  | done {a : α} : Fills r a [] a
  | put {a b c : α} {key : String} {j : Json} {fields : List (String × Json)}
      (h : r.put a key j = .ok b) (hr : Fills r b fields c) : Fills r a ((key, j) :: fields) c

/-- Plain fields that a record has, none of them twice and none missing, are read by putting them
into it. -/
theorem Fills.readObject {b : α} {seen : List String} (h : Fills r a fields b)
    (hplain : allPlainFields fields = true)
    (hknown : ∀ key ∈ fields.map (·.1), key ∈ r.fields ∧ key ∉ seen)
    (hnodup : (fields.map (·.1)).Nodup)
    (hrequired : ∀ key ∈ r.required, key ∈ seen ∨ key ∈ fields.map (·.1)) :
    r.readObject seen a fields = .ok b := by
  induction h generalizing seen with
  | done =>
    have hall : r.required.all (· ∈ seen) = true := List.all_eq_true.2 fun key hkey =>
      decide_eq_true ((hrequired key hkey).resolve_right List.not_mem_nil)
    rw [Record.readObject, finish, if_pos hall]
  | @put a b c key j fields h _ ih =>
    rw [allPlainFields, Bool.and_eq_true] at hplain
    rw [List.map_cons, List.forall_mem_cons] at hknown
    rw [List.map_cons, List.nodup_cons] at hnodup
    have hread : r.readObject seen a ((key, j) :: fields)
        = r.put a key j >>= fun a => r.readObject (key :: seen) a fields := by
      rw [Record.readObject, if_pos hknown.1.1, if_neg hknown.1.2]
      rintro name value rfl
      cases hplain.1
    rw [hread, h]
    refine ih hplain.2 (fun k hk => ⟨(hknown.2 k hk).1, ?_⟩) hnodup.2 fun k hk => ?_
    · rw [List.mem_cons, not_or]
      exact ⟨fun he => hnodup.1 (he ▸ hk), (hknown.2 k hk).2⟩
    · rcases hrequired k hk with hseen | hmem
      · exact .inl (List.mem_cons_of_mem _ hseen)
      · rcases List.mem_cons.1 hmem with rfl | hmem
        · exact .inl (List.mem_cons_self ..)
        · exact .inr hmem

/-- An object whose fields stand in the order of a record, with none missing that is required, is
read by putting them into it. -/
theorem Fills.decode (h : Fills r r.start fields a) (hplain : (Json.object fields).isPlain = true)
    (hfields : (fields.map (·.1)).Sublist r.fields) (hnodup : r.fields.Nodup)
    (hrequired : r.required ⊆ fields.map (·.1)) : r.decode (.object fields) = .ok a :=
  h.readObject hplain (fun _ hkey => ⟨hfields.subset hkey, List.not_mem_nil⟩) (hfields.nodup hnodup)
    fun _ hkey => .inr (hrequired hkey)

/-- So is an object that has all fields of the record. -/
theorem Fills.decode_all (h : Fills r r.start fields a)
    (hplain : (Json.object fields).isPlain = true) (hfields : fields.map (·.1) = r.fields)
    (hnodup : r.fields.Nodup) (hrequired : r.required ⊆ r.fields) :
    r.decode (.object fields) = .ok a :=
  h.decode hplain (hfields ▸ .refl _) hnodup (hfields ▸ hrequired)

end Record

/-- What is written in one way is read in another. It is plain and never `null`. -/
structure ReadsBack (encode : α → Json) (decode : Json → Except Fault α) : Prop where
  reads : ∀ a, decode (encode a) = .ok a
  plain : ∀ a, (encode a).isPlain = true
  present : ∀ a, encode a ≠ .null

/-- What is computed from a result is a result. -/
theorem map_ok {x : Except Fault α} (f : α → β) (h : x = .ok a) : x.map f = .ok (f a) := by
  rw [h]
  rfl

/-- A result that is there is no fault. -/
theorem ok_of_toOption {x : Except Fault α} (h : x.toOption = some a) : x = .ok a := by
  cases x with
  | error fault => cases h
  | ok b =>
    cases h
    rfl

namespace ReadsBack

variable {encode : α → Json} {decode : Json → Except Fault α}

/-- A text is read back from a string. -/
theorem text : ReadsBack Json.string toText := ⟨fun _ => rfl, fun _ => rfl, nofun⟩

/-- A list is read back if its entries are. -/
theorem toList (h : ReadsBack encode decode) (as : List α) :
    (Json.array (as.map encode)).toList decode = .ok as := by
  have hitems : decodeItems decode (as.map encode) = .ok as := by
    induction as with
    | nil => rfl
    | cons a as ih =>
      rw [List.map_cons, decodeItems, h.reads a, ih]
      rfl
  exact hitems

/-- An optional value is read back if the value is. -/
theorem toOption (h : ReadsBack encode decode) (a : Option α) :
    (Json.ofOption encode a).toOption decode = .ok a := by
  cases a with
  | none => rfl
  | some a =>
    have hread : (encode a).toOption decode = (decode (encode a)).map some := by
      rw [Json.toOption]
      exact h.present a
    rw [ofOption, hread, h.reads a]
    rfl

/-- An array of values that are read back is plain. -/
theorem allPlain_map (h : ReadsBack encode decode) (as : List α) :
    allPlain (as.map encode) = true := by
  induction as with
  | nil => rfl
  | cons a as ih => rw [List.map_cons, allPlain, h.plain a, ih, Bool.and_self]

/-- An optional value that is read back is plain as written. -/
theorem isPlain_ofOption (h : ReadsBack encode decode) (a : Option α) :
    (Json.ofOption encode a).isPlain = true := by
  cases a with
  | none => rfl
  | some a => exact h.plain a

/-- A number of 32 bits is read back from its digits. -/
theorem word : ReadsBack (fun n : UInt32 => Json.integer n.toNat) toWord where
  reads n := by
    have hlt := n.toNat_lt
    rw [toWord, if_pos (by omega), Int.toNat_natCast]
    exact congrArg Except.ok (UInt32.ofNat_toNat)
  plain n := by
    have hlt := n.toNat_lt
    rw [isPlain, decide_eq_true_eq]
    omega
  present := nofun

end ReadsBack

end Json

open Json

/-- Types are read back. -/
theorem TypeExpr.readsBack : ReadsBack TypeExpr.toJson TypeExpr.ofJson where
  reads := TypeExpr.ofJson_toJson
  plain := TypeExpr.isPlain_toJson
  present t := by
    obtain ⟨fields, hfields⟩ := t.exists_toJson_eq_object
    rw [hfields]
    nofun

/-- Spans are plain as written. -/
theorem Span.isPlain_toJson (s : Span) : s.toJson.isPlain = true := by
  have hstart := ReadsBack.word.plain s.start
  have hstop := ReadsBack.word.plain s.stop
  rw [toJson, isPlain, allPlainFields, allPlainFields, allPlainFields, hstart, hstop]
  rfl

/-- Spans are read back. -/
theorem Span.readsBack : ReadsBack Span.toJson Span.ofJson where
  plain := Span.isPlain_toJson
  present := nofun
  reads s := by
    have hstart : ∀ (a : Span) (j : Json),
        Span.record.put a "start" j = j.toWord.map fun n => { a with start := n } := fun _ _ => rfl
    have hstop : ∀ (a : Span) (j : Json),
        Span.record.put a "end" j = j.toWord.map fun n => { a with stop := n } := fun _ _ => rfl
    refine Record.Fills.decode_all ?_ s.isPlain_toJson rfl (by decide) (by decide)
    exact .put ((hstart _ _).trans (map_ok _ (ReadsBack.word.reads s.start)))
      (.put ((hstop _ _).trans (map_ok _ (ReadsBack.word.reads s.stop))) .done)

/-- Annotations are plain as written. -/
theorem AnnotationDecl.isPlain_toJson (a : AnnotationDecl) : a.toJson.isPlain = true := by
  have hcarries := ReadsBack.text.allPlain_map a.carries
  simp only [toJson, isPlain, allPlainFields, ofTexts, hcarries, Bool.and_self]

/-- Annotations are read back. -/
theorem AnnotationDecl.readsBack : ReadsBack AnnotationDecl.toJson AnnotationDecl.ofJson where
  plain := AnnotationDecl.isPlain_toJson
  present := nofun
  reads a := by
    refine Record.Fills.decode_all ?_ a.isPlain_toJson rfl (by decide) (by decide)
    exact .put rfl (.put (map_ok _ (ReadsBack.text.toList a.carries)) .done)

/-- Parameters are plain as written. -/
theorem ParamDecl.isPlain_toJson (p : ParamDecl) : p.toJson.isPlain = true := by
  have htype := TypeExpr.readsBack.plain p.type
  have hannotations := ReadsBack.text.allPlain_map p.annotations
  have hspan := Span.readsBack.isPlain_ofOption p.span
  simp only [toJson, isPlain, allPlainFields, ofTexts, htype, hannotations, hspan, Bool.and_self]

/-- Parameters are read back. -/
theorem ParamDecl.readsBack : ReadsBack ParamDecl.toJson ParamDecl.ofJson where
  plain := ParamDecl.isPlain_toJson
  present := nofun
  reads p := by
    refine Record.Fills.decode_all ?_ p.isPlain_toJson rfl (by decide) (by decide)
    exact .put rfl (.put (map_ok _ (TypeExpr.readsBack.reads p.type))
      (.put (map_ok _ (ReadsBack.text.toList p.annotations)) (.put rfl (.put rfl (.put rfl
        (.put (map_ok _ (Span.readsBack.toOption p.span)) .done))))))

/-- Constructors are plain as written. -/
theorem ConstructorDecl.isPlain_toJson (c : ConstructorDecl) : c.toJson.isPlain = true := by
  have hannotations := ReadsBack.text.allPlain_map c.annotations
  have hparams := ParamDecl.readsBack.allPlain_map c.params
  have hspan := Span.readsBack.isPlain_ofOption c.span
  simp only [toJson, isPlain, allPlainFields, ofTexts, hannotations, hparams, hspan, Bool.and_self]

/-- Constructors are read back. -/
theorem ConstructorDecl.readsBack : ReadsBack ConstructorDecl.toJson ConstructorDecl.ofJson where
  plain := ConstructorDecl.isPlain_toJson
  present := nofun
  reads c := by
    refine Record.Fills.decode_all ?_ c.isPlain_toJson rfl (by decide) (by decide)
    exact .put (map_ok _ (ReadsBack.text.toList c.annotations))
      (.put (map_ok _ (ParamDecl.readsBack.toList c.params))
        (.put (map_ok _ (Span.readsBack.toOption c.span)) .done))

/-- Kinds of members are read back from their words. -/
theorem MemberKind.ofJson_word (k : MemberKind) : ofJson (.string k.word) = .ok k := by
  cases k <;> rfl

/-- Members are plain as written. -/
theorem MemberDecl.isPlain_toJson (m : MemberDecl) : m.toJson.isPlain = true := by
  have hparams := ParamDecl.readsBack.allPlain_map m.params
  have hreceiver := TypeExpr.readsBack.isPlain_ofOption m.receiver
  have hreturns := TypeExpr.readsBack.plain m.returns
  have hannotations := ReadsBack.text.allPlain_map m.annotations
  have hspan := Span.readsBack.isPlain_ofOption m.span
  simp only [toJson, isPlain, allPlainFields, ofTexts, hparams, hreceiver, hreturns, hannotations,
    hspan, Bool.and_self]

/-- Members are read back. -/
theorem MemberDecl.readsBack : ReadsBack MemberDecl.toJson MemberDecl.ofJson where
  plain := MemberDecl.isPlain_toJson
  present := nofun
  reads m := by
    refine Record.Fills.decode_all ?_ m.isPlain_toJson rfl (by decide) (by decide)
    exact .put rfl (.put (map_ok _ (MemberKind.ofJson_word m.kind))
      (.put (map_ok _ (ParamDecl.readsBack.toList m.params))
        (.put (map_ok _ (TypeExpr.readsBack.toOption m.receiver))
          (.put (map_ok _ (TypeExpr.readsBack.reads m.returns))
            (.put (map_ok _ (ReadsBack.text.toList m.annotations))
              (.put rfl (.put rfl (.put rfl
                (.put (map_ok _ (Span.readsBack.toOption m.span)) .done)))))))))

/-- Classes are plain as written. -/
theorem ClassDecl.isPlain_toJson (c : ClassDecl) : c.toJson.isPlain = true := by
  have hparameters := ReadsBack.text.allPlain_map c.typeParameters
  have hannotations := ReadsBack.text.allPlain_map c.annotations
  have hsuper := TypeExpr.readsBack.allPlain_map c.superTypes
  have hconstructor := ConstructorDecl.readsBack.isPlain_ofOption c.constructor
  have hmembers := MemberDecl.readsBack.allPlain_map c.members
  have hspan := Span.readsBack.isPlain_ofOption c.span
  simp only [toJson, isPlain, allPlainFields, ofTexts, hparameters, hannotations, hsuper,
    hconstructor, hmembers, hspan, Bool.and_self]

/-- Classes are read back. -/
theorem ClassDecl.readsBack : ReadsBack ClassDecl.toJson ClassDecl.ofJson where
  plain := ClassDecl.isPlain_toJson
  present := nofun
  reads c := by
    refine Record.Fills.decode_all ?_ c.isPlain_toJson rfl (by decide) (by decide)
    exact .put rfl (.put rfl (.put rfl (.put rfl (.put rfl (.put rfl
      (.put (map_ok _ (ReadsBack.text.toList c.typeParameters))
        (.put (map_ok _ (ReadsBack.text.toList c.annotations))
          (.put (map_ok _ (TypeExpr.readsBack.toList c.superTypes))
            (.put (map_ok _ (ConstructorDecl.readsBack.toOption c.constructor))
              (.put (map_ok _ (MemberDecl.readsBack.toList c.members))
                (.put (map_ok _ (Span.readsBack.toOption c.span)) .done)))))))))))

/-- Functions are plain as written. -/
theorem FunctionDecl.isPlain_toJson (f : FunctionDecl) : f.toJson.isPlain = true := by
  have hparams := ParamDecl.readsBack.allPlain_map f.params
  have hreturns := TypeExpr.readsBack.plain f.returns
  have hannotations := ReadsBack.text.allPlain_map f.annotations
  have hspan := Span.readsBack.isPlain_ofOption f.span
  simp only [toJson, isPlain, allPlainFields, ofTexts, hparams, hreturns, hannotations, hspan,
    Bool.and_self]

/-- Functions are read back. -/
theorem FunctionDecl.readsBack : ReadsBack FunctionDecl.toJson FunctionDecl.ofJson where
  plain := FunctionDecl.isPlain_toJson
  present := nofun
  reads f := by
    refine Record.Fills.decode_all ?_ f.isPlain_toJson rfl (by decide) (by decide)
    exact .put rfl (.put rfl (.put (map_ok _ (ParamDecl.readsBack.toList f.params))
      (.put (map_ok _ (TypeExpr.readsBack.reads f.returns))
        (.put (map_ok _ (ReadsBack.text.toList f.annotations))
          (.put (map_ok _ (Span.readsBack.toOption f.span)) .done)))))

/-- Whole declarations are plain as written. -/
theorem Declarations.isPlain_toJson (d : Declarations) : d.toJson.isPlain = true := by
  obtain ⟨source, annotations, classes, functions⟩ := d
  have hannotations := AnnotationDecl.readsBack.allPlain_map annotations
  have hclasses := ClassDecl.readsBack.allPlain_map classes
  have hfunctions := FunctionDecl.readsBack.allPlain_map functions
  cases source with
  | none =>
    simp only [toJson, List.nil_append, isPlain, allPlainFields, hannotations, hclasses, hfunctions,
      Bool.and_self]
  | some name =>
    simp only [toJson, List.cons_append, List.nil_append, isPlain, allPlainFields, hannotations,
      hclasses, hfunctions, Bool.and_self]

/-- Whole declarations are read back. -/
theorem Declarations.readsBack : ReadsBack Declarations.toJson Declarations.ofJson where
  plain := Declarations.isPlain_toJson
  present := nofun
  reads d := by
    have hplain := d.isPlain_toJson
    obtain ⟨source, annotations, classes, functions⟩ := d
    -- The parts that are always written are put in whatever stands before them.
    have hrest : ∀ source, Record.Fills Declarations.record { source }
        [("annotations", .array (annotations.map AnnotationDecl.toJson)),
          ("classes", .array (classes.map ClassDecl.toJson)),
          ("functions", .array (functions.map FunctionDecl.toJson))]
        ⟨source, annotations, classes, functions⟩ := fun source =>
      .put (map_ok _ (AnnotationDecl.readsBack.toList annotations))
        (.put (map_ok _ (ClassDecl.readsBack.toList classes))
          (.put (map_ok _ (FunctionDecl.readsBack.toList functions)) .done))
    cases source with
    | none =>
      exact (hrest none).decode hplain (.cons _ (.refl _)) (by decide) (List.nil_subset _)
    | some name =>
      refine Record.Fills.decode_all ?_ hplain rfl (by decide) (List.nil_subset _)
      exact .put rfl (hrest (some name))

namespace Declarations

/-- The value that the declarations of a value are written as. -/
def normalize (j : Json) : Except Fault Json := (ofJson j).map toJson

/-- The text that the declarations of a text are written as. -/
def normalizeText (text : String) : Except Fault String :=
  ((Json.read text).decode ofJson).map fun d => d.toJson.compact

/-- The written form of declarations is a normal form: they are read from it, as a value and as a
text, and whatever else they are read from is rewritten to it. In a text no more brackets may be
open than the reader allows. -/
structure NormalForm (d : Declarations) : Prop where
  value : ofJson d.toJson = .ok d
  text : d.toJson.nesting ≤ depthLimit → (Json.read d.toJson.compact).decode ofJson = .ok d
  of_value : ∀ j, ofJson j = .ok d →
    normalize j = .ok d.toJson ∧ (normalize j).bind ofJson = .ok d
  of_text : ∀ text, (Json.read text).decode ofJson = .ok d → d.toJson.nesting ≤ depthLimit →
    normalizeText text = .ok d.toJson.compact ∧
      ((normalizeText text).bind fun text => (Json.read text).decode ofJson) = .ok d
  alone : ∀ d' : Declarations, d'.toJson = d.toJson → d' = d

/-- Declarations whose compact text is not nested too deep are read back from it. -/
theorem decode_read_compact {d : Declarations} (h : d.toJson.nesting ≤ depthLimit) :
    (Json.read d.toJson.compact).decode ofJson = .ok d := by
  rw [read_compact d.isPlain_toJson h, Document.decode, readsBack.reads d]
  rfl

/-- All declarations have a normal form. -/
theorem normalForm (d : Declarations) : NormalForm d where
  value := readsBack.reads d
  text := decode_read_compact
  of_value j hj := by
    have hnormal : normalize j = .ok d.toJson := map_ok _ hj
    refine ⟨hnormal, ?_⟩
    rw [hnormal]
    exact readsBack.reads d
  of_text text htext hnesting := by
    have hnormal : normalizeText text = .ok d.toJson.compact := map_ok _ htext
    refine ⟨hnormal, ?_⟩
    rw [hnormal]
    exact decode_read_compact hnesting
  alone d' h := by
    have hread := readsBack.reads d'
    rw [h, readsBack.reads d] at hread
    exact (Except.ok.inj hread).symm

/-- A class with a span, whose supertypes are written as a name and as an object. Fields stand in
another order than in the normal form, and some are left out, `null` or unknown. -/
theorem normalForm_loose :
    let text := "\x7b\"classes\":[\x7b\"name\":\"A\",\"superTypes\":[\"app.B\"," ++
      "\x7b\"name\":\"C\"," ++
      "\"arguments\":[\"Int?\"],\"alias\":null\x7d],\"package\":\"app\",\"size\":[1.5]," ++
      "\"span\":\x7b\"end\":9,\"start\":4\x7d\x7d],\"source\":null\x7d"
    let d : Declarations := {
      classes := [{
        package := "app", name := "A", span := some ⟨4, 9⟩
        superTypes := [.ofName "app" "B", .declared "" "C" [.declared "" "Int" [] true] false] }] }
    (Json.read text).decode ofJson = .ok d ∧ d.toJson.nesting ≤ depthLimit ∧
      normalizeText text = .ok d.toJson.compact ∧
      (Json.read d.toJson.compact).decode ofJson = .ok d := by
  intro text d
  have htext : (Json.read text).decode ofJson = .ok d := ok_of_toOption (by decide +kernel)
  have hnesting : d.toJson.nesting ≤ depthLimit := by decide +kernel
  have hnormal := normalForm d
  exact ⟨htext, hnesting, (hnormal.of_text text htext hnesting).1, hnormal.text hnesting⟩

end Declarations

end Wiring
