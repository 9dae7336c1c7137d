import Mathlib.Data.List.TakeWhile
import Wiring.Proofs.Emit.Processing

/-!
# Precedence of options

A switch on the command line comes before the processor options, these before the configuration
file, and the file before the default. Among the processor options the last one that names an option
counts for it, whatever stands between those that do: pairs for the other option and for other
processors change nothing.
-/

namespace Wiring

namespace Options

/-- The options by themselves. -/
inductive Toggle where
  | javax
  | companionExtensions
  deriving DecidableEq

namespace Toggle

/-- The key of the pairs that set an option. -/
def key : Toggle → String
  | javax => "enableJavaxAnnotations"
  | companionExtensions => "generateCompanionExtensions"

/-- The key of an option in a configuration file. -/
def fileKey : Toggle → String
  | javax => "enable-javax-annotations"
  | companionExtensions => "generate-companion-extensions"

/-- The place of an option in a configuration file that gives the options without keys. -/
def place : Toggle → Nat
  | javax => 0
  | companionExtensions => 1

/-- Whether an option is on. -/
def value (o : Options) : Toggle → Bool
  | javax => o.javax
  | companionExtensions => o.companionExtensions

/-- Whether the switch for an option is given. -/
def switched (s : CommandLine.Settings) : Toggle → Bool
  | javax => s.javax
  | companionExtensions => s.companionExtensions

/-- A key names an option, by itself or after one `inject.`. -/
def Names (t : Toggle) (key : String) : Prop := key = t.key ∨ key = "inject." ++ t.key

instance (t : Toggle) (key : String) : Decidable (t.Names key) :=
  inferInstanceAs (Decidable (_ ∨ _))

/-- The pairs that name an option, in order. -/
def pairsFor (t : Toggle) (pairs : List (String × String)) : List (String × String) :=
  pairs.filter fun pair => t.Names pair.1

/-- The value of the last pair that names an option. -/
def lastValue? (t : Toggle) (pairs : List (String × String)) : Option String :=
  (t.pairsFor pairs).getLast?.map (·.2)

end Toggle

open Toggle

variable {t : Toggle} {key text : String} {o : Options} {pairs : List (String × String)}

/-- Options are the same when each of them is. -/
theorem ext_value {o' : Options} (h : ∀ t, value o t = value o' t) : o = o' := by
  obtain ⟨javax, companionExtensions⟩ := o
  obtain ⟨javax', companionExtensions'⟩ := o'
  have hjavax : javax = javax' := h .javax
  have hcompanion : companionExtensions = companionExtensions' := h .companionExtensions
  rw [hjavax, hcompanion]

/-! ### Pairs -/

/-- The keys of the options do not begin with the word that is taken off. -/
theorem afterHead?_key (t : Toggle) : Text.afterHead? "inject." t.key = none := by
  cases t <;> decide +kernel

/-- A key stands for an option exactly if it names the option. -/
theorem bareKey_eq_key_iff : bareKey key = t.key ↔ t.Names key := by
  rw [bareKey, Names]
  cases h : Text.afterHead? "inject." key with
  | none =>
    have hne : key ≠ "inject." ++ t.key := fun heq => by
      rw [Text.afterHead?_eq_some_iff.2 heq] at h
      cases h
    rw [Option.getD_none, or_iff_left hne]
  | some rest =>
    have hne : key ≠ t.key := fun heq => by
      rw [heq, afterHead?_key] at h
      cases h
    rw [Option.getD_some, or_iff_right hne, Text.afterHead?_eq_some_iff.1 h,
      String.append_right_inj]

/-- No key names both options. -/
theorem not_names_both (h : Toggle.javax.Names key) : ¬ Toggle.companionExtensions.Names key := by
  intro h'
  have hkeys := (bareKey_eq_key_iff.2 h).symm.trans (bareKey_eq_key_iff.2 h')
  exact absurd hkeys (by decide +kernel)

/-- A pair gives its value to the option that it names. -/
theorem value_set (o : Options) (key text : String) (t : Toggle) :
    value (o.set key text) t = if t.Names key then parseFlag text else value o t := by
  have hjavax : bareKey key = "enableJavaxAnnotations" ↔ Toggle.javax.Names key :=
    bareKey_eq_key_iff (t := .javax)
  have hcompanion : bareKey key = "generateCompanionExtensions" ↔
      Toggle.companionExtensions.Names key := bareKey_eq_key_iff (t := .companionExtensions)
  rw [set]
  -- Which values are flags is of no account here.
  generalize parseFlag text = flag
  by_cases h : Toggle.javax.Names key
  · rw [if_pos (hjavax.2 h)]
    cases t with
    | javax => exact (if_pos h).symm
    | companionExtensions => exact (if_neg (not_names_both h)).symm
  · rw [if_neg (mt hjavax.1 h)]
    by_cases h' : Toggle.companionExtensions.Names key
    · rw [if_pos (hcompanion.2 h')]
      cases t with
      | javax => exact (if_neg h).symm
      | companionExtensions => exact (if_pos h').symm
    · rw [if_neg (mt hcompanion.1 h')]
      cases t with
      | javax => exact (if_neg h).symm
      | companionExtensions => exact (if_neg h').symm

/-- Of several pairs that name an option the last counts. -/
theorem value_overlay (o : Options) (pairs : List (String × String)) (t : Toggle) :
    value (o.overlay pairs) t = ((t.lastValue? pairs).map parseFlag).getD (value o t) := by
  induction pairs generalizing o with
  | nil => rfl
  | cons pair pairs ih =>
    have hstep : o.overlay (pair :: pairs) = (o.set pair.1 pair.2).overlay pairs := rfl
    rw [hstep, ih, value_set, lastValue?, lastValue?]
    by_cases h : t.Names pair.1
    · have hfirst : t.pairsFor (pair :: pairs) = pair :: t.pairsFor pairs :=
        List.filter_cons_of_pos (decide_eq_true h)
      rw [if_pos h, hfirst, List.getLast?_cons]
      generalize parseFlag = flag
      cases (t.pairsFor pairs).getLast? <;> rfl
    · have hfirst : t.pairsFor (pair :: pairs) = t.pairsFor pairs :=
        List.filter_cons_of_neg (mt of_decide_eq_true h)
      rw [if_neg h, hfirst]

/-- Later pairs are applied to what earlier ones have made. -/
theorem overlay_append (o : Options) (pairs later : List (String × String)) :
    o.overlay (pairs ++ later) = (o.overlay pairs).overlay later := List.foldl_append

/-- Only the pairs that name an option count for it, and only their own order. -/
theorem overlay_congr (o : Options) {pairs pairs' : List (String × String)}
    (h : ∀ t : Toggle, t.pairsFor pairs = t.pairsFor pairs') :
    o.overlay pairs = o.overlay pairs' :=
  ext_value fun t => by rw [value_overlay, value_overlay, lastValue?, lastValue?, h t]

/-- A pair that names no option has no effect. -/
theorem overlay_foreign (o : Options) (earlier later : List (String × String))
    (h : ∀ t : Toggle, ¬ t.Names key) :
    o.overlay (earlier ++ (key, text) :: later) = o.overlay (earlier ++ later) := by
  refine overlay_congr o fun t => ?_
  have hfirst : t.pairsFor ((key, text) :: later) = t.pairsFor later :=
    List.filter_cons_of_neg (mt of_decide_eq_true (h t))
  rw [pairsFor, List.filter_append, ← pairsFor, ← pairsFor, hfirst, pairsFor, pairsFor,
    ← List.filter_append, ← pairsFor]

/-! ### Flags -/

/-- A text is a word, written in any case and with blanks around it. -/
def Spells (word text : String) : Prop :=
  ∃ before middle after, text.toList = before ++ middle ++ after ∧
    (∀ c ∈ before, Text.isBlank c = true) ∧ (∀ c ∈ after, Text.isBlank c = true) ∧
    middle.map Char.toLower = word.toList

/-- The words that mean true. -/
def trueWords : List String := ["true", "1", "yes", "on"]

/-- A number below those that are no characters is the number of its character. -/
theorem toNat_ofNat {n : Nat} (h : n < 0xD800) : (Char.ofNat n).toNat = n := by
  rw [Char.ofNat, dif_pos (.inl h)]
  rfl

/-- Every other character than a capital letter stays. -/
theorem toLower_of_not {c : Char} (h : ¬ ('A' ≤ c ∧ c ≤ 'Z')) : c.toLower = c := dif_neg h

/-- A capital letter has its small one at a fixed distance. -/
theorem toLower_of_le {c : Char} (h : 'A' ≤ c ∧ c ≤ 'Z') :
    c.toLower = Char.ofNat (c.toNat + 32) := by
  have hle : c.toNat ≤ 90 := UInt32.le_iff_toNat_le.1 h.2
  refine Char.toNat_inj.1 ?_
  rw [toNat_ofNat (by omega)]
  refine (congrArg Char.toNat (dif_pos h)).trans ?_
  change (c.val + 32).toNat = c.toNat + 32
  rw [UInt32.toNat_add]
  change (c.toNat + 32) % 2 ^ 32 = _
  omega

/-- A text is put into small letters one character at a time. -/
theorem lowerAscii_eq (s : String) :
    Text.lowerAscii s = String.ofList (s.toList.map Char.toLower) := by
  rw [Text.lowerAscii]
  congr 1
  refine List.map_congr_left fun c _ => ?_
  split
  · next h => exact (toLower_of_le h).symm
  · next h => exact (toLower_of_not h).symm

/-- Blanks behind a text are cut off. -/
theorem trimEnd_append {middle after : List Char} (hmiddle : ∀ c ∈ middle, ¬ Text.isBlank c = true)
    (hafter : ∀ c ∈ after, Text.isBlank c = true) : Text.trimEnd (middle ++ after) = middle := by
  rw [Text.trimEnd, List.reverse_append, List.dropWhile_append_of_pos fun c hc =>
    hafter c (List.mem_reverse.1 hc), List.dropWhile_eq_self_iff.2, List.reverse_reverse]
  exact fun hl => hmiddle _ (List.mem_reverse.1 (List.getElem_mem hl))

/-- What is trimmed are the blanks around a text that has none itself. -/
theorem trim_eq {before middle after : List Char} (h : text.toList = before ++ middle ++ after)
    (hbefore : ∀ c ∈ before, Text.isBlank c = true)
    (hmiddle : ∀ c ∈ middle, ¬ Text.isBlank c = true)
    (hafter : ∀ c ∈ after, Text.isBlank c = true) : Text.trim text = String.ofList middle := by
  rw [Text.trim, h, List.append_assoc, Text.trimStart, List.dropWhile_append_of_pos hbefore]
  cases middle with
  | nil =>
    rw [List.nil_append, List.dropWhile_eq_nil_iff.2 hafter]
    rfl
  | cons c middle =>
    have hc := hmiddle c (List.mem_cons_self ..)
    rw [List.cons_append, List.dropWhile_cons_of_neg hc, ← List.cons_append,
      trimEnd_append hmiddle hafter]

/-- Trimming a text takes nothing but blanks, and these from its two ends. -/
theorem exists_trim (text : String) : ∃ before after,
    text.toList = before ++ (Text.trim text).toList ++ after ∧
      (∀ c ∈ before, Text.isBlank c = true) ∧ ∀ c ∈ after, Text.isBlank c = true := by
  have hstart := List.takeWhile_append_dropWhile (p := Text.isBlank) (l := text.toList)
  have hend := List.takeWhile_append_dropWhile (p := Text.isBlank)
    (l := (Text.trimStart text.toList).reverse)
  refine ⟨text.toList.takeWhile Text.isBlank,
    ((Text.trimStart text.toList).reverse.takeWhile Text.isBlank).reverse, ?_,
    fun c hc => List.mem_takeWhile_imp hc,
    fun c hc => List.mem_takeWhile_imp (List.mem_reverse.1 hc)⟩
  rw [Text.trim, String.toList_ofList, Text.trimEnd, List.append_assoc, ← List.reverse_append,
    hend, List.reverse_reverse, Text.trimStart, hstart]

/-- The words that mean true hold no blanks, in any case. -/
theorem not_isBlank_of_toLower {word : String} (hword : word ∈ trueWords) {c : Char}
    (h : c.toLower ∈ word.toList) : ¬ Text.isBlank c = true := by
  intro hblank
  have hsame : c.toLower = c := by
    refine toLower_of_not ?_
    rintro ⟨hA, hZ⟩
    have hA : 65 ≤ c.toNat := UInt32.le_iff_toNat_le.1 hA
    have hZ : c.toNat ≤ 90 := UInt32.le_iff_toNat_le.1 hZ
    simp only [Text.isBlank, Bool.or_eq_true, Bool.and_eq_true, decide_eq_true_eq,
      beq_iff_eq] at hblank
    omega
  rw [hsame] at h
  have hnone : ∀ word ∈ trueWords, ∀ c ∈ word.toList, Text.isBlank c = false := by
    simp [trueWords, Text.isBlank]
  rw [hnone word hword c h] at hblank
  cases hblank

/-- A flag is true when it is one of a few words. -/
theorem parseFlag_iff : parseFlag text = true ↔ ∃ word ∈ trueWords, Spells word text := by
  rw [parseFlag, List.contains_iff_mem, ← trueWords, lowerAscii_eq]
  constructor
  · intro hmem
    obtain ⟨before, after, htext, hbefore, hafter⟩ := exists_trim text
    exact ⟨_, hmem, before, _, after, htext, hbefore, hafter, String.toList_ofList.symm⟩
  · rintro ⟨word, hword, before, middle, after, htext, hbefore, hafter, hlower⟩
    have hmiddle : ∀ c ∈ middle, ¬ Text.isBlank c = true := fun c hc =>
      not_isBlank_of_toLower hword (hlower ▸ List.mem_map_of_mem hc)
    rw [trim_eq htext hbefore hmiddle hafter, String.toList_ofList, hlower, String.ofList_toList]
    exact hword

/-! ### Configuration files -/

/-- Whether a value of a configuration file is the truth value true. -/
def isTrue : Option Toml → Bool
  | some (.boolean b) => b
  | _ => false

/-- Whether a configuration file sets an option: in the table of options by its key, or in a list of
options by its place. -/
def documentValue (text : String) (t : Toggle) : Bool :=
  match (Toml.parse? text).bind (·.lookup "options") with
  | some (.table _ _ entries) => isTrue (entries.lookup t.fileKey)
  | some (.inline entries) => isTrue (entries.lookup t.fileKey)
  | some (.array items) => isTrue items[t.place]?
  | _ => false

/-- An entry that is read as a truth value has that value. -/
theorem isTrue_of_flag? {entries : Toml.Entries} {b : Bool} (h : flag? entries key = some b) :
    isTrue (entries.lookup key) = b := by
  rw [flag?] at h
  split at h
  · next hl =>
    rw [hl]
    exact Option.some.inj h
  · next hl =>
    rw [hl]
    exact Option.some.inj h
  · cases h

/-- Options read from entries are as these say, and off where they say nothing. -/
theorem value_ofEntries? {entries : Toml.Entries} (h : ofEntries? entries = some o) (t : Toggle) :
    value o t = isTrue (entries.lookup t.fileKey) := by
  rw [ofEntries?] at h
  split at h
  · next javax companion hjavax hcompanion =>
    cases h
    cases t with
    | javax => exact (isTrue_of_flag? hjavax).symm
    | companionExtensions => exact (isTrue_of_flag? hcompanion).symm
  · cases h

/-- The options of a configuration file are what it sets. -/
theorem value_ofToml? (h : ofToml? text = some o) (t : Toggle) :
    value o t = documentValue text t := by
  obtain ⟨entries, hparse, h⟩ := Option.bind_eq_some_iff.1 h
  rw [documentValue, hparse, Option.bind_some]
  cases hl : entries.lookup "options" with
  | none =>
    rw [hl] at h
    cases h
    cases t <;> rfl
  | some v =>
    rw [hl] at h
    dsimp only at h ⊢
    rw [ofValue?.eq_def] at h
    split at h
    · exact value_ofEntries? h t
    · exact value_ofEntries? h t
    · cases h
      cases t <;> rfl
    · cases h
      cases t <;> rfl
    · cases h
      cases t <;> rfl
    · cases h
      cases t <;> rfl
    · cases h

/-! ### Layers -/

section Layers

open CommandLine

variable {σ : Type} {fs : Files (StateM σ)} {path : String} {s : Settings} {st : σ}

/-- The text that a run takes its configuration from, none where there is no configuration file. -/
def Consults (fs : Files (StateM σ)) (path : String) (s : Settings) (st : σ) :
    Option String → Prop
  | none => (configPath fs path s st).1 = none
  | some text => ∃ file, (configPath fs path s st).1 = some file ∧
      (fs.read file (configPath fs path s st).2).1 = .ok text

/-- The options of a run come from its switches, its processor options, its configuration file and
the defaults, in this order. -/
structure LayersOptions (fs : Files (StateM σ)) (path : String) (s : Settings) (st : σ)
    (base : Options) : Prop where
  /-- An option is on if its switch is given; otherwise the last processor option that names it
  says so, otherwise the configuration file, and otherwise it is off. -/
  layered : ∃ document, Consults fs path s st document ∧
    ∀ t : Toggle, value (s.options base) t =
      if t.switched s then true
      else ((t.lastValue? s.pairs).map parseFlag).getD (document.elim false (documentValue · t))
  /-- A processor option says yes with one of a few words, in any case and with blanks around. -/
  lenient : ∀ text, parseFlag text = true ↔ ∃ word ∈ trueWords, Spells word text
  /-- Only the processor options that name an option count for it, in their own order. -/
  apart : ∀ o pairs pairs', (∀ t : Toggle, t.pairsFor pairs = t.pairsFor pairs') →
    overlay o pairs = overlay o pairs'
  /-- Others have no effect. -/
  foreign : ∀ o key text earlier later, (∀ t : Toggle, ¬ t.Names key) →
    overlay o (earlier ++ (key, text) :: later) = overlay o (earlier ++ later)
  /-- Processor options in two parts are applied part by part. -/
  appended : ∀ o pairs later, overlay o (pairs ++ later) = (o.overlay pairs).overlay later

/-- What a run has read of its options is what its configuration says. -/
theorem exists_consults {base : Options}
    (h : (fileOptions fs path s st).1 = .ok base) : ∃ document,
    Consults fs path s st document ∧
      ∀ t, value base t = document.elim false (documentValue · t) := by
  rcases hconfig : configPath fs path s st with ⟨config | file, st₁⟩
  · rw [fileOptions, bind_eq hconfig] at h
    cases h
    exact ⟨none, congrArg Prod.fst hconfig, fun t => by cases t <;> rfl⟩
  · rw [fileOptions, bind_eq hconfig] at h
    dsimp only at h
    rcases hread : fs.read file st₁ with ⟨failure | text, st₂⟩
    · rw [bind_eq hread] at h
      cases h
    · rw [bind_eq hread] at h
      dsimp only at h
      cases hdocument : ofToml? text with
      | none =>
        rw [hdocument] at h
        cases h
      | some o =>
        rw [hdocument] at h
        cases h
        refine ⟨some text, ⟨file, congrArg Prod.fst hconfig, ?_⟩, value_ofToml? hdocument⟩
        rw [hconfig, hread]

/-- A switch turns an option on; otherwise the last pair for it counts, and then the options from
before. -/
theorem value_options (s : Settings) (base : Options) (t : Toggle) : value (s.options base) t
    = if t.switched s then true
      else ((t.lastValue? s.pairs).map parseFlag).getD (value base t) := by
  have hor : value (s.options base) t = (value (base.overlay s.pairs) t || t.switched s) := by
    cases t <;> rfl
  rw [hor, value_overlay]
  cases t.switched s
  · rw [Bool.or_false, if_neg Bool.false_ne_true]
  · rw [Bool.or_true, if_pos rfl]

/-- The options of every run that can read its configuration are layered. -/
theorem layersOptions {base : Options}
    (h : (fileOptions fs path s st).1 = .ok base) : LayersOptions fs path s st base where
  layered := by
    obtain ⟨document, hconsults, hvalue⟩ := exists_consults h
    exact ⟨document, hconsults, fun t => by rw [value_options, hvalue]⟩
  lenient _ := parseFlag_iff
  apart o _ _ h := overlay_congr o h
  foreign o _ _ earlier later h := overlay_foreign o earlier later h
  appended := overlay_append

/-- A model beside a configuration file that turns the older annotations on. -/
def configuredTree : FileTree :=
  .ofFiles [("model.json", "{}"), ("inject.toml", "[options]\nenable-javax-annotations = true\n")]

/-- Processor options that turn one option off and the other one on, with one for another
processor. -/
def pairedSettings : Settings where
  pairs := [("inject.enableJavaxAnnotations", "yes"), ("generateCompanionExtensions", " TRUE "),
    ("inject.inject.enableJavaxAnnotations", "on"), ("enableJavaxAnnotations", "no"),
    ("other.processor.flag", "true")]

/-- The pairs count more than the configuration file beside the model. -/
theorem layersOptions_paired :
    (fileOptions FileTree.operations "model.json" pairedSettings configuredTree).1
      = .ok { javax := true } ∧
    pairedSettings.options { javax := true } = { companionExtensions := true } ∧
    LayersOptions FileTree.operations "model.json" pairedSettings configuredTree
      { javax := true } := by
  have h : (fileOptions FileTree.operations "model.json" pairedSettings configuredTree).1
      = .ok { javax := true } := by
    decide +kernel
  exact ⟨h, by decide +kernel, layersOptions h⟩

end Layers

end Options

end Wiring
