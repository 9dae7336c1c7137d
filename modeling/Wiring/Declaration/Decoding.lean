import Wiring.Declaration.Basic
import Wiring.Json.Record
import Wiring.Type.Json

/-!
# Reading declarations

The record of every kind of declaration: its fields, which of them have to be there, and how each
is read. A field may be `null` only where it is optional.
-/

namespace Wiring

open Json (Record)

/-- The record of a span. -/
def Span.record : Record Span where
  fields := ["start", "end"]
  required := ["start", "end"]
  start := ⟨0, 0⟩
  put s key j :=
    if key = "start" then j.toWord.map fun n => { s with start := n }
    else j.toWord.map fun n => { s with stop := n }

/-- Read a span. -/
def Span.ofJson : Json → Except Fault Span := Span.record.decode

/-- The record of an annotation class. -/
def AnnotationDecl.record : Record AnnotationDecl where
  fields := ["name", "meta"]
  required := ["name"]
  start := { name := "" }
  put a key j :=
    if key = "name" then j.toText.map fun s => { a with name := s }
    else (j.toList Json.toText).map fun ss => { a with carries := ss }

/-- Read an annotation class. -/
def AnnotationDecl.ofJson : Json → Except Fault AnnotationDecl := AnnotationDecl.record.decode

/-- The record of a parameter. -/
def ParamDecl.record : Record ParamDecl where
  fields := ["name", "type", "annotations", "val", "private", "default", "span"]
  required := ["name", "type"]
  start := { name := "", type := default }
  put p key j :=
    if key = "name" then j.toText.map fun s => { p with name := s }
    else if key = "type" then (TypeExpr.ofJson j).map fun t => { p with type := t }
    else if key = "annotations" then
      (j.toList Json.toText).map fun ss => { p with annotations := ss }
    else if key = "val" then j.toBool.map fun b => { p with isVal := b }
    else if key = "private" then j.toBool.map fun b => { p with isPrivate := b }
    else if key = "default" then j.toBool.map fun b => { p with hasDefault := b }
    else (j.toOption Span.ofJson).map fun s => { p with span := s }

/-- Read a parameter. -/
def ParamDecl.ofJson : Json → Except Fault ParamDecl := ParamDecl.record.decode

/-- The record of a constructor. -/
def ConstructorDecl.record : Record ConstructorDecl where
  fields := ["annotations", "params", "span"]
  start := {}
  put c key j :=
    if key = "annotations" then (j.toList Json.toText).map fun ss => { c with annotations := ss }
    else if key = "params" then (j.toList ParamDecl.ofJson).map fun ps => { c with params := ps }
    else (j.toOption Span.ofJson).map fun s => { c with span := s }

/-- Read a constructor. -/
def ConstructorDecl.ofJson : Json → Except Fault ConstructorDecl := ConstructorDecl.record.decode

/-- The kind of member called by a word. -/
def MemberKind.ofWord : String → Except Fault MemberKind
  | "fun" => .ok .function
  | "val" => .ok .property
  | _ => .error .misshapen

/-- Read the kind of a member: a word, or an object whose only field is the word with the value
`null`. What is neither a string nor an object is refused at its first character. The word is
looked at before the value, and the value before anything after it. -/
def MemberKind.ofJson : Json → Except Fault MemberKind
  | .string s => ofWord s
  | .object ((_, .nameless name _) :: _) => .error name.nameFault
  | .object ((key, value) :: rest) => do
    let kind ← ofWord key
    match value with
    | .null => pure ()
    | j => .error j.mismatch
    match rest with
    | [] => return kind
    | (_, .broken .separator read _) :: _ => .error read
    | _ => .error .malformed
  | .broken .literal _ _ => .error .malformed
  | .broken .number _ _ => .error .malformed
  | .broken _ read _ => .error read
  | _ => .error .malformed

/-- The record of a member. -/
def MemberDecl.record : Record MemberDecl where
  fields := ["name", "kind", "params", "receiver", "returns", "annotations", "abstract", "private",
    "suspend", "span"]
  required := ["name", "returns"]
  start := { name := "", returns := default }
  put m key j :=
    if key = "name" then j.toText.map fun s => { m with name := s }
    else if key = "kind" then (MemberKind.ofJson j).map fun k => { m with kind := k }
    else if key = "params" then (j.toList ParamDecl.ofJson).map fun ps => { m with params := ps }
    else if key = "receiver" then
      (j.toOption TypeExpr.ofJson).map fun t => { m with receiver := t }
    else if key = "returns" then (TypeExpr.ofJson j).map fun t => { m with returns := t }
    else if key = "annotations" then
      (j.toList Json.toText).map fun ss => { m with annotations := ss }
    else if key = "abstract" then j.toBool.map fun b => { m with isAbstract := b }
    else if key = "private" then j.toBool.map fun b => { m with isPrivate := b }
    else if key = "suspend" then j.toBool.map fun b => { m with isSuspend := b }
    else (j.toOption Span.ofJson).map fun s => { m with span := s }

/-- Read a member. -/
def MemberDecl.ofJson : Json → Except Fault MemberDecl := MemberDecl.record.decode

/-- The record of a class. -/
def ClassDecl.record : Record ClassDecl where
  fields := ["package", "name", "interface", "abstract", "private", "companion", "typeParameters",
    "annotations", "superTypes", "constructor", "members", "span"]
  required := ["name"]
  start := { name := "" }
  put c key j :=
    if key = "package" then j.toText.map fun s => { c with package := s }
    else if key = "name" then j.toText.map fun s => { c with name := s }
    else if key = "interface" then j.toBool.map fun b => { c with isInterface := b }
    else if key = "abstract" then j.toBool.map fun b => { c with isAbstract := b }
    else if key = "private" then j.toBool.map fun b => { c with isPrivate := b }
    else if key = "companion" then j.toBool.map fun b => { c with hasCompanion := b }
    else if key = "typeParameters" then
      (j.toList Json.toText).map fun ss => { c with typeParameters := ss }
    else if key = "annotations" then
      (j.toList Json.toText).map fun ss => { c with annotations := ss }
    else if key = "superTypes" then
      (j.toList TypeExpr.ofJson).map fun ts => { c with superTypes := ts }
    else if key = "constructor" then
      (j.toOption ConstructorDecl.ofJson).map fun k => { c with constructor := k }
    else if key = "members" then (j.toList MemberDecl.ofJson).map fun ms => { c with members := ms }
    else (j.toOption Span.ofJson).map fun s => { c with span := s }

/-- Read a class. -/
def ClassDecl.ofJson : Json → Except Fault ClassDecl := ClassDecl.record.decode

/-- The record of a top-level function. -/
def FunctionDecl.record : Record FunctionDecl where
  fields := ["package", "name", "params", "returns", "annotations", "span"]
  required := ["name", "returns"]
  start := { name := "", returns := default }
  put f key j :=
    if key = "package" then j.toText.map fun s => { f with package := s }
    else if key = "name" then j.toText.map fun s => { f with name := s }
    else if key = "params" then (j.toList ParamDecl.ofJson).map fun ps => { f with params := ps }
    else if key = "returns" then (TypeExpr.ofJson j).map fun t => { f with returns := t }
    else if key = "annotations" then
      (j.toList Json.toText).map fun ss => { f with annotations := ss }
    else (j.toOption Span.ofJson).map fun s => { f with span := s }

/-- Read a top-level function. -/
def FunctionDecl.ofJson : Json → Except Fault FunctionDecl := FunctionDecl.record.decode

/-- The record of a model file. -/
def Declarations.record : Record Declarations where
  fields := ["source", "annotations", "classes", "functions"]
  start := {}
  put d key j :=
    if key = "source" then (j.toOption Json.toText).map fun s => { d with source := s }
    else if key = "annotations" then
      (j.toList AnnotationDecl.ofJson).map fun xs => { d with annotations := xs }
    else if key = "classes" then (j.toList ClassDecl.ofJson).map fun xs => { d with classes := xs }
    else (j.toList FunctionDecl.ofJson).map fun xs => { d with functions := xs }

/-- Read the declarations of a model document. -/
def Declarations.ofJson : Json → Except Fault Declarations := Declarations.record.decode

end Wiring
