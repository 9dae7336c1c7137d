import Wiring.Declaration.Basic
import Wiring.Type.Json

/-!
# Writing declarations

The written form of a model file has every field of every declaration, with `null` for an optional
part that is absent; only the source file's name is left out when there is none. Types are written
as objects.
-/

namespace Wiring

/-- The strings of a list. -/
def Json.ofTexts (texts : List String) : Json := .array (texts.map .string)

/-- An optional part; `null` when it is absent. -/
def Json.ofOption (encode : α → Json) : Option α → Json
  | some a => encode a
  | none => .null

/-- The written form of a span. -/
def Span.toJson (s : Span) : Json :=
  .object [("start", .integer s.start.toNat), ("end", .integer s.stop.toNat)]

/-- The written form of an annotation class. -/
def AnnotationDecl.toJson (a : AnnotationDecl) : Json :=
  .object [("name", .string a.name), ("meta", .ofTexts a.carries)]

/-- The written form of a parameter. -/
def ParamDecl.toJson (p : ParamDecl) : Json :=
  .object [("name", .string p.name), ("type", p.type.toJson),
    ("annotations", .ofTexts p.annotations), ("val", .bool p.isVal), ("private", .bool p.isPrivate),
    ("default", .bool p.hasDefault), ("span", .ofOption Span.toJson p.span)]

/-- The written form of a constructor. -/
def ConstructorDecl.toJson (c : ConstructorDecl) : Json :=
  .object [("annotations", .ofTexts c.annotations),
    ("params", .array (c.params.map ParamDecl.toJson)), ("span", .ofOption Span.toJson c.span)]

/-- The word for a kind of member. -/
def MemberKind.word : MemberKind → String
  | function => "fun"
  | property => "val"

/-- The written form of a member. -/
def MemberDecl.toJson (m : MemberDecl) : Json :=
  .object [("name", .string m.name), ("kind", .string m.kind.word),
    ("params", .array (m.params.map ParamDecl.toJson)),
    ("receiver", .ofOption TypeExpr.toJson m.receiver), ("returns", m.returns.toJson),
    ("annotations", .ofTexts m.annotations), ("abstract", .bool m.isAbstract),
    ("private", .bool m.isPrivate), ("suspend", .bool m.isSuspend),
    ("span", .ofOption Span.toJson m.span)]

/-- The written form of a class. -/
def ClassDecl.toJson (c : ClassDecl) : Json :=
  .object [("package", .string c.package), ("name", .string c.name),
    ("interface", .bool c.isInterface), ("abstract", .bool c.isAbstract),
    ("private", .bool c.isPrivate), ("companion", .bool c.hasCompanion),
    ("typeParameters", .ofTexts c.typeParameters), ("annotations", .ofTexts c.annotations),
    ("superTypes", .array (c.superTypes.map TypeExpr.toJson)),
    ("constructor", .ofOption ConstructorDecl.toJson c.constructor),
    ("members", .array (c.members.map MemberDecl.toJson)),
    ("span", .ofOption Span.toJson c.span)]

/-- The written form of a top-level function. -/
def FunctionDecl.toJson (f : FunctionDecl) : Json :=
  .object [("package", .string f.package), ("name", .string f.name),
    ("params", .array (f.params.map ParamDecl.toJson)), ("returns", f.returns.toJson),
    ("annotations", .ofTexts f.annotations), ("span", .ofOption Span.toJson f.span)]

/-- The written form of a model file. -/
def Declarations.toJson (d : Declarations) : Json :=
  .object ((match d.source with
      | some name => [("source", .string name)]
      | none => [])
    ++ [("annotations", .array (d.annotations.map AnnotationDecl.toJson)),
      ("classes", .array (d.classes.map ClassDecl.toJson)),
      ("functions", .array (d.functions.map FunctionDecl.toJson))])

end Wiring
