import Wiring.Type.Basic

/-!
# Declarations

What a model file lists: annotation classes, classes with their constructors and members, and
top-level functions. Types are given as they are written; nothing is resolved here, and names may
be repeated or refer to nothing.
-/

namespace Wiring

/-- Where a declaration stands in the source file: byte offsets of 32 bits, the end excluded. The
end may come before the start. -/
structure Span where
  start : UInt32
  stop : UInt32
  deriving DecidableEq, Repr, Inhabited

/-- An annotation class and the annotations declared on it. -/
structure AnnotationDecl where
  name : String
  /-- Qualified names of the annotations on the annotation class. -/
  carries : List String := []
  deriving DecidableEq, Repr, Inhabited

/-- A value parameter. -/
structure ParamDecl where
  name : String
  type : TypeExpr
  annotations : List String := []
  /-- Whether the parameter is a property too. -/
  isVal : Bool := false
  isPrivate : Bool := false
  hasDefault : Bool := false
  span : Option Span := none
  deriving DecidableEq, Repr, Inhabited

/-- A primary constructor. -/
structure ConstructorDecl where
  annotations : List String := []
  params : List ParamDecl := []
  span : Option Span := none
  deriving DecidableEq, Repr, Inhabited

/-- Whether a member is called with arguments or read like a field. -/
inductive MemberKind where
  | function
  | property
  deriving DecidableEq, Repr, Inhabited

/-- A member of a class. -/
structure MemberDecl where
  name : String
  kind : MemberKind := .function
  params : List ParamDecl := []
  /-- The type the member extends. -/
  receiver : Option TypeExpr := none
  returns : TypeExpr
  annotations : List String := []
  isAbstract : Bool := false
  isPrivate : Bool := false
  isSuspend : Bool := false
  span : Option Span := none
  deriving DecidableEq, Repr, Inhabited

/-- A class or interface. -/
structure ClassDecl where
  package : String := ""
  name : String
  isInterface : Bool := false
  isAbstract : Bool := false
  isPrivate : Bool := false
  hasCompanion : Bool := false
  /-- Names that stand for types inside the class. -/
  typeParameters : List String := []
  annotations : List String := []
  superTypes : List TypeExpr := []
  constructor : Option ConstructorDecl := none
  members : List MemberDecl := []
  span : Option Span := none
  deriving DecidableEq, Repr, Inhabited

/-- A top-level function. -/
structure FunctionDecl where
  package : String := ""
  name : String
  params : List ParamDecl := []
  returns : TypeExpr
  annotations : List String := []
  span : Option Span := none
  deriving DecidableEq, Repr, Inhabited

/-- Everything a model file declares. -/
structure Declarations where
  /-- The source file that spans point into, relative to the model file. -/
  source : Option String := none
  annotations : List AnnotationDecl := []
  classes : List ClassDecl := []
  functions : List FunctionDecl := []
  deriving DecidableEq, Repr, Inhabited

/-- The qualified name of a class. -/
def ClassDecl.qualifiedName (c : ClassDecl) : String := TypeExpr.qualify c.package c.name

/-- The type of a class, without arguments. -/
def ClassDecl.type (c : ClassDecl) : TypeExpr := .ofName c.package c.name

/-- The qualified name of a top-level function. -/
def FunctionDecl.qualifiedName (f : FunctionDecl) : String := TypeExpr.qualify f.package f.name

end Wiring
