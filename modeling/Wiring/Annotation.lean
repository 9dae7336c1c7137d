import Wiring.Type.Text

/-!
# Annotations

An annotation where it is used, together with the annotations on its own class, and the qualified
names of those the planner knows. The scopes, qualifiers and constructor marks of the older
`javax.inject` family are known too, and apply only when they are asked for.
-/

namespace Wiring

/-- A use of an annotation. -/
structure Annotation where
  type : TypeExpr
  /-- Qualified names of the annotations declared on the annotation class. -/
  carries : List String := []
  deriving Repr, Inhabited

namespace Annotation

/-- Whether the annotation's class carries the annotation called `name`. -/
def isMarked (name : String) (a : Annotation) : Bool := a.carries.contains name

/-- The annotation as it stands in messages. -/
def displayText (a : Annotation) : String := "@" ++ a.type.displayText

/-- Marks a class as a component to generate. -/
def component : String := "me.tatarka.inject.annotations.Component"

/-- Marks what may be constructed or called to satisfy a request. -/
def inject : String := "me.tatarka.inject.annotations.Inject"

/-- Marks a member of a component that provides its result. -/
def provides : String := "me.tatarka.inject.annotations.Provides"

/-- Marks an annotation class as a scope. -/
def scope : String := "me.tatarka.inject.annotations.Scope"

/-- Marks an annotation class as a qualifier. -/
def qualifier : String := "me.tatarka.inject.annotations.Qualifier"

/-- Makes a provided value an element of a set. -/
def intoSet : String := "me.tatarka.inject.annotations.IntoSet"

/-- Makes a provided pair an entry of a map. -/
def intoMap : String := "me.tatarka.inject.annotations.IntoMap"

/-- The older mark on constructors. -/
def javaxInject : String := "javax.inject.Inject"

/-- The older mark on scope classes. -/
def javaxScope : String := "javax.inject.Scope"

/-- The older mark on qualifier classes. -/
def javaxQualifier : String := "javax.inject.Qualifier"

/-- The first annotation of a list whose class carries the annotation called `name`. -/
def firstMarked (name : String) (annotations : List Annotation) : Option Annotation :=
  annotations.find? (isMarked name)

/-- The type of the first annotation whose class carries the annotation called `name`. -/
def typeMarked (name : String) (annotations : List Annotation) : Option TypeExpr :=
  (firstMarked name annotations).map (·.type)

/-- Whether a list of annotations has one of the class called `name`. -/
def isAmong (name : String) (annotations : List Annotation) : Bool :=
  annotations.any fun a => a.type.qualifiedName == name

end Annotation

end Wiring
