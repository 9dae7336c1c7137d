import Wiring.Annotation
import Wiring.Model.Basic

/-!
# Programs in short

Short forms for declarations of the package `app`, in which the small programs of examples and
counterexamples are written down.
-/

namespace Wiring.Sketch

open Annotation (inject qualifier scope)

/-- A type of the package. -/
def type (name : String) : TypeExpr := .ofName "app" name

/-- A parameter that is looked up by its type and the qualifier among its annotations. -/
def param (name : String) (type : TypeExpr) (annotations : List String) : ParamDecl :=
  { name, type, annotations, isVal := true }

/-- An injectable class. -/
def injectable (name : String) (annotations : List String) (params : List ParamDecl) : ClassDecl :=
  { package := "app", name, annotations := Annotation.inject :: annotations
    constructor := some { params } }

/-- A class that can only be provided. -/
def plain (name : String) : ClassDecl := { package := "app", name }

/-- A component. -/
def component (name : String) (annotations : List String) (params : List ParamDecl)
    (members : List MemberDecl) : ClassDecl :=
  { package := "app", name, isAbstract := true
    annotations := Annotation.component :: annotations, constructor := some { params }, members }

/-- A property that a component asks for. -/
def requirement (name : String) (returns : TypeExpr) (annotations : List String) : MemberDecl :=
  { name, kind := .property, returns, annotations, isAbstract := true }

/-- A function that provides its result. -/
def provider (name : String) (params : List ParamDecl) (returns : TypeExpr)
    (annotations : List String) : MemberDecl :=
  { name, params, returns, annotations := Annotation.provides :: annotations }

/-- An extension property that provides its value. -/
def extension (name : String) (receiver returns : TypeExpr) (annotations : List String) :
    MemberDecl :=
  { name, kind := .property, receiver := some receiver, returns
    annotations := Annotation.provides :: annotations }

/-- A top-level function that may stand behind an alias. -/
def function (name : String) (params : List ParamDecl) (returns : TypeExpr) : FunctionDecl :=
  { package := "app", name, params, returns, annotations := [inject] }

/-- A program. The annotation class `app.Single` is a scope, and `app.A` and `app.B` are
qualifiers. -/
def program (classes : List ClassDecl) : Model where
  declarations := {
    annotations := [⟨"app.Single", [scope]⟩, ⟨"app.A", [qualifier]⟩,
      ⟨"app.B", [qualifier]⟩]
    classes }

/-- A program with top-level functions. -/
def programWith (classes : List ClassDecl) (functions : List FunctionDecl) : Model where
  declarations := { (program classes).declarations with functions }

end Wiring.Sketch
