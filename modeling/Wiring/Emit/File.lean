import Wiring.Component
import Wiring.Emit.Expression
import Wiring.Layout.Printer

/-!
# Generated files

For every component one file with a class that implements its requirements and the functions that
create it. A component whose planning failed still gets its file, with a class that implements
nothing, so that the other sources can refer to it.
-/

namespace Wiring

/-- A generated file. -/
structure GeneratedFile where
  package : String
  /-- The name of the class and of the file, without extension. -/
  name : String
  contents : String
  deriving DecidableEq, Repr, Inhabited

/-- The folders and the name of a generated file, the parts of its package one inside another. -/
def GeneratedFile.pathSegments (f : GeneratedFile) : List String :=
  ((Text.pieces '.' f.package.toList).filter (!·.isEmpty)).map String.ofList ++ [f.name ++ ".kt"]

/-- The outcome of generating a component. -/
structure Generated where
  file : GeneratedFile
  diagnostics : List Diagnostic
  /-- Whether planning failed and the class implements nothing. -/
  failed : Bool
  deriving Repr

namespace Emit

/-- The parameters of the constructor of a component. -/
def constructorParams (m : Model) (c : Classifier) : List Param :=
  match c.constructor? m with
  | some k => k.params
  | none => []

/-- The declaration of a parameter. -/
def paramDecl (p : Param) : Doc := .text (p.name ++ ": " ++ p.type.sourceText)

/-- Parameters passed on by name. -/
def names (params : List Param) : String := ", ".intercalate (params.map (·.name))

/-- The implementation of a requirement. -/
def member (p : ProviderPlan) : Doc :=
  let type := p.returns.sourceText
  match p.callable.kind with
  | .property =>
    .concat [.text ("override val " ++ p.callable.name ++ ": " ++ type),
      .indent (.concat [.hardLine, .text "get() = ", expression p.plan])]
  | .function =>
    let modifier := if p.callable.isSuspend then "suspend " else ""
    let signature := modifier ++ "fun " ++ p.callable.name ++ "(): " ++ type
    .concat [.text ("override " ++ signature ++ " = "), expression p.plan]

/-- A secondary constructor that passes on to the component's. -/
def secondaryConstructor (params : List Param) (arguments : String) : Doc :=
  .concat [.text "constructor", .delimited "(" (params.map paramDecl) ")",
    .text (" : super(" ++ arguments ++ ")")]

/-- The members of a generated class. -/
def members (params : List Param) (p : ComponentPlan) : List Doc :=
  let required := params.filter (!·.hasDefault)
  (if required.length ≠ params.length then
    [secondaryConstructor params (names params),
      secondaryConstructor required
        (", ".intercalate (required.map fun p => p.name ++ " = " ++ p.name))]
  else [])
  ++ (if p.scope.isSome then
    [.text ("override val _scoped: " ++ lazyMap ++ " = " ++ lazyMap ++ "()")]
  else [])
  ++ p.providers.map member

/-- Members with blank lines between them. -/
def spaced : List Doc → List Doc
  | [] => []
  | [d] => [.hardLine, d]
  | d :: ds => .hardLine :: d :: .hardLine :: spaced ds

/-- The generated class. -/
def componentClass (m : Model) (name : String) (p : ComponentPlan) : Doc :=
  let params := constructorParams m p.component
  let hasDefaults := params.any (·.hasDefault)
  let superType := p.component.type.sourceText
  let header : List Doc :=
    [.text ("class " ++ name)]
    ++ (if params.isEmpty || hasDefaults then [] else [.delimited "(" (params.map paramDecl) ")"])
    ++ [.text " : ",
      .text (if p.component.isInterface || hasDefaults then superType
        else superType ++ "(" ++ names params ++ ")")]
    ++ (if p.scope.isSome then [.text (", " ++ scopedComponent)] else [])
  match members params p with
  | [] => .concat header
  | ds =>
    .concat (header
      ++ [.text " \x7b", .indent (.concat (spaced ds)), .hardLine, .text "\x7d"])

/-- A function that creates the component from some of its parameters. -/
def createFunction (c : Classifier) (name receiver : String) (params : List Param) : Doc :=
  .concat [.text ("fun " ++ receiver ++ ".create"), .delimited "(" (params.map paramDecl) ")",
    .text (": " ++ c.type.sourceText ++ " = " ++ name ++ "(" ++ names params ++ ")")]

/-- The functions that create a component: from all parameters, and, when some have defaults, from
the others. -/
def createFunctions (m : Model) (c : Classifier) (name receiver : String) : List Doc :=
  let params := constructorParams m c
  let required := params.filter (!·.hasDefault)
  createFunction c name receiver params
    :: if required.length ≠ params.length then [createFunction c name receiver required] else []

/-- The problem that a component has no companion object to attach functions to. -/
def missingCompanion (c : Classifier) : Diagnostic :=
  .errorAt Code.missingCompanion
    ("Missing companion for class: " ++ c.type.sourceText ++ ".\n"
      ++ "When you have the option inject.generateCompanionExtensions=true you must declare "
      ++ "a companion object on the component class for the extension function to apply to.\n"
      ++ "You can do so by adding 'companion object' to the class.")
    c.element

/-- The type that the creating functions extend: the companion object when it is asked for and
there, a reference to the class otherwise. -/
def createReceiver (o : Options) (c : Classifier) : String :=
  let reference := classReference ++ "<" ++ c.type.sourceText ++ ">"
  if o.companionExtensions then
    match c.companion? with
    | some companion => companion.type.sourceText
    | none => reference
  else reference

/-- What is wrong with the type that the creating functions extend. -/
def receiverProblems (o : Options) (c : Classifier) : List Diagnostic :=
  if o.companionExtensions && c.companion?.isNone then [missingCompanion c] else []

/-- The name of the class generated for a component. -/
def generatedName (c : Classifier) : String := "Inject" ++ c.name

/-- The contents of the file of a component. -/
def document (m : Model) (o : Options) (c : Classifier) (p : ComponentPlan) : Doc :=
  let name := generatedName c
  .concat
    ((if c.package.isEmpty then [] else [.text ("package " ++ c.package), .hardLine, .hardLine])
    ++ [componentClass m name p]
    ++ (createFunctions m c name (createReceiver o c)).flatMap fun d => [.hardLine, .hardLine, d])

/-- Generate the file of a component. -/
def generate (m : Model) (o : Options) (c : Classifier) : Generated :=
  let p := Component.plan m o c
  { file := {
      package := c.package
      name := generatedName c
      contents := (document m o c p).render {} }
    diagnostics := p.allDiagnostics ++ receiverProblems o c
    failed := p.failure.isSome }

end Emit

/-- The outcome of processing a program. -/
structure Processed where
  /-- One file for each component, in the order of declaration. -/
  files : List GeneratedFile
  diagnostics : List Diagnostic
  deriving Repr

/-- Generate every component of a program. -/
def process (m : Model) (o : Options) : Processed :=
  let all := (m.classesAnnotated Annotation.component).map (Emit.generate m o)
  { files := all.map (·.file), diagnostics := all.flatMap (·.diagnostics) }

end Wiring
