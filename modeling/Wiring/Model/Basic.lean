import Wiring.Annotation
import Wiring.Element

/-!
# The model of a program

Declarations seen as a program: classes found by name, and the members, constructors and functions
that a planner works with, each with its identity. Of two classes with one qualified name the last
is the one the name stands for.
-/

namespace Wiring

/-- The total of a measure over a list. -/
def total {α : Type} (w : α → Nat) : List α → Nat
  | [] => 0
  | a :: l => w a + total w l

/-- A program given by its declarations. -/
structure Model where
  declarations : Declarations
  deriving Repr, Inhabited

/-- A class of a program, or the companion object inside it. -/
structure Classifier where
  /-- The place of the class among the declared classes. -/
  index : Nat
  /-- The declaration at that place. -/
  decl : ClassDecl
  /-- Whether the companion object is meant. -/
  isCompanion : Bool := false
  deriving DecidableEq, Repr, Inhabited

/-- A value parameter of a callable or a constructor. -/
structure Param where
  name : String
  type : TypeExpr
  isVal : Bool
  isPrivate : Bool
  hasDefault : Bool
  annotations : List Annotation
  element : Element
  deriving Repr, Inhabited

/-- Where a callable is declared. -/
inductive Origin where
  /-- The member at a place among the members of a class. -/
  | member (classIndex memberIndex : Nat)
  /-- The top-level function at a place among the functions. -/
  | function (index : Nat)
  deriving DecidableEq, Repr, Inhabited

/-- A member of a class, or a top-level function. -/
structure Callable where
  origin : Origin
  element : Element
  name : String
  /-- The name used in generated source; qualified for a top-level function. -/
  callName : String
  kind : MemberKind
  /-- Value parameters; none for a property. -/
  params : List Param
  receiver : Option TypeExpr
  returns : TypeExpr
  isSuspend : Bool
  isAbstract : Bool
  isPrivate : Bool
  annotations : List Annotation
  deriving Repr, Inhabited

/-- A primary constructor. -/
structure Constructor where
  /-- The place of its class among the declared classes. -/
  classIndex : Nat
  element : Element
  /-- The type it creates. -/
  type : TypeExpr
  params : List Param
  annotations : List Annotation
  deriving Repr, Inhabited

/-- The parameters of a declaration as they stand in its path. -/
def ParamDecl.pathText (params : List ParamDecl) : String :=
  ",".intercalate (params.map fun p => p.type.qualifiedName)

/-- The parameters of a declaration as they stand in its trace. -/
def ParamDecl.traceText (params : List ParamDecl) : String :=
  ", ".intercalate (params.map fun p => p.name ++ ": " ++ p.type.displayText)

namespace Model

/-- The annotation called `name`, with what the last class declared under that name carries. -/
def annotation (m : Model) (name : String) : Annotation where
  type := .ofQualified name
  carries :=
    match m.declarations.annotations.reverse.find? (·.name == name) with
    | some a => a.carries
    | none => []

/-- The annotations called by a list of names. -/
def annotationsOf (m : Model) (names : List String) : List Annotation :=
  names.map m.annotation

/-- The parameters of the declaration at the path `owner`. -/
def paramsOf (m : Model) (owner : String) (params : List ParamDecl) : List Param :=
  params.map fun p => {
    name := p.name
    type := p.type
    isVal := p.isVal
    isPrivate := p.isPrivate
    hasDefault := p.hasDefault
    annotations := m.annotationsOf p.annotations
    element := .make .parameter (owner ++ "#" ++ p.name)
      (p.name ++ ": " ++ p.type.displayText) p.span }

/-- The last class called `name` among `classes`, which start at the place `index`. -/
def lastNamed (name : String) : (index : Nat) → (classes : List ClassDecl) → Option Classifier
  | _, [] => none
  | index, c :: classes =>
    match lastNamed name (index + 1) classes with
    | some found => some found
    | none => if c.qualifiedName = name then some { index, decl := c } else none

/-- The class a qualified name stands for. -/
def classNamed (m : Model) (name : String) : Option Classifier :=
  lastNamed name 0 m.declarations.classes

/-- The class a type names, seen through aliases. -/
def classOf (m : Model) (t : TypeExpr) : Option Classifier :=
  m.classNamed t.resolved.qualifiedName

/-- Every class that carries the annotation called `name`, in the order of declaration. -/
def classesAnnotated (m : Model) (name : String) : List Classifier :=
  (m.declarations.classes.zipIdx.filter fun (c, _) => c.annotations.contains name).map
    fun (decl, index) => { index, decl }

/-- The function at a place among the functions. -/
def functionAt (m : Model) (index : Nat) (f : FunctionDecl) : Callable :=
  let path := f.qualifiedName ++ "(" ++ ParamDecl.pathText f.params ++ ")"
  { origin := .function index
    element := .make .function path
      (f.qualifiedName ++ "(" ++ ParamDecl.traceText f.params ++ "): " ++ f.returns.displayText)
      f.span
    name := f.name
    callName := f.qualifiedName
    kind := .function
    params := m.paramsOf path f.params
    receiver := none
    returns := f.returns
    isSuspend := false
    isAbstract := false
    isPrivate := false
    annotations := m.annotationsOf f.annotations }

/-- The top-level functions called `name` in `package`, in the order of declaration. -/
def functionsNamed (m : Model) (package name : String) : List Callable :=
  (m.declarations.functions.zipIdx.filter fun (f, _) => f.package == package && f.name == name).map
    fun (f, index) => m.functionAt index f

end Model

namespace Classifier

/-- The name inside the package. -/
def name (c : Classifier) : String :=
  if c.isCompanion then c.decl.name ++ ".Companion" else c.decl.name

/-- The package of the class. -/
def package (c : Classifier) : String := c.decl.package

/-- The qualified name of the class. -/
def path (c : Classifier) : String := TypeExpr.qualify c.package c.name

/-- The type of the class, without arguments. -/
def type (c : Classifier) : TypeExpr := .ofName c.package c.name

/-- The class as an element. -/
def element (c : Classifier) : Element :=
  .make .classifier c.path c.type.displayText c.decl.span

/-- The companion object, if one is declared. -/
def companion? (c : Classifier) : Option Classifier :=
  if !c.isCompanion && c.decl.hasCompanion then some { c with isCompanion := true } else none

/-- Whether the class is an interface. -/
def isInterface (c : Classifier) : Bool := !c.isCompanion && c.decl.isInterface

/-- Whether the class cannot be instantiated; interfaces are abstract. -/
def isAbstract (c : Classifier) : Bool :=
  !c.isCompanion && (c.decl.isAbstract || c.decl.isInterface)

/-- Whether the class is private; a companion is as private as its class. -/
def isPrivate (c : Classifier) : Bool := c.decl.isPrivate

/-- The annotations on the class. -/
def annotations (m : Model) (c : Classifier) : List Annotation :=
  if c.isCompanion then [] else m.annotationsOf c.decl.annotations

/-- The primary constructor. -/
def constructor? (m : Model) (c : Classifier) : Option Constructor :=
  if c.isCompanion then none
  else c.decl.constructor.map fun k =>
    let path := c.decl.qualifiedName ++ ".<init>"
    { classIndex := c.index
      element := .make .constructor path
        (c.decl.type.displayText ++ "(" ++ ParamDecl.traceText k.params ++ ")") k.span
      type := c.decl.type
      params := m.paramsOf path k.params
      annotations := m.annotationsOf k.annotations }

/-- The member declared at a place of the class. -/
def memberAt (m : Model) (c : Classifier) (index : Nat) (d : MemberDecl) : Callable :=
  let path := c.decl.qualifiedName ++ "." ++ d.name ++ match d.kind with
    | .function => "(" ++ ParamDecl.pathText d.params ++ ")"
    | .property => ""
  let trace := match d.kind with
    | .function => c.decl.type.displayText ++ "." ++ d.name ++ "("
      ++ ParamDecl.traceText d.params ++ "): " ++ d.returns.displayText
    | .property => c.decl.type.displayText ++ "." ++ d.name ++ ": " ++ d.returns.displayText
  { origin := .member c.index index
    element := .make .member path trace d.span
    name := d.name
    callName := d.name
    kind := d.kind
    params := match d.kind with
      | .function => m.paramsOf path d.params
      | .property => []
    receiver := d.receiver
    returns := d.returns
    isSuspend := d.isSuspend
    isAbstract := d.isAbstract
    isPrivate := d.isPrivate
    annotations := m.annotationsOf d.annotations }

/-- The members declared on the class itself, in the order of declaration. -/
def members (m : Model) (c : Classifier) : List Callable :=
  if c.isCompanion then []
  else c.decl.members.zipIdx.map fun (d, index) => c.memberAt m index d

end Classifier

namespace Callable

/-- Whether one callable has the shape of another: name, kind, receiver and parameter types. A
member hides the members of its shape that come later in an inheritance chain. -/
def overrides (a b : Callable) : Bool :=
  a.name == b.name && a.kind == b.kind && a.receiver == b.receiver
    && a.params.map (·.type) == b.params.map (·.type)

end Callable

end Wiring
