import Rotor.Bytes

/-!
The construction of objects.

A class becomes a table with a function `new` and a method `constructor`. Field initializers are
put into the constructor, behind the statements up to the call of `super`. Statements and
initializers are what they add to the log of a run; what they compute can be any function of the
log so far.
-/

namespace Rotor.Transformer.Classes

/-- What a name stands for: a variable visible at the class declaration, or a parameter or local of
the constructor of a class. -/
inductive Binding where
  | visible (name : Bytes)
  | parameter (level : Nat) (name : Bytes)
  | ownLocal (level : Nat) (name : Bytes)
  deriving DecidableEq

def Binding.name : Binding → Bytes
  | .visible name => name
  | .parameter _ name => name
  | .ownLocal _ name => name

/-- The classes of a hierarchy are told apart by the number of classes above them. -/
inductive Event (V : Type) where
  /-- The object is made. -/
  | newObject
  | call (level : Nat) (args : List (Option V))
  | parameterDefault (level index : Nat)
  | destructuring (level index : Nat)
  | statement (level index : Nat)
  | parameterProperty (level : Nat) (property : Bytes) (from_ : Binding)
  | field (level index : Nat) (names : List Binding)
  deriving DecidableEq

abbrev Log (V : Type) := List (Event V)

/-! ### The source -/

inductive BindingName where
  | identifier (name : Bytes)
  | pattern (names : List Bytes)

structure Parameter where
  name : BindingName
  isRest : Bool := false
  /-- The uses of a rest parameter in the body are such that they can be uses of `...`. -/
  usesVarArgs : Bool := false
  hasInitializer : Bool := false
  /-- It has an accessibility modifier. -/
  isProperty : Bool := false
  /-- The checker refuses a rest parameter as a property. -/
  restPlain : isRest → ¬isProperty := by decide

namespace Parameter

variable (parameter : Parameter)

def names : List Bytes :=
  match parameter.name with
  | .identifier name => [name]
  | .pattern names => names

def identifier : Option Bytes :=
  match parameter.name with
  | .identifier name => some name
  | .pattern _ => none

def isPattern : Bool := parameter.identifier.isNone

/-- An optimizable rest parameter stays `...` and has no local. -/
def analyzeVarArgsOptimization : Bool :=
  parameter.isRest && !parameter.isPattern && parameter.usesVarArgs

/-- The names that are in scope in the emitted body. -/
def emittedNames : List Bytes :=
  if parameter.analyzeVarArgsOptimization then [] else parameter.names

end Parameter

inductive BodyStatement (V : Type) where
  /-- `super(…)` as a statement, with its arguments. -/
  | superCall (args : Log V → List (Option V))
  /-- Any other statement, with the names its emitted code makes local to the constructor. -/
  | other (locals : List Bytes)

namespace BodyStatement

variable {V : Type}

def isSuperCall : BodyStatement V → Bool
  | .superCall _ => true
  | .other _ => false

def locals : BodyStatement V → List Bytes
  | .superCall _ => []
  | .other locals => locals

end BodyStatement

structure ConstructorDeclaration (V : Type) where
  parameters : List Parameter
  body : List (BodyStatement V)
  /-- The checker refuses locals with the name of a parameter. -/
  distinct : ∀ parameter ∈ parameters, ∀ name ∈ parameter.names,
    ∀ statement ∈ body, name ∉ statement.locals

structure PropertyDeclaration where
  isStatic : Bool := false
  /-- The names in the initializer, where there is one. -/
  initializer : Option (List Bytes)

structure ClassDeclaration (V : Type) where
  properties : List PropertyDeclaration
  constructor : Option (ConstructorDeclaration V) := none

/-! ### The emitted constructor -/

inductive LuauStatement (V : Type) where
  /-- `if parameter == nil then … end` -/
  | initializeParameter (index : Nat)
  /-- `local args = { ... }` -/
  | captureRest (names : List Bytes)
  | destructure (index : Nat) (names : List Bytes)
  | statement (index : Nat) (locals : List Bytes)
  /-- `super.constructor(self, …)` -/
  | superConstructor (args : Log V → List (Option V))
  /-- `super.constructor(self, ...)` -/
  | superConstructorVarArgs
  /-- `self.name = name` -/
  | assignProperty (name : Bytes)
  /-- `self[…] = initializer` -/
  | assignField (index : Nat) (names : List Bytes)

structure MethodDeclaration (V : Type) where
  /-- Names of parameters; a pattern has a temporary. -/
  parameters : List (Option Bytes)
  statements : List (LuauStatement V)

section Transform

variable {V : Type}

def Parameter.statements (parameter : Parameter) (index : Nat) : List (LuauStatement V) :=
  (if parameter.isRest && !parameter.analyzeVarArgsOptimization then
      [.captureRest parameter.identifier.toList] else []) ++
    (if parameter.hasInitializer then [.initializeParameter index] else []) ++
    (if parameter.isPattern then [.destructure index parameter.names] else [])

def transformParameters : Nat → List Parameter → List (Option Bytes) × List (LuauStatement V)
  | _, [] => ([], [])
  | index, parameter :: rest =>
    let (parameters, statements) := transformParameters (index + 1) rest
    (if parameter.isRest then parameters else parameter.identifier :: parameters,
      parameter.statements index ++ statements)

def transformPropertyInitializers : Nat → List PropertyDeclaration → List (LuauStatement V)
  | _, [] => []
  | index, member :: members =>
    match member.isStatic, member.initializer with
    | false, some names =>
      .assignField index names :: transformPropertyInitializers (index + 1) members
    | _, _ => transformPropertyInitializers (index + 1) members

def transformStatementList : Nat → List (BodyStatement V) → List (LuauStatement V)
  | _, [] => []
  | index, .superCall args :: rest =>
    .superConstructor args :: transformStatementList (index + 1) rest
  | index, .other locals :: rest =>
    .statement index locals :: transformStatementList (index + 1) rest

def parameterProperties (parameters : List Parameter) : List (LuauStatement V) :=
  parameters.flatMap fun parameter =>
    if parameter.isProperty then parameter.identifier.toList.map .assignProperty else []

/-- The number of statements up to and including the first call of `super`. -/
def superEnd (body : List (BodyStatement V)) : Nat :=
  match body.findIdx? (·.isSuperCall) with
  | some index => index + 1
  | none => 0

def transformClassConstructor (properties : List PropertyDeclaration)
    (node : ConstructorDeclaration V) : MethodDeclaration V :=
  let (parameters, statements) := transformParameters 0 node.parameters
  { parameters
    statements := statements ++ (transformStatementList 0 (node.body.take (superEnd node.body)) ++
        (parameterProperties node.parameters ++ (transformPropertyInitializers 0 properties ++
          transformStatementList (superEnd node.body) (node.body.drop (superEnd node.body))))) }

def transformImplicitClassConstructor (properties : List PropertyDeclaration) (isDerived : Bool) :
    MethodDeclaration V where
  parameters := []
  statements := (if isDerived then [.superConstructorVarArgs] else []) ++
    transformPropertyInitializers 0 properties

def constructorMethod (declaration : ClassDeclaration V) (isDerived : Bool) : MethodDeclaration V :=
  match declaration.constructor with
  | some node => transformClassConstructor declaration.properties node
  | none => transformImplicitClassConstructor declaration.properties isDerived

end Transform

/-! ### Runs of the emitted code -/

section Run

variable {V : Type}

/-- The parameters and locals in scope, the innermost first, and the log. -/
structure State (V : Type) where
  scope : List Binding
  log : Log V

def resolve (scope : List Binding) (name : Bytes) : Binding :=
  (scope.find? (·.name = name)).getD (.visible name)

def LuauStatement.run (level : Nat) (args : List (Option V))
    (superConstructor : List (Option V) → Log V → Log V) (state : State V) :
    LuauStatement V → State V
  | .initializeParameter index =>
    if args[index]?.join.isNone then
      { state with log := state.log ++ [.parameterDefault level index] }
    else state
  | .captureRest names => { state with scope := names.map (.parameter level) ++ state.scope }
  | .destructure index names =>
    { scope := names.map (.parameter level) ++ state.scope
      log := state.log ++ [.destructuring level index] }
  | .statement index locals =>
    { scope := locals.map (.ownLocal level) ++ state.scope
      log := state.log ++ [.statement level index] }
  | .superConstructor superArguments =>
    { state with log := superConstructor (superArguments state.log) state.log }
  | .superConstructorVarArgs => { state with log := superConstructor args state.log }
  | .assignProperty name =>
    { state with
      log := state.log ++ [.parameterProperty level name (resolve state.scope name)] }
  | .assignField index names =>
    { state with log := state.log ++ [.field level index (names.map (resolve state.scope))] }

def MethodDeclaration.call (method : MethodDeclaration V) (level : Nat)
    (superConstructor : List (Option V) → Log V → Log V)
    (args : List (Option V)) (log : Log V) : Log V :=
  (method.statements.foldl (LuauStatement.run level args superConstructor)
    { scope := (method.parameters.filterMap id).map (.parameter level)
      log := log ++ [.call level args] }).log

/-- `class.constructor(self, …)`, for a class with the classes above it. -/
def runConstructor : List (ClassDeclaration V) → List (Option V) → Log V → Log V
  | [], _, log => log
  | declaration :: parents, args, log =>
    (constructorMethod declaration !parents.isEmpty).call parents.length (runConstructor parents)
      args log

def runNew (classes : List (ClassDeclaration V)) (args : List (Option V)) : Log V :=
  runConstructor classes args [.newObject]

end Run

/-! ### Construction in TypeScript -/

section TypeScript

variable {V : Type}

def bindParameters (level : Nat) (args : List (Option V)) : Nat → List Parameter → Log V → Log V
  | _, [], log => log
  | index, parameter :: rest, log =>
    let log := if parameter.hasInitializer && args[index]?.join.isNone then
      log ++ [.parameterDefault level index] else log
    let log := if parameter.isPattern then log ++ [.destructuring level index] else log
    bindParameters level args (index + 1) rest log

def runBody (level : Nat) (superConstructor : List (Option V) → Log V → Log V) :
    Nat → List (BodyStatement V) → Log V → Log V
  | _, [], log => log
  | index, .superCall superArguments :: rest, log =>
    runBody level superConstructor (index + 1) rest (superConstructor (superArguments log) log)
  | index, .other _ :: rest, log =>
    runBody level superConstructor (index + 1) rest (log ++ [.statement level index])

def assignParameterProperties (level : Nat) (parameters : List Parameter) (log : Log V) : Log V :=
  log ++ parameters.flatMap fun parameter =>
    if parameter.isProperty then
      parameter.identifier.toList.map fun name =>
        .parameterProperty level name (.parameter level name)
    else []

/-- The names of an initializer are those visible at the class declaration. -/
def initializeFields (level : Nat) : Nat → List PropertyDeclaration → Log V → Log V
  | _, [], log => log
  | index, member :: members, log =>
    initializeFields level (index + 1) members <|
      match member.isStatic, member.initializer with
      | false, some names => log ++ [.field level index (names.map .visible)]
      | _, _ => log

def construct : List (ClassDeclaration V) → List (Option V) → Log V → Log V
  | [], _, log => log
  | declaration :: parents, args, log =>
    let level := parents.length
    let log := log ++ [.call level args]
    match declaration.constructor with
    | none => initializeFields level 0 declaration.properties (construct parents args log)
    | some node =>
      let log := bindParameters level args 0 node.parameters log
      let log := runBody level (construct parents) 0 (node.body.take (superEnd node.body)) log
      let log := assignParameterProperties level node.parameters log
      let log := initializeFields level 0 declaration.properties log
      runBody level (construct parents) (superEnd node.body)
        (node.body.drop (superEnd node.body)) log

def constructNew (classes : List (ClassDeclaration V)) (args : List (Option V)) : Log V :=
  construct classes args [.newObject]

end TypeScript

end Rotor.Transformer.Classes
