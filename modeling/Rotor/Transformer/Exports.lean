import Mathlib.Data.List.AList
import Rotor.Bytes

/-!
The exports of a module.

Three writers fill the table a module returns: declarations and assignments of exported `let`
variables, which live in the table itself, the statements of `export … from`, and the assignments
at the end of the file for everything else.
-/

namespace Rotor.Transformer.Exports

open Function

/-- A variable of another module, seen through all aliases. -/
abbrev Symbol := Nat

/-- The modules a file can name: the variable under each exported name, and whether a variable is
declared with `let`. -/
structure Modules where
  members : Bytes → AList fun _ : Bytes => Symbol
  isMutable : Symbol → Bool

structure ExportSpecifier where
  propertyName : Bytes
  name : Bytes

inductive Statement where
  /-- A variable, function or class, with the name it is exported under by a modifier. -/
  | declaration (name : Bytes) (isLet initialized : Bool) (exportedAs : Option Bytes)
  | importNamed (name module property : Bytes)
  | exportNamed (specifiers : List ExportSpecifier)
  | exportFrom (module : Bytes) (specifiers : List ExportSpecifier)
  | exportAll (module : Bytes)

/-- What `SkipAlias` leads to: a variable of the file or one of another module. -/
inductive Original where
  | declared (name : Bytes)
  | imported (symbol : Symbol)
  deriving DecidableEq

structure ExportSymbol where
  name : Bytes
  original : Original
  /-- It is declared by a specifier of `export … from`. -/
  fromExportFrom : Bool

section Symbols

variable (modules : Modules) (statements : List Statement)

def declaredName : Statement → Option Bytes
  | .declaration name .. => some name
  | .importNamed name .. => some name
  | _ => none

def declaredVariable : Statement → Option Bytes
  | .declaration name .. => some name
  | _ => none

def skipAlias (name : Bytes) : Option Original :=
  statements.findSome? fun
    | .declaration declared .. => if declared = name then some (.declared name) else none
    | .importNamed declared module property =>
      if declared = name then ((modules.members module).lookup property).map .imported else none
    | _ => none

def exportSymbols : Statement → List ExportSymbol
  | .declaration name _ _ (some exported) => [⟨exported, .declared name, false⟩]
  | .exportNamed specifiers => specifiers.filterMap fun specifier =>
    (skipAlias modules statements specifier.propertyName).map (⟨specifier.name, ·, false⟩)
  | .exportFrom module specifiers => specifiers.filterMap fun specifier =>
    ((modules.members module).lookup specifier.propertyName).map
      (⟨specifier.name, .imported ·, true⟩)
  | _ => []

/-- The exports of the file but for those of `export *`, in the order of the source. -/
def getModuleExports : List ExportSymbol := statements.flatMap (exportSymbols modules statements)

/-- The variables under a name in the modules of `export *`. -/
def starred (name : Bytes) : List Symbol :=
  statements.filterMap fun
    | .exportAll module => (modules.members module).lookup name
    | _ => none

end Symbols

/-- A file the checker accepts: no name is declared or exported twice, and a name that only
`export *` exports stands for one variable. -/
structure SourceFile where
  modules : Modules
  statements : List Statement
  declaredOnce : (statements.filterMap declaredName).Nodup
  exportedOnce : ((getModuleExports modules statements).map (·.name)).Nodup
  starredOnce : ∀ name, name ∉ (getModuleExports modules statements).map (·.name) →
    name ≠ str "default" → ∀ symbol ∈ starred modules statements name,
    ∀ other ∈ starred modules statements name, symbol = other

def isLetVariable (statements : List Statement) (name : Bytes) : Bool :=
  statements.any fun
    | .declaration declared isLet _ _ => declared = name && isLet
    | _ => false

namespace SourceFile

variable (file : SourceFile)

def exports : List ExportSymbol := getModuleExports file.modules file.statements

def isSymbolMutable : Original → Bool
  | .declared name => isLetVariable file.statements name
  | .imported symbol => file.modules.isMutable symbol

/-- `GetModuleExportsAliasMap` at a variable of the file: a later export replaces an earlier. -/
def getModuleExportsAlias (name : Bytes) : Option Bytes :=
  (file.exports.filter fun symbol => symbol.original = .declared name).getLast?.map (·.name)

/-- The name in the table that a variable is kept under, where it has no local. -/
def exportAccess (name : Bytes) : Option Bytes :=
  if file.isSymbolMutable (.declared name) then file.getModuleExportsAlias name else none

def hasExportFrom : Bool :=
  file.statements.any fun
    | .exportFrom module specifiers =>
      !(exportSymbols file.modules file.statements (.exportFrom module specifiers)).isEmpty
    | .exportAll _ => true
    | _ => false

def hasMutableExports : Bool :=
  file.exports.any fun symbol => !symbol.fromExportFrom && file.isSymbolMutable symbol.original

def exportPairs : List ExportSymbol :=
  file.exports.filter fun symbol =>
    !symbol.fromExportFrom && !file.isSymbolMutable symbol.original

end SourceFile

inductive ExportShape where
  | none
  | exportsTable
  | returnMap
  deriving DecidableEq

/-- `ChooseExportShape` without `export =`. -/
def chooseExportShape (hasExportFrom hasMutableExports hasImmutableExports : Bool) : ExportShape :=
  if hasExportFrom || hasMutableExports then .exportsTable
  else if hasImmutableExports then .returnMap
  else .none

/-- What happens when a file's body runs: its statements, each with the value of an initializer and
what the variables of the other modules hold at that time, and assignments to its own variables,
from wherever they are made. -/
inductive Step (V : Type) where
  | run (statement : Statement) (initial : Option V) (others : Symbol → Option V)
  | assign (name : Bytes) (value : Option V)

/-- What the variables of other modules may hold before they come to the given values: only those
declared with `let` change. -/
def Modules.Earlier {V : Type} (modules : Modules) (values others : Symbol → Option V) : Prop :=
  ∀ symbol, modules.isMutable symbol = false → others symbol = values symbol

/-- The steps of a run that ends with the given values in the other modules: all statements in
order, and between them assignments to variables already declared. -/
inductive RunOf {V : Type} (modules : Modules) (values : Symbol → Option V) :
    List Bytes → List Statement → List (Step V) → Prop where
  | done (declared : List Bytes) : RunOf modules values declared [] []
  | statement {declared : List Bytes} {statement : Statement} {rest : List Statement}
      {steps : List (Step V)} {others : Symbol → Option V} (initial : Option V)
      (earlier : modules.Earlier values others)
      (run : RunOf modules values ((declaredVariable statement).toList ++ declared) rest steps) :
      RunOf modules values declared (statement :: rest) (.run statement initial others :: steps)
  | assign {declared : List Bytes} {name : Bytes} {rest : List Statement}
      {steps : List (Step V)} (value : Option V) (member : name ∈ declared)
      (run : RunOf modules values declared rest steps) :
      RunOf modules values declared rest (.assign name value :: steps)

section Runs

variable {V : Type} (file : SourceFile) (values : Symbol → Option V)

abbrev Table (V : Type) := Bytes → Option V

def assignVariables (bindings : Table V) : Step V → Table V
  | .run (.declaration name _ initialized _) initial _ =>
    update bindings name (if initialized then initial else none)
  | .run _ _ _ => bindings
  | .assign name value => update bindings name value

def originalValue (bindings : Table V) : Original → Option V
  | .declared name => bindings name
  | .imported symbol => values symbol

/-- What the emitted code has written: the table `exports` and the locals. -/
structure LuauState (V : Type) where
  exports : Table V := fun _ => none
  locals : Table V := fun _ => none

/-- A write to a variable: in the table where `transformIdentifier` gives `exports.name`. -/
def LuauState.write (state : LuauState V) (name : Bytes) (value : Option V) : LuauState V :=
  match file.exportAccess name with
  | some access => { state with exports := update state.exports access value }
  | none => { state with locals := update state.locals name value }

/-- The statements `transformVariable` emits; a variable in the table is written with an
initializer only. -/
def transformVariable (state : LuauState V) (name : Bytes) (right : Option (Option V)) :
    LuauState V :=
  match file.exportAccess name with
  | some access =>
    match right with
    | some value => { state with exports := update state.exports access value }
    | none => state
  | none => { state with locals := update state.locals name right.join }

/-- `import.property`, for a specifier of `export … from`. -/
def importedValue : Original → Option V
  | .declared _ => none
  | .imported symbol => values symbol

/-- The statements `transformExportFrom` emits, at the place of the statement: an assignment for
each specifier, and a loop over the whole table for `export *`. -/
def transformExportFrom (exports : Table V) : Statement → Table V
  | .exportFrom module specifiers =>
    (exportSymbols file.modules file.statements (.exportFrom module specifiers)).foldl
      (fun exports symbol =>
        update exports symbol.name (importedValue values symbol.original)) exports
  | .exportAll module => fun name =>
    match ((file.modules.members module).lookup name).bind values with
    | some value => some value
    | none => exports name
  | _ => exports

def runStep (state : LuauState V) : Step V → LuauState V
  | .run (.declaration name _ initialized _) initial _ =>
    transformVariable file state name (if initialized then some initial else none)
  | .run statement _ others =>
    { state with exports := transformExportFrom file others state.exports statement }
  | .assign name value => state.write file name value

/-- The table the file returns; none for `return nil`. -/
def handleExports (state : LuauState V) : Option (Table V) :=
  let assign (exports : Table V) : Table V :=
    file.exportPairs.foldl (fun exports symbol =>
      update exports symbol.name (originalValue values state.locals symbol.original)) exports
  match chooseExportShape file.hasExportFrom file.hasMutableExports !file.exportPairs.isEmpty with
  | .exportsTable => some (assign state.exports)
  | .returnMap => some (assign fun _ => none)
  | .none => none

def returned (steps : List (Step V)) : Option (Table V) :=
  handleExports file values (steps.foldl (runStep file) {})

/-- The value the module rules give a name; none if the name is not exported. -/
def moduleValue (steps : List (Step V)) (name : Bytes) : Option (Option V) :=
  let bindings := steps.foldl assignVariables fun _ => none
  match file.exports.find? (·.name = name) with
  | some symbol => some (originalValue values bindings symbol.original)
  | none =>
    if name = str "default" then none
    else (starred file.modules file.statements name).head?.map values

end Runs

end Rotor.Transformer.Exports
