import Rotor.Transformer.EnsureOrder

/-!
Array literals.

A literal with spreads is built in a table `_array`. Where the next value goes is split between the
variable `_length` and a counter of the elements assigned since `_length` was last right.
-/

namespace Rotor.Transformer.ArrayLiteral

/-- A transformed expression: a primitive or a variable that cannot change, a temporary, or
anything else, which may read and change the world. -/
inductive Expression (W V : Type) where
  | constant (value : V)
  | temporary (index : Nat)
  | computed (run : W → V × W)

/-- What the transformation of an element leaves as its expression. -/
inductive Operand (W V : Type) where
  | constant (value : V)
  /-- A temporary that the prerequisite statements fill. -/
  | stored (run : W → V × W)
  | computed (run : W → V × W)

structure Element (W V : Type) where
  /-- Statements to be run before the expression. -/
  prereqs : Option (W → W) := none
  operand : Operand W V

inductive Spread (W V : Type) where
  | array (items : W → List V × W)
  | string (characters : W → List V × W)
  | set (members : W → List V × W)
  | map (entries : W → List (V × V) × W)
  | iterableFunctionLuaTuple (results : W → List (List V) × W)
  | iterableFunction (results : W → List V × W)
  | generator (results : W → List V × W)

inductive Part (W V : Type) where
  | element (element : Element W V)
  | spread (spread : Spread W V)

inductive Statement (W V : Type) where
  | prereqs (run : W → W)
  /-- `local _exp = expression` -/
  | declareTemporary (expression : Expression W V)
  /-- `local _array = { members }` and `local _length = #_array` -/
  | declareArray (members : List (Expression W V))
  /-- `_array[_length + offset] = expression` -/
  | assignIndex (offset : Nat) (expression : Expression W V)
  /-- `table.move(input, 1, #input, _length + offset, _array)`, with `_length += #input` -/
  | tableMove (input : W → List V × W) (offset : Nat) (shouldUpdateLength : Bool)
  /-- `_length += amount` -/
  | addLength (amount : Nat)
  /-- `for value in input do _length += 1; _array[_length] = value end` -/
  | appendValueLoop (input : W → List V × W)

/-- `ArrayPointer`: the literal while it is inline, then `_array`. -/
inductive ArrayPointer (W V : Type) where
  | inline (members : List (Expression W V))
  | identifier

section Transform

variable {W V : Type}

/-- The prerequisite statements and the expression of an element; temporaries are numbered. -/
def Element.transform (element : Element W V) (temps : Nat) :
    List (Statement W V) × Expression W V :=
  let prereqs := element.prereqs.toList.map .prereqs
  match element.operand with
  | .constant value => (prereqs, .constant value)
  | .stored run => (prereqs ++ [.declareTemporary (.computed run)], .temporary temps)
  | .computed run => (prereqs, .computed run)

def Element.declared (element : Element W V) : Nat :=
  match element.operand with
  | .stored _ => 1
  | _ => 0

def Element.hasPrereqs (element : Element W V) : Bool := !(element.transform 0).1.isEmpty

def Element.isComputed (element : Element W V) : Bool :=
  match element.operand with
  | .computed _ => true
  | _ => false

/-- The elements are siblings: expressions that could change are pinned where a later element has
prerequisites. -/
def ensureTransformOrder : Nat → List (Element W V) → List (Statement W V) × List (Expression W V)
  | _, [] => ([], [])
  | temps, element :: rest =>
    let (prereqs, expression) := element.transform temps
    if EnsureOrder.isKept Element.hasPrereqs Element.isComputed element rest then
      let (statements, expressions) := ensureTransformOrder (temps + 1) rest
      (prereqs ++ .declareTemporary expression :: statements, .temporary temps :: expressions)
    else
      let (statements, expressions) := ensureTransformOrder (temps + element.declared) rest
      (prereqs ++ statements, expression :: expressions)

def catchUpLength (amtElementsSinceUpdate : Nat) : List (Statement W V) :=
  if amtElementsSinceUpdate > 0 then [.addLength amtElementsSinceUpdate] else []

def addArrayToArray (input : W → List V × W) (amtElementsSinceUpdate : Nat)
    (shouldUpdateLength : Bool) : List (Statement W V) :=
  [.tableMove input (amtElementsSinceUpdate + 1) shouldUpdateLength]

/-- The builders that loop: `_length` is brought up to date, then counted on. -/
def addLoopToArray (input : W → List V × W) (amtElementsSinceUpdate : Nat) : List (Statement W V) :=
  catchUpLength amtElementsSinceUpdate ++ [.appendValueLoop input]

def addStringToArray (characters : W → List V × W) (amtElementsSinceUpdate : Nat) :
    List (Statement W V) := addLoopToArray characters amtElementsSinceUpdate

def addSetToArray (members : W → List V × W) (amtElementsSinceUpdate : Nat) :
    List (Statement W V) := addLoopToArray members amtElementsSinceUpdate

def addIterableFunctionToArray (results : W → List V × W)
    (amtElementsSinceUpdate : Nat) : List (Statement W V) :=
  addLoopToArray results amtElementsSinceUpdate

def addGeneratorToArray (results : W → List V × W) (amtElementsSinceUpdate : Nat) :
    List (Statement W V) := addLoopToArray results amtElementsSinceUpdate

variable (newArray : List V → V)

def entryValues (entries : W → List (V × V) × W) (world : W) : List V × W :=
  ((entries world).1.map fun (key, value) => newArray [key, value], (entries world).2)

def addMapToArray (entries : W → List (V × V) × W) (amtElementsSinceUpdate : Nat) :
    List (Statement W V) := addLoopToArray (entryValues newArray entries) amtElementsSinceUpdate

def tupleValues (results : W → List (List V) × W) (world : W) : List V × W :=
  ((results world).1.map newArray, (results world).2)

def addIterableFunctionLuaTupleToArray (results : W → List (List V) × W)
    (amtElementsSinceUpdate : Nat) : List (Statement W V) :=
  addLoopToArray (tupleValues newArray results) amtElementsSinceUpdate

def getAddIterableToArrayBuilder (spread : Spread W V) (amtElementsSinceUpdate : Nat)
    (shouldUpdateLength : Bool) : List (Statement W V) :=
  match spread with
  | .array items => addArrayToArray items amtElementsSinceUpdate shouldUpdateLength
  | .string characters => addStringToArray characters amtElementsSinceUpdate
  | .set members => addSetToArray members amtElementsSinceUpdate
  | .map entries => addMapToArray newArray entries amtElementsSinceUpdate
  | .iterableFunctionLuaTuple results =>
    addIterableFunctionLuaTupleToArray newArray results amtElementsSinceUpdate
  | .iterableFunction results => addIterableFunctionToArray results amtElementsSinceUpdate
  | .generator results => addGeneratorToArray results amtElementsSinceUpdate

/-- The loop over the elements of a literal with spreads. -/
def transformParts : ArrayPointer W V → Nat → Nat → List (Part W V) →
    List (Statement W V) × ArrayPointer W V
  | ptr, _, _, [] => ([], ptr)
  | .inline members, _, temps, .spread spread :: rest =>
    let (statements, ptr) := transformParts .identifier 0 temps rest
    (.declareArray members ::
      (getAddIterableToArrayBuilder newArray spread 0 (!rest.isEmpty) ++ statements), ptr)
  | .identifier, amtElementsSinceUpdate, temps, .spread spread :: rest =>
    let (statements, ptr) := transformParts .identifier amtElementsSinceUpdate temps rest
    (getAddIterableToArrayBuilder newArray spread amtElementsSinceUpdate (!rest.isEmpty) ++
      statements, ptr)
  | .inline members, amtElementsSinceUpdate, temps, .element element :: rest =>
    let (prereqs, expression) := element.transform temps
    if element.hasPrereqs then
      let (statements, ptr) := transformParts .identifier 1 (temps + element.declared) rest
      (.declareArray members :: (prereqs ++ .assignIndex 1 expression :: statements), ptr)
    else
      transformParts (.inline (members ++ [expression])) (amtElementsSinceUpdate + 1) temps rest
  | .identifier, amtElementsSinceUpdate, temps, .element element :: rest =>
    let (prereqs, expression) := element.transform temps
    let (statements, ptr) := transformParts .identifier (amtElementsSinceUpdate + 1)
      (temps + element.declared) rest
    (prereqs ++ .assignIndex (amtElementsSinceUpdate + 1) expression :: statements, ptr)

def plainElements : List (Part W V) → Option (List (Element W V))
  | [] => some []
  | .element element :: rest => (plainElements rest).map (element :: ·)
  | .spread _ :: _ => none

def transformArrayLiteralExpression (parts : List (Part W V)) :
    List (Statement W V) × ArrayPointer W V :=
  match plainElements parts with
  | some elements =>
    let (statements, members) := ensureTransformOrder 0 elements
    (statements, .inline members)
  | none => transformParts newArray (.inline []) 0 0 parts

end Transform

section Run

variable {W V : Type}

/-- The state of the emitted code: tables are what is at each index. -/
structure Store (W V : Type) where
  world : W
  array : Nat → Option V := fun _ => none
  length : Nat := 0
  temporaries : List V := []

def Expression.run (store : Store W V) : Expression W V → Option V × Store W V
  | .constant value => (some value, store)
  | .temporary index => (store.temporaries[index]?, store)
  | .computed run => (some (run store.world).1, { store with world := (run store.world).2 })

def runMembers (store : Store W V) : List (Expression W V) → List (Option V) × Store W V
  | [] => ([], store)
  | member :: rest =>
    let (value, store) := member.run store
    let (values, store) := runMembers store rest
    (value :: values, store)

def newTable (values : List (Option V)) : Nat → Option V
  | 0 => none
  | index + 1 => values[index]?.join

def moveInto (array : Nat → Option V) (start : Nat) : List V → Nat → Option V
  | [] => array
  | value :: values => moveInto (Function.update array start (some value)) (start + 1) values

def appendValues (store : Store W V) : List V → Store W V
  | [] => store
  | value :: values => appendValues { store with
      length := store.length + 1
      array := Function.update store.array (store.length + 1) (some value) } values

def Statement.run (store : Store W V) : Statement W V → Store W V
  | .prereqs run => { store with world := run store.world }
  | .declareTemporary expression =>
    let (value, store) := expression.run store
    { store with temporaries := store.temporaries ++ value.toList }
  | .declareArray members =>
    let (values, store) := runMembers store members
    { store with array := newTable values, length := values.length }
  | .assignIndex offset expression =>
    let (value, store) := expression.run store
    { store with array := Function.update store.array (store.length + offset) value }
  | .tableMove input offset shouldUpdateLength =>
    let (values, world) := input store.world
    { store with
      world := world
      array := moveInto store.array (store.length + offset) values
      length := if shouldUpdateLength then store.length + values.length else store.length }
  | .addLength amount => { store with length := store.length + amount }
  | .appendValueLoop input =>
    let (values, world) := input store.world
    appendValues { store with world := world } values

/-- The table the literal stands for after its statements have run. -/
def ArrayPointer.run (store : Store W V) : ArrayPointer W V → (Nat → Option V) × W
  | .inline members =>
    let (values, store) := runMembers store members
    (newTable values, store.world)
  | .identifier => (store.array, store.world)

def runLiteral (newArray : List V → V) (parts : List (Part W V)) (world : W) :
    (Nat → Option V) × W :=
  let (statements, ptr) := transformArrayLiteralExpression newArray parts
  ptr.run (statements.foldl Statement.run { world := world })

end Run

section TypeScript

variable {W V : Type} (newArray : List V → V)

def Element.evaluate (element : Element W V) (world : W) : V × W :=
  let world := (element.prereqs.getD id) world
  match element.operand with
  | .constant value => (value, world)
  | .stored run => run world
  | .computed run => run world

def Spread.evaluate : Spread W V → W → List V × W
  | .array items => items
  | .string characters => characters
  | .set members => members
  | .map entries => entryValues newArray entries
  | .iterableFunctionLuaTuple results => tupleValues newArray results
  | .iterableFunction results => results
  | .generator results => results

/-- What the parts of a literal contribute, evaluated from left to right. -/
def evaluate : List (Part W V) → W → List (List V) × W
  | [], world => ([], world)
  | .element element :: rest, world =>
    let (value, world) := element.evaluate world
    let (values, world) := evaluate rest world
    ([value] :: values, world)
  | .spread spread :: rest, world =>
    let (items, world) := spread.evaluate newArray world
    let (values, world) := evaluate rest world
    (items :: values, world)

end TypeScript

end Rotor.Transformer.ArrayLiteral
