import Rotor.Bytes

/-!
The bundle that `rotor pack` emits (`pack/luau.go`): the statements that rebuild the
instance tree, and the runtime prelude's child lookup.

A table is an object with its raw fields; reading a field that is not there goes through
`__index`.  The prelude's functions call each other without a bound, so that they take
fuel here; a call that has run out of it has not returned.  Real instances of the host are
kept abstract.
-/

namespace Rotor.Pack

/-! ### Emission -/

inductive Instance where
  | mk (className name source value : Bytes) (children : List Instance)

def Instance.className : Instance → Bytes
  | .mk className _ _ _ _ => className

def Instance.name : Instance → Bytes
  | .mk _ name _ _ _ => name

def Instance.children : Instance → List Instance
  | .mk _ _ _ _ children => children

/-- An instance with the id that it gets and the id of its parent. -/
structure Entry where
  id : Nat
  parentID : Option Nat
  className : Bytes
  name : Bytes
  source : Bytes
  value : Bytes
  deriving DecidableEq

def isScriptClass (className : Bytes) : Bool :=
  className == str "ModuleScript" || className == str "Script" || className == str "LocalScript"

mutual
/-- The instances of a tree, each in front of its children, numbered from `next` on. -/
def assign (parentID : Option Nat) (next : Nat) : Instance → List Entry
  | .mk className name source value children =>
    ⟨next, parentID, className, name, source, value⟩ :: assignAll (some next) (next + 1) children

def assignAll (parentID : Option Nat) (next : Nat) : List Instance → List Entry
  | [] => []
  | child :: children =>
    let first := assign parentID next child
    first ++ assignAll parentID (next + first.length) children
end

/-- The statements about one instance and those behind all of them. -/
inductive Stmt where
  | mk (id : Nat) (className name : Bytes)
  | setParent (child parent : Nat)
  | setValue (id : Nat) (value : Bytes)
  | setImpl (id : Nat) (source : Bytes)
  deriving DecidableEq

def declare (entry : Entry) : List Stmt :=
  .mk entry.id entry.className entry.name :: (match entry.parentID with
      | some parent => [.setParent entry.id parent]
      | none => []) ++
    (if entry.className = str "StringValue" then [.setValue entry.id entry.value] else [])

/-- The instance tree and the implementations that `EmitLuau` writes. -/
def emit (root : Instance) : List Stmt :=
  let all := assign none 1 root
  all.flatMap declare ++ (all.filter fun entry => isScriptClass entry.className).map fun entry =>
      .setImpl entry.id entry.source

/-! ### Tables -/

/-- The raw fields of an instance's table; `Parent` is absent at first. -/
structure Obj where
  className : Bytes
  name : Bytes
  parent : Option Nat
  children : List Nat
  value : Option Bytes
  impl : Option Bytes
  deriving DecidableEq

abbrev Heap := Nat → Option Obj

def Heap.modify (heap : Heap) (id : Nat) (change : Obj → Obj) : Heap :=
  Function.update heap id ((heap id).map change)

def exec (heap : Heap) : Stmt → Heap
  | .mk id className name =>
    Function.update heap id (some ⟨className, name, none, [], none, none⟩)
  | .setParent child parent =>
    (heap.modify child fun obj => { obj with parent := some parent }).modify parent fun obj =>
      { obj with children := obj.children ++ [child] }
  | .setValue id value => heap.modify id fun obj => { obj with value := some value }
  | .setImpl id source => heap.modify id fun obj => { obj with impl := some source }

def load (root : Instance) : Heap := (emit root).foldl exec fun _ => none

/-! ### Child lookup -/

structure Host (R : Type) where
  findFirstChild : R → Bytes → Option R
  waitForChild : R → Bytes → Option R
  index : R → Bytes → Option R
  isFunction : R → Bool
  name : R → Bytes

/-- What the lookup runs in; `realGame` is nil without a host `game`, and when the root is
no DataModel. -/
structure Runtime (R : Type) where
  heap : Heap
  realGame : Option R
  host : Host R

inductive Value (R : Type) where
  | nil
  | virtual (id : Nat)
  | real (value : R)
  /-- A function of the real game, called with it in place of the root. -/
  | wrapped (value : R)
  | method (name : Bytes)
  | text (text : Bytes)
  | number (number : Nat)
  /-- The table of children, an implementation, or `false`. -/
  | other

/-- An error that stops the script, such as `rawget` of a real instance. -/
inductive LuaError where
  | badArgument
  deriving DecidableEq

/-- The `_real` fields: absent, `false` or an instance of the host. -/
abbrev Memo (R : Type) := Nat → Option (Option R)

abbrev Lua (R α : Type) := Memo R → Option (Except LuaError (α × Memo R))

variable {R : Type}

def Lua.ret {α : Type} (value : α) : Lua R α := fun memo => some (.ok (value, memo))

def Lua.fail {α : Type} (error : LuaError) : Lua R α := fun _ => some (.error error)

def Lua.outOfFuel {α : Type} : Lua R α := fun _ => none

def Lua.andThen {α β : Type} (first : Lua R α) (next : α → Lua R β) : Lua R β :=
  fun memo =>
    match first memo with
    | none => none
    | some (.error error) => some (.error error)
    | some (.ok (value, memo)) => next value memo

def Value.ofReal : Option R → Value R
  | some value => .real value
  | none => .nil

def methods : List Bytes :=
  [str "FindFirstChild", str "WaitForChild", str "GetChildren", str "GetFullName"]

def dmMethods : List Bytes := [str "GetService", str "FindService"]

/-- The raw field of a table, the memo among them. -/
def rawField (obj : Obj) (id : Nat) (memo : Memo R) (key : Bytes) : Option (Value R) :=
  if key = str "_id" then some (.number id)
  else if key = str "_children" then some .other
  else if key = str "ClassName" then some (.text obj.className)
  else if key = str "Name" then some (.text obj.name)
  else if key = str "Parent" then obj.parent.map .virtual
  else if key = str "Value" then obj.value.map .text
  else if key = str "_impl" then obj.impl.map fun _ => .other
  else if key = str "_real" then
    (memo id).map fun real => match real with
      | some value => .real value
      | none => .other
  else none

variable (runtime : Runtime R)

def virtualChild (obj : Obj) (name : Bytes) : Option Nat :=
  obj.children.find? fun child => (runtime.heap child).any fun obj => obj.name == name

def dataModelIndex (obj : Obj) (key : Bytes) : Value R :=
  if dmMethods.contains key ∨ methods.contains key then .method key
  else
    match virtualChild runtime obj key with
    | some child => .virtual child
    | none =>
      match runtime.realGame with
      | none => .nil
      | some game =>
        match runtime.host.index game key with
        | none => .nil
        | some value => if runtime.host.isFunction value then .wrapped value else .real value

mutual
def index : Nat → Nat → Bytes → Lua R (Value R)
  | 0, _, _ => .outOfFuel
  | fuel + 1, self, key => fun memo =>
    match runtime.heap self with
    | none => some (.error .badArgument)
    | some obj =>
      match rawField obj self memo key with
      | some value => some (.ok (value, memo))
      | none =>
        if obj.className = str "DataModel" then
          some (.ok (dataModelIndex runtime obj key, memo))
        else if methods.contains key then some (.ok (.method key, memo))
        else findFirstChild fuel self key memo

def findFirstChild : Nat → Nat → Bytes → Lua R (Value R)
  | 0, _, _ => .outOfFuel
  | fuel + 1, self, name => fun memo =>
    match runtime.heap self with
    | none => some (.error .badArgument)
    | some obj =>
      match virtualChild runtime obj name with
      | some child => some (.ok (.virtual child, memo))
      | none =>
        Lua.andThen (realOf fuel self) (fun real => .ret (.ofReal
          (real.bind fun real => runtime.host.findFirstChild real name))) memo

/-- The real instance that a virtual one stands in for; the answer is kept in `_real`. -/
def realOf : Nat → Nat → Lua R (Option R)
  | 0, _ => .outOfFuel
  | fuel + 1, self => fun memo =>
    match runtime.heap self with
    | none => some (.error .badArgument)
    | some obj =>
      match memo self with
      | some real => some (.ok (real, memo))
      | none =>
        Lua.andThen (Lua.andThen (index fuel self (str "Parent")) fun parent =>
          match parent with
          | .nil => .ret runtime.realGame
          -- The field is read a second time for the recursive call.
          | _ => Lua.andThen (index fuel self (str "Parent")) fun parent =>
            match parent with
            | .virtual parent => Lua.andThen (realOf fuel parent) fun real =>
              .ret (real.bind fun real => runtime.host.findFirstChild real obj.name)
            | _ => .fail .badArgument)
          (fun found memo => some (.ok (found, Function.update memo self (some found)))) memo
end

def waitForChild (fuel self : Nat) (name : Bytes) : Lua R (Value R) := fun memo =>
  match runtime.heap self with
  | none => some (.error .badArgument)
  | some obj =>
    match virtualChild runtime obj name with
    | some child => some (.ok (.virtual child, memo))
    | none =>
      Lua.andThen (realOf runtime fuel self) (fun real => .ret (.ofReal
        (real.bind fun real => runtime.host.waitForChild real name))) memo

/-- The loop of `getFullName`: the names from `cur` up, in front of `parts`. -/
def fullNameParts : Nat → Value R → List Bytes → Lua R (List Bytes)
  | 0, _, _ => .outOfFuel
  | fuel + 1, cur, parts => fun memo =>
    match cur with
    | .nil => some (.ok (parts, memo))
    | .virtual id =>
      match runtime.heap id with
      | none => some (.error .badArgument)
      | some obj =>
        Lua.andThen (index runtime fuel id (str "Parent"))
          (fun cur => fullNameParts fuel cur (obj.name :: parts)) memo
    | .real value =>
      fullNameParts fuel (.ofReal (runtime.host.index value (str "Parent")))
        (runtime.host.name value :: parts) memo
    | _ => some (.error .badArgument)

def getFullName (fuel self : Nat) : Lua R Bytes :=
  Lua.andThen (fullNameParts runtime fuel (.virtual self) []) fun parts =>
    .ret ((str ".").intercalate parts)

end Rotor.Pack
