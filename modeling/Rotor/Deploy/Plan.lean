import Mathlib.Data.List.AList
import Rotor.Bytes
import Rotor.Lib.Kahn

/-!
Resources, recorded state and plans of `rotor deploy` (`deploy/deploy.go`, `state.go`,
`graph.go`, `plan.go`).

The inputs of a resource and the hash of inputs are parameters.  A Go map is an
association list with distinct keys; a nil map of outputs reads as an empty one
everywhere, so that the two are not told apart.
-/

namespace Rotor.Deploy

open Lib

/-! ### Resources -/

structure ResourceRef where
  kind : Bytes
  name : Bytes
  deriving DecidableEq

def ResourceRef.key (ref : ResourceRef) : Bytes := ref.kind ++ str "/" ++ ref.name

structure Resource (I : Type) where
  kind : Bytes
  name : Bytes
  dependsOn : List ResourceRef
  inputs : I

variable {I : Type}

def Resource.ref (resource : Resource I) : ResourceRef := ⟨resource.kind, resource.name⟩

def Resource.key (resource : Resource I) : Bytes := resource.ref.key

/-! ### Recorded state -/

/-- An output; a number is one whether it is an `int64` or was read back as a `float64`. -/
inductive Value where
  | int (number : Int)
  | ints (numbers : List Int)
  | other (json : Bytes)
  deriving DecidableEq

abbrev Outputs := AList fun _ : Bytes => Value

structure StateEntry where
  inputsHash : Bytes
  outputs : Outputs

abbrev State := AList fun _ : Bytes => StateEntry

/-! ### Dependency order -/

/-- `sort.Strings`. -/
def sortStrings (keys : List Bytes) : List Bytes := keys.insertionSort (· ≤ ·)

inductive GraphError where
  /-- "deploy: duplicate resource %s" -/
  | duplicate (key : Bytes)
  /-- "deploy: %s depends on %s, which is not in the graph" -/
  | unknownDependency (key dep : Bytes)
  /-- "deploy: dependency cycle involving %s" -/
  | cycle (stuck : List Bytes)
  deriving DecidableEq

def firstDuplicate (seen : List Bytes) : List Bytes → Option Bytes
  | [] => none
  | key :: keys => if seen.contains key then some key else firstDuplicate (key :: seen) keys

def byKey (resources : List (Resource I)) (key : Bytes) : Option (Resource I) :=
  resources.find? fun resource => resource.key == key

def unknownDependency (resources : List (Resource I)) : Option (Bytes × Bytes) :=
  resources.findSome? fun resource =>
    (resource.dependsOn.find? fun dep => (byKey resources dep.key).isNone).map fun dep =>
      (resource.key, dep.key)

def indegree (resources : List (Resource I)) (key : Bytes) : Int :=
  ((byKey resources key).elim 0 fun resource => resource.dependsOn.length : Nat)

def dependents (resources : List (Resource I)) (key : Bytes) : List Bytes :=
  resources.flatMap fun resource =>
    (resource.dependsOn.filter fun dep => dep.key == key).map fun _ => resource.key

/-- The levels are sorted, so that the order does not depend on how maps are walked. -/
def topoSort (resources : List (Resource I)) : Except GraphError (List (Resource I)) :=
  let keys := resources.map Resource.key
  match firstDuplicate [] keys with
  | some key => .error (.duplicate key)
  | none =>
    match unknownDependency resources with
    | some (key, dep) => .error (.unknownDependency key dep)
    | none =>
      let final := Kahn.loop sortStrings (dependents resources) resources.length
        ⟨indegree resources, keys.filter fun key => indegree resources key == 0, []⟩
      let ordered := final.ordered.filterMap (byKey resources)
      if ordered.length = resources.length then .ok ordered
      else .error (.cycle (sortStrings (keys.filter fun key => 0 < final.degree key)))

/-! ### Plans -/

inductive Op where
  | create | update | noop | delete | blockedDelete
  deriving DecidableEq

/-- One planned action; the resource of a delete is gone. -/
structure Step (I : Type) where
  op : Op
  ref : ResourceRef
  resource : Option (Resource I)
  inputsHash : Bytes

structure Plan (I : Type) where
  steps : List (Step I)
  creates : Nat
  updates : Nat
  deletes : Nat
  blockedDeletes : Nat
  noops : Nat

inductive PlanError (E : Type) where
  | graph (error : GraphError)
  /-- "deploy: hashing inputs: %w" -/
  | hashing (error : E)

variable {E : Type} (hashInputs : I → Except E Bytes)

def planOp (st : State) (key hash : Bytes) : Op :=
  match st.lookup key with
  | some prior => if prior.inputsHash = hash then .noop else .update
  | none => .create

def liveSteps (st : State) : List (Resource I) → Except (PlanError E) (List (Step I))
  | [] => .ok []
  | resource :: resources =>
    match hashInputs resource.inputs with
    | .error error => .error (.hashing error)
    | .ok hash =>
      match liveSteps st resources with
      | .error error => .error error
      | .ok steps =>
        .ok (⟨planOp st resource.key hash, resource.ref, some resource, hash⟩ :: steps)

/-- `parseStateKey`: names may contain slashes, kinds never do. -/
def parseStateKey (key : Bytes) : ResourceRef :=
  match key.dropWhile (· != 47) with
  | _ :: name => ⟨key.takeWhile (· != 47), name⟩
  | [] => ⟨key, []⟩

def goneKeys (st : State) (ordered : List (Resource I)) : List Bytes :=
  sortStrings (st.keys.filter fun key => !(ordered.map Resource.key).contains key)

def deleteStep (allowDeletes : Bool) (key : Bytes) : Step I :=
  ⟨if allowDeletes then .delete else .blockedDelete, parseStateKey key, none, []⟩

def buildPlan (resources : List (Resource I)) (st : State) (allowDeletes : Bool) :
    Except (PlanError E) (Plan I) :=
  match topoSort resources with
  | .error error => .error (.graph error)
  | .ok ordered =>
    match liveSteps hashInputs st ordered with
    | .error error => .error error
    | .ok live =>
      let gone := goneKeys st ordered
      .ok {
        steps := live ++ gone.map (deleteStep allowDeletes)
        creates := live.countP fun step => step.op == .create
        updates := live.countP fun step => step.op == .update
        noops := live.countP fun step => step.op == .noop
        deletes := if allowDeletes then gone.length else 0
        blockedDeletes := if allowDeletes then 0 else gone.length }

end Rotor.Deploy
