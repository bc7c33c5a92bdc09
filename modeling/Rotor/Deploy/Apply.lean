import Rotor.Deploy.Plan

/-!
Carrying out a plan (`deploy/apply.go`).

What a provider does outside of the state, and whether a call fails, is a function of a
world that the calls hand on to each other.  The recorded state is what providers can
look up outputs of other resources in.
-/

namespace Rotor.Deploy

structure Provider (I W E : Type) where
  create : State → I → Option StateEntry → W → Except E Outputs × W
  update : State → I → Option StateEntry → W → Except E Outputs × W
  delete : State → Option StateEntry → W → Except E Unit × W

structure ApplyOptions (I W E : Type) where
  providers : Bytes → Option (Provider I W E)
  /-- Called after every change of the state. -/
  saveState : Option (State → W → Except E Unit × W)

inductive StepStatus where
  | applied | unchanged | failed | skipped
  deriving DecidableEq

inductive StepError (E : Type) where
  /-- "dependency %s failed" -/
  | dependency (key : Bytes)
  | provider (error : E)

structure StepResult (I E : Type) where
  step : Step I
  status : StepStatus
  error : Option (StepError E)

structure ApplyResult (I E : Type) where
  results : List (StepResult I E)
  created : Nat
  updated : Nat
  deleted : Nat
  unchanged : Nat
  failed : Nat
  skipped : Nat

inductive ApplyError (E : Type) where
  /-- "deploy: plan contains %d delete(s); re-run with --allow-deletes to remove resources" -/
  | blockedDeletes (count : Nat)
  /-- "deploy: no provider registered for resource kind %q" -/
  | noProvider (kind : Bytes)
  | saving (error : E)
  /-- "deploy: blocked delete reached apply for %s" -/
  | blockedDelete (key : Bytes)
  /-- The resource of a create or an update is nil; no plan has such a step. -/
  | nilResource

variable {I W E : Type}

structure Run (I W E : Type) where
  state : State
  world : W
  /-- The keys that failed or were skipped. -/
  failed : List Bytes
  result : ApplyResult I E

def failedDep (resource : Option (Resource I)) (failed : List Bytes) : Option ResourceRef :=
  resource.bind fun resource => resource.dependsOn.find? fun dep => failed.contains dep.key

def ApplyResult.record (result : ApplyResult I E) (step : Step I)
    (status : StepStatus) (error : Option (StepError E)) : ApplyResult I E :=
  { result with results := result.results ++ [⟨step, status, error⟩] }

def Run.skip (run : Run I W E) (step : Step I) (dep : ResourceRef) : Run I W E :=
  { run with
    failed := step.ref.key :: run.failed
    result := { run.result.record step .skipped (some (.dependency dep.key)) with
      skipped := run.result.skipped + 1 } }

def Run.fail (run : Run I W E) (step : Step I) (error : E) : Run I W E :=
  { run with
    failed := step.ref.key :: run.failed
    result := { run.result.record step .failed (some (.provider error)) with
      failed := run.result.failed + 1 } }

/-- Save the state, then count the step as `counted` has it. -/
def Run.save (options : ApplyOptions I W E) (run : Run I W E)
    (step : Step I) (counted : ApplyResult I E → ApplyResult I E) :
    Except (ApplyError E × Run I W E) (Run I W E) :=
  let saved : Except E Unit × W := match options.saveState with
    | none => (.ok (), run.world)
    | some save => save run.state run.world
  match saved with
  | (.error error, world) => .error (.saving error, { run with world := world })
  | (.ok _, world) =>
    .ok { run with world := world, result := counted (run.result.record step .applied none) }

def applyChange (options : ApplyOptions I W E) (run : Run I W E) (step : Step I) (isCreate : Bool) :
    Except (ApplyError E × Run I W E) (Run I W E) :=
  match failedDep step.resource run.failed with
  | some dep => .ok (run.skip step dep)
  | none =>
    match options.providers step.ref.kind, step.resource with
    | none, _ => .error (.noProvider step.ref.kind, run)
    | some _, none => .error (.nilResource, run)
    | some provider, some resource =>
      let prior := run.state.lookup step.ref.key
      let call := if isCreate then provider.create else provider.update
      match call run.state resource.inputs prior run.world with
      | (.error error, world) => .ok ({ run with world := world }.fail step error)
      | (.ok outputs, world) =>
        -- Outputs that the provider does not produce again are kept.
        let merged := match prior with
          | some entry => outputs ∪ entry.outputs
          | none => outputs
        Run.save options { run with
            world := world
            state := run.state.insert step.ref.key ⟨step.inputsHash, merged⟩ }
          step fun result =>
            if isCreate then { result with created := result.created + 1 }
            else { result with updated := result.updated + 1 }

/-- An entry of a kind without a provider is forgotten without a call. -/
def applyDelete (options : ApplyOptions I W E) (run : Run I W E)
    (step : Step I) : Except (ApplyError E × Run I W E) (Run I W E) :=
  let called : Except E Unit × W := match options.providers step.ref.kind with
    | none => (.ok (), run.world)
    | some provider => provider.delete run.state (run.state.lookup step.ref.key) run.world
  match called with
  | (.error error, world) => .ok ({ run with world := world }.fail step error)
  | (.ok _, world) =>
    Run.save options { run with world := world, state := run.state.erase step.ref.key }
      step fun result => { result with deleted := result.deleted + 1 }

def applyStep (options : ApplyOptions I W E) (run : Run I W E)
    (step : Step I) : Except (ApplyError E × Run I W E) (Run I W E) :=
  match step.op with
  | .noop =>
    .ok { run with result := { run.result.record step .unchanged none with
      unchanged := run.result.unchanged + 1 } }
  | .create => applyChange options run step true
  | .update => applyChange options run step false
  | .delete => applyDelete options run step
  | .blockedDelete => .error (.blockedDelete step.ref.key, run)

def applySteps (options : ApplyOptions I W E) : Run I W E → List (Step I) →
    Except (ApplyError E × Run I W E) (Run I W E)
  | run, [] => .ok run
  | run, step :: steps =>
    match applyStep options run step with
    | .error error => .error error
    | .ok run => applySteps options run steps

def Run.start (st : State) (world : W) : Run I W E := ⟨st, world, [], ⟨[], 0, 0, 0, 0, 0, 0⟩⟩

def apply (plan : Plan I) (options : ApplyOptions I W E) (st : State)
    (world : W) : Except (ApplyError E × Run I W E) (Run I W E) :=
  if 0 < plan.blockedDeletes then
    .error (.blockedDeletes plan.blockedDeletes, Run.start st world)
  else applySteps options (Run.start st world) plan.steps

end Rotor.Deploy
