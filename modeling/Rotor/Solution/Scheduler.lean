import Mathlib.Data.List.Basic

/-!
The workers that run the tasks of a solution.

Each worker claims the next task from a shared counter, waits until the barriers of the task
are closed, runs it and closes its own barrier. A schedule says which worker moves next, so a
run of the workers is a run along a schedule; what the outside world answers to a task that
calls out is part of the schedule as well.
-/

namespace Rotor.Solution

structure SolutionTask where
  index : Nat
  predecessors : List Nat
  waitOnly : List Nat
  deriving DecidableEq

def SolutionTask.barriers (task : SolutionTask) : List Nat := task.predecessors ++ task.waitOnly

/-- What the function `run` of a task does. It reads the outcomes of other tasks and either has
its own outcome at once, or it calls out and its outcome depends on the answer. -/
structure Work (R A : Type) where
  immediate : Nat → (Nat → Option R) → Option R
  answered : Nat → A → R

inductive Worker where
  | idle
  | waiting (task : SolutionTask) (barriers : List Nat)
  | running (task : SolutionTask)
  | exited
  deriving DecidableEq

/-- The barrier of a task is closed when its outcome is there: the outcome is written in front
of closing the barrier, and nobody reads it before. -/
structure Pool (R : Type) where
  next : Nat
  workers : List Worker
  outcomes : Nat → Option R

/-- A task calls out; a task is done and its barrier is closed. -/
inductive Event (R : Type) where
  | started (index : Nat)
  | finished (index : Nat) (outcome : R)

variable {R A : Type}

def Pool.setWorker (pool : Pool R) (position : Nat) (worker : Worker) : Pool R :=
  { pool with workers := pool.workers.set position worker }

def Pool.finish (pool : Pool R) (position index : Nat) (outcome : R) : Pool R :=
  { pool.setWorker position .idle with
    outcomes := Function.update pool.outcomes index (some outcome) }

/-- One step of the worker at a position; there is none where it waits or has returned. -/
def step (tasks : List SolutionTask) (work : Work R A) (pool : Pool R)
    (position : Nat) (answer : A) : Option (Pool R × List (Event R)) :=
  match pool.workers[position]? with
  | none => none
  | some .exited => none
  | some .idle =>
    let claimed := { pool with next := pool.next + 1 }
    match tasks[pool.next]? with
    | none => some (claimed.setWorker position .exited, [])
    | some task => some (claimed.setWorker position (.waiting task task.barriers), [])
  | some (.waiting task (barrier :: barriers)) =>
    if (pool.outcomes barrier).isSome then
      some (pool.setWorker position (.waiting task barriers), [])
    else none
  | some (.waiting task []) =>
    match work.immediate task.index pool.outcomes with
    | some outcome =>
      some (pool.finish position task.index outcome, [.finished task.index outcome])
    | none => some (pool.setWorker position (.running task), [.started task.index])
  | some (.running task) =>
    let outcome := work.answered task.index answer
    some (pool.finish position task.index outcome, [.finished task.index outcome])

/-- A run of the workers along a schedule, and what happens in it. -/
def runSchedule (tasks : List SolutionTask) (work : Work R A) :
    Pool R → List (Nat × A) → Option (Pool R × List (Event R))
  | pool, [] => some (pool, [])
  | pool, (position, answer) :: schedule =>
    match step tasks work pool position answer with
    | none => none
    | some (pool, events) =>
      match runSchedule tasks work pool schedule with
      | none => none
      | some (pool, later) => some (pool, events ++ later)

/-- Without a usable number of builders there are four. -/
def workerCount (builders : Int) : Nat := if builders ≤ 0 then 4 else builders.toNat

def startPool (builders : Int) : Pool R where
  next := 0
  workers := List.replicate (workerCount builders) .idle
  outcomes := fun _ => none

/-- All workers have returned, so that `RunSolutionTasks` returns. -/
def Pool.Returned (pool : Pool R) : Prop := ∀ worker ∈ pool.workers, worker = .exited

instance (pool : Pool R) : Decidable pool.Returned :=
  inferInstanceAs (Decidable (∀ worker ∈ pool.workers, worker = .exited))

/-- `RunSolutionTasks` returns these outcomes along the schedule. -/
def RunSolutionTasks (tasks : List SolutionTask) (builders : Int) (work : Work R A)
    (schedule : List (Nat × A)) (events : List (Event R)) (outcomes : Nat → Option R) : Prop :=
  ∃ pool, runSchedule tasks work (startPool builders) schedule = some (pool, events) ∧
    pool.Returned ∧ pool.outcomes = outcomes

end Rotor.Solution
