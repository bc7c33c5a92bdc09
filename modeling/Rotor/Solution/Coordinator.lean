import Rotor.Lib.Worklist
import Rotor.Solution.Graph
import Rotor.Solution.Scheduler

/-!
The coordinator of a solution.

It remembers for each project whether it is up to date. `drain` builds the projects that are
not, `invalidate` marks projects whose sources changed and those that depend on them, and
`reload` reads the graph again. What the project builds answer and how the workers interleave
comes from a schedule.
-/

namespace Rotor.Solution

structure BuildResult where
  outputs : AList fun _ : Bytes => Bytes := ∅
  emittedFiles : List Bytes := []
  /-- The messages of the diagnostics. -/
  diagnostics : List Bytes := []
  wroteRotorTypes : Bool := false
  wroteLockfile : Bool := false

inductive DrainError (F : Type) where
  /-- `compile: project %s blocked by failed dependency %s` -/
  | blocked (project dependency : Bytes)
  | build (error : F)
  /-- `persist solution build state: %w` -/
  | persist (error : F)
  deriving DecidableEq

/-- What the drainer answers for one project, and the writes it has put off. -/
structure Drained (F P : Type) where
  result : Option BuildResult := none
  messages : List Bytes := []
  err : Option F := none
  persists : List P := []

structure DrainOutcome (F P : Type) where
  skip : Bool := false
  blockedBy : Bytes := []
  result : Option BuildResult := none
  messages : List Bytes := []
  err : Option (DrainError F) := none
  persists : List P := []

structure SolutionProjectState (F : Type) where
  result : Option BuildResult := none
  upToDate : Bool := false
  blockedBy : Bytes := []
  err : Option (DrainError F) := none
  forceFullBuild : Bool := false

/-- What the coordinator is made from. The write roots are those `populateCrossProjectMetadata`
finds in the compiled programs. -/
structure Setting (O E : Type) extends Workspace O E where
  builders : O → Option Int
  writeRoots : SolutionProject O → List Bytes
  useCaseSensitiveFileNames : Bool
  toLower : Bytes → Bytes

structure SolutionCoordinator (O F P : Type) where
  graph : SolutionGraph O
  states : AList fun _ : Bytes => SolutionProjectState F
  waitOnlyDependencies : Bytes → List Bytes
  builders : Int
  /-- What the drainer has put off. -/
  persists : List P

variable {O E F P : Type}

/-! ### Projects that write to the same place -/

section WriteRoots

variable (setting : Setting O E)

def writeRootContains (root path : Bytes) : Bool :=
  let fold := if setting.useCaseSensitiveFileNames then id else setting.toLower
  match Path.rel (fold root) (fold path) with
  | none => false
  | some relative => relative != str ".." && !(str "../").isPrefixOf relative

def writeRootsOverlap (left right : List Bytes) : Bool :=
  left.any fun leftRoot => right.any fun rightRoot =>
    writeRootContains setting leftRoot rightRoot || writeRootContains setting rightRoot leftRoot

/-- A project waits for every earlier one it shares a write root with. -/
def deriveWaitOnlyDependencies (projects : List (SolutionProject O)) (path : Bytes) : List Bytes :=
  projects.zipIdx.flatMap fun (later, laterIndex) =>
    if later.configPath = path then
      ((projects.take laterIndex).filter fun earlier =>
        writeRootsOverlap setting (setting.writeRoots earlier) (setting.writeRoots later)).map
          (·.configPath)
    else []

end WriteRoots

/-! ### Making and reloading a coordinator -/

def effectiveSolutionBuilders (setting : Setting O E) (entry : O) : Int :=
  (setting.builders entry).getD 4

/-- The states of the projects of a graph, as far as they were known. -/
def statesFor (graph : SolutionGraph O) (known : AList fun _ : Bytes => SolutionProjectState F) :
    AList fun _ : Bytes => SolutionProjectState F :=
  graph.projects.foldl (fun states project =>
    states.insert project.configPath ((known.lookup project.configPath).getD {})) ∅

def newSolutionCoordinator (setting : Setting O E) (tsConfigPath : Bytes)
    (entry : O) : ExceptT (SolutionError E) Option
      (SolutionCoordinator O F P) := do
  let graph ← buildSolutionGraph setting.toWorkspace tsConfigPath entry
  pure {
    graph
    states := statesFor graph ∅
    waitOnlyDependencies := deriveWaitOnlyDependencies setting graph.projects
    builders := effectiveSolutionBuilders setting entry
    persists := [] }

/-- The projects that are still there keep their states; the drainer is a new one. -/
def SolutionCoordinator.reload (coord : SolutionCoordinator O F P)
    (setting : Setting O E) (tsConfigPath : Bytes) (entry : O) :
    ExceptT (SolutionError E) Option
      (SolutionCoordinator O F P) := do
  let graph ← buildSolutionGraph setting.toWorkspace tsConfigPath entry
  pure {
    graph
    states := statesFor graph coord.states
    waitOnlyDependencies := deriveWaitOnlyDependencies setting graph.projects
    builders := effectiveSolutionBuilders setting entry
    persists := [] }

/-! ### Draining -/

section Drain

variable (coord : SolutionCoordinator O F P)

def SolutionCoordinator.state (path : Bytes) : SolutionProjectState F :=
  (coord.states.lookup path).getD {}

/-- The config paths of a graph are distinct. -/
def SolutionCoordinator.indexByConfigPath (path : Bytes) : Option Nat :=
  coord.graph.projects.findIdx? (·.configPath == path)

def SolutionCoordinator.task (project : SolutionProject O) (index : Nat) : SolutionTask where
  index := index
  predecessors := project.references.filterMap coord.indexByConfigPath
  waitOnly := (coord.waitOnlyDependencies project.configPath).filterMap coord.indexByConfigPath

def SolutionCoordinator.tasks : List SolutionTask :=
  coord.graph.projects.mapIdx fun index project => coord.task project index

def SolutionCoordinator.withoutBuild (index : Nat) (outcomes : Nat → Option (DrainOutcome F P)) :
    Option (DrainOutcome F P) :=
  match coord.graph.projects[index]? with
  | none => none
  | some project =>
    if (coord.state project.configPath).upToDate then some { skip := true }
    else
      let failed := (coord.task project index).predecessors.find? fun predecessor =>
        ((outcomes predecessor).bind (·.err)).isSome
      match failed.bind fun predecessor => coord.graph.projects[predecessor]? with
      | none => none
      | some dependency => some {
          blockedBy := dependency.configPath
          err := some (.blocked project.configPath dependency.configPath) }

def SolutionCoordinator.work : Work (DrainOutcome F P) (Drained F P) where
  immediate := coord.withoutBuild
  answered _ drained := {
    result := drained.result
    messages := drained.messages
    err := drained.err.map .build
    persists := drained.persists }

def mergeSolutionBuildResult (result : BuildResult) (project : SolutionProject O)
    (built : BuildResult) : BuildResult where
  outputs := built.outputs.entries.foldl (fun outputs entry =>
    outputs.insert (Path.join [Path.dir project.configPath, entry.1]) entry.2) result.outputs
  emittedFiles := result.emittedFiles ++ built.emittedFiles
  diagnostics := result.diagnostics ++ built.diagnostics
  wroteRotorTypes := result.wroteRotorTypes || built.wroteRotorTypes
  wroteLockfile := result.wroteLockfile || built.wroteLockfile

structure Gathered (F P : Type) where
  states : AList fun _ : Bytes => SolutionProjectState F
  persists : List P
  result : BuildResult := {}
  firstErr : Option (DrainError F) := none

def blockedMessage (project dependency : Bytes) : Bytes :=
  str "compile: project " ++ project ++ str " blocked by failed dependency " ++ dependency

/-- The state of a project after its outcome. A build that failed by itself leaves `blockedBy`. -/
def SolutionProjectState.after (state : SolutionProjectState F)
    (outcome : DrainOutcome F P) : SolutionProjectState F :=
  match outcome.err with
  | none => { state with
      result := outcome.result, blockedBy := [], err := none, upToDate := true,
      forceFullBuild := false }
  | some err =>
    if outcome.blockedBy ≠ [] then
      { state with result := outcome.result, blockedBy := outcome.blockedBy, err := some err }
    else { state with result := outcome.result, err := some err }

def DrainOutcome.report (outcome : DrainOutcome F P) (configPath : Bytes) : List Bytes :=
  match outcome.err with
  | none => []
  | some _ =>
    if outcome.blockedBy ≠ [] then [blockedMessage configPath outcome.blockedBy]
    else if (outcome.result.map (·.diagnostics)).getD [] = [] then outcome.messages
    else []

def gather (gathered : Gathered F P) (project : SolutionProject O)
    (outcome : DrainOutcome F P) : Gathered F P :=
  if outcome.skip then gathered
  else
    let state := (gathered.states.lookup project.configPath).getD {}
    let merged := outcome.result.elim gathered.result
      (mergeSolutionBuildResult gathered.result project)
    { states := gathered.states.insert project.configPath (state.after outcome)
      persists := gathered.persists ++ outcome.persists
      result := { merged with
        diagnostics := merged.diagnostics ++ outcome.report project.configPath }
      firstErr := gathered.firstErr.or outcome.err }

/-- What `persist` leaves to do, and its error. -/
def persist (write : P → Option F) : List P → List P × Option (DrainError F)
  | [] => ([], none)
  | first :: rest =>
    match write first with
    | none => persist write rest
    | some error => (first :: rest, some (.persist error))

/-- What `drain` returns, and what happened on the way. -/
structure DrainReport (F P : Type) where
  result : BuildResult
  messages : List Bytes
  err : Option (DrainError F)
  outcomes : Nat → Option (DrainOutcome F P)
  events : List (Event (DrainOutcome F P))

/-- One call of `Drain` along a schedule; none when the workers do not return along it. -/
def SolutionCoordinator.drain (schedule : List (Nat × Drained F P)) (write : P → Option F) :
    Option (SolutionCoordinator O F P × DrainReport F P) :=
  match runSchedule coord.tasks coord.work (startPool coord.builders) schedule with
  | none => none
  | some (pool, events) =>
    if pool.Returned then
      let gathered := (coord.graph.projects.zipIdx).foldl (fun gathered (project, index) =>
          gather gathered project ((pool.outcomes index).getD {}))
        { states := coord.states, persists := coord.persists }
      match gathered.firstErr with
      | some err => some ({ coord with states := gathered.states, persists := gathered.persists },
            { result := gathered.result, messages := gathered.result.diagnostics, err := some err,
              outcomes := pool.outcomes, events })
      | none =>
        let (persists, err) := persist write gathered.persists
        some ({ coord with states := gathered.states, persists },
          { result := gathered.result
            messages := if err.isSome then gathered.result.diagnostics else []
            err, outcomes := pool.outcomes, events })
    else none

end Drain

/-! ### Invalidating -/

section Invalidate

def reverse (projects : List (SolutionProject O)) (path : Bytes) : List Bytes :=
  projects.flatMap fun project => project.references.filterMap fun reference =>
    if reference = path then some project.configPath else none

/-- The state of a project that has been invalidated. A project that was not named itself is built
from scratch: what changed are the outputs of others. -/
def SolutionProjectState.invalidated (state : SolutionProjectState F) (isDirect : Bool) :
    SolutionProjectState F :=
  { state with
    upToDate := false
    blockedBy := []
    err := none
    forceFullBuild := if isDirect then state.forceFullBuild else true }

def SolutionCoordinator.direct (coord : SolutionCoordinator O F P)
    (workingDirectory : Bytes) (paths : List Bytes) : List Bytes :=
  (paths.map fun path => Path.clean (Path.abs workingDirectory path)).filter (· ∈ coord.states)

def SolutionCoordinator.seen (coord : SolutionCoordinator O F P)
    (direct : List Bytes) : List Bytes :=
  let next := reverse coord.graph.projects
  let paths := coord.graph.projects.map (·.configPath)
  Lib.Worklist.close next (direct.length + Lib.Worklist.pending next [] paths) direct []

/-- The states are changed in the order of the projects. -/
def SolutionCoordinator.invalidate (coord : SolutionCoordinator O F P)
    (workingDirectory : Bytes) (paths : List Bytes) :
    SolutionCoordinator O F P × List Bytes :=
  let direct := coord.direct workingDirectory paths
  let seen := coord.seen direct
  let result := (coord.graph.projects.map (·.configPath)).filter (· ∈ seen)
  let states := result.foldl (fun states path =>
    states.insert path (((states.lookup path).getD {}).invalidated (path ∈ direct)))
    coord.states
  ({ coord with states }, result)

end Invalidate

end Rotor.Solution
