import Rotor.Solution.Coordinator

/-!
Watching a solution.

File events are collected in a record. A cycle takes the record, reads options and graph again
when a config is in it, invalidates the projects it names and drains the solution.
-/

namespace Rotor.Solution

structure FileEvent where
  path : Bytes
  /-- The event is `EventDelete`. -/
  deleted : Bool

/-- `ErrOverflow` or `ErrWatchTerminated`. -/
inductive WatchError where
  | overflow
  | terminated
  deriving DecidableEq

structure SolutionWatchEvents where
  projects : List Bytes := []
  configs : List Bytes := []
  /-- For each project the paths of assets, and whether they were deleted. -/
  assets : AList fun _ : Bytes => AList fun _ : Bytes => Bool := ∅
  paths : List Bytes := []

def watchCompilable (path : Bytes) : Bool :=
  Path.ext path == str ".ts" || Path.ext path == str ".tsx" || Path.ext path == str ".d.ts"

namespace SolutionWatchEvents

variable (events : SolutionWatchEvents)

def addPath (path : Bytes) : SolutionWatchEvents :=
  { events with paths := events.paths.insert path }

def addProject (project : Bytes) : SolutionWatchEvents :=
  { events with projects := events.projects.insert project }

def addConfig (config : Bytes) : SolutionWatchEvents :=
  { events with configs := events.configs.insert config }

def addAsset (project : Bytes) (event : FileEvent) : SolutionWatchEvents :=
  let known := (events.assets.lookup project).getD ∅
  { events with assets := events.assets.insert project (known.insert event.path event.deleted) }

def addEvent (project : Bytes) (event : FileEvent) : SolutionWatchEvents :=
  if watchCompilable event.path then (events.addPath event.path).addProject project
  else (events.addPath event.path).addAsset project event

def add (project : Bytes) (fileEvents : List FileEvent) (watchErr : Option WatchError) :
    SolutionWatchEvents :=
  if watchErr = some .terminated then events
  else
    let events := fileEvents.foldl (fun events event => events.addEvent project event) events
    if watchErr.isSome then events.addProject project else events

def addRojoEvent (project : Bytes) (event : FileEvent) : SolutionWatchEvents :=
  if (str ".project.json").isSuffixOf (Path.base event.path) then
    (events.addPath event.path).addConfig event.path
  else if watchCompilable event.path then events.addPath event.path
  else (events.addPath event.path).addAsset project event

def addRojo (project : Bytes) (fileEvents : List FileEvent) (watchErr : Option WatchError) :
    SolutionWatchEvents :=
  if watchErr = some .terminated then events
  else
    let events := fileEvents.foldl (fun events event => events.addRojoEvent project event) events
    if watchErr.isSome then events.addConfig project else events

def addWatchedConfig (config : Bytes) (fileEvents : List FileEvent) : SolutionWatchEvents :=
  fileEvents.foldl (fun events event => events.addPath event.path) (events.addConfig config)

end SolutionWatchEvents

inductive Delivery where
  | root (project : Bytes) (fileEvents : List FileEvent) (watchErr : Option WatchError)
  | rojo (project : Bytes) (fileEvents : List FileEvent) (watchErr : Option WatchError)
  | config (config : Bytes) (fileEvents : List FileEvent)

def SolutionWatchEvents.deliver (events : SolutionWatchEvents) : Delivery → SolutionWatchEvents
  | .root project fileEvents watchErr => events.add project fileEvents watchErr
  | .rojo project fileEvents watchErr => events.addRojo project fileEvents watchErr
  | .config config fileEvents => events.addWatchedConfig config fileEvents

/-- What a cycle finds outside: the watch sets of the projects, the options read again, whether
the outputs of the projects can be listed, the workspace, and how the builds go. -/
structure Surroundings (O E F P : Type) where
  tsConfigPaths : Bytes → List Bytes
  rojoConfigs : Bytes → List Bytes
  reload : Option O
  outputPaths : Bool
  setting : Setting O E
  schedule : List (Nat × Drained F P)
  write : P → Option F

section Cycle

variable {O E F P : Type} (tsConfigPath : Bytes)
  (coordinator : SolutionCoordinator O F P) (events : SolutionWatchEvents)
  (around : Surroundings O E F P)

/-- The projects of the record and those with a changed config on their chain. -/
def namedProjects : List Bytes :=
  if events.configs = [] then events.projects
  else (coordinator.graph.projects.map (·.configPath)).foldl (fun projects path =>
    if (around.tsConfigPaths path).any (· ∈ events.configs) then projects.insert path else projects)
    events.projects

/-- The coordinator a cycle goes on with; none where it stops because options or graph cannot be
read. The outer result is missing when building the graph has not returned. -/
def reloadForCycle : Option (Option (SolutionCoordinator O F P)) :=
  if events.configs = [] then some (some coordinator)
  else
    match around.reload with
    | none => some none
    | some entry =>
      if around.outputPaths then
        match coordinator.reload around.setting tsConfigPath entry with
        | none => none
        | some (.error _) => some none
        | some (.ok reloaded) => some (some reloaded)
      else some none

def invalidatedProjects (reloaded : SolutionCoordinator O F P) : List Bytes :=
  let named := namedProjects coordinator events around
  if events.configs ≠ [] ∧ named = [] then reloaded.graph.projects.map (·.configPath) else named

def SolutionCoordinator.invalidateEach (workingDirectory : Bytes) (projects : List Bytes) :
    SolutionCoordinator O F P :=
  projects.foldl (fun coordinator project =>
    (coordinator.invalidate workingDirectory [project]).1) coordinator

/-- One cycle; none when the builds do not end along the schedule. -/
def cycle : Option (SolutionCoordinator O F P × Option (DrainReport F P)) :=
  match reloadForCycle tsConfigPath coordinator events around with
  | none => none
  | some none => some (coordinator, none)
  | some (some reloaded) =>
    let projects := invalidatedProjects coordinator events around reloaded
    let invalidated := reloaded.invalidateEach around.setting.workingDirectory projects
    if projects ≠ [] ∨ events.configs ≠ [] then
      (invalidated.drain around.schedule around.write).map fun (drained, report) =>
        (drained, some report)
    else some (invalidated, none)

end Cycle

end Rotor.Solution
