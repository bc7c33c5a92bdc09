import Rotor.Solution.Transitive
import Rotor.Solution.Watch

/-!
Which changes a watched solution can lose.

A project is owed a build from the moment an event on it is delivered until a build of it
begins that succeeds. At the end of a cycle, the projects that were owed a build when it took the
record must have been built in it or be out of date. This holds along a run exactly when every
cycle covers the events it takes.
-/

namespace Rotor.Solution

open List

variable {O E F P : Type}

def Delivery.touched : Delivery → List Bytes
  | .root _ fileEvents _ => fileEvents.map (·.path)
  | .rojo _ fileEvents _ => fileEvents.map (·.path)
  | .config path fileEvents => path :: fileEvents.map (·.path)

def Delivery.TouchesSource (path : Bytes) : Delivery → Prop
  | .root project fileEvents _ => project = path ∧ ∃ event ∈ fileEvents, watchCompilable event.path
  | _ => False

/-- A delivery has an event on a source of a project, on a tsconfig of its chain or on a Rojo
config it walks. -/
def Delivery.Concerns (around : Surroundings O E F P) (path : Bytes) (delivery : Delivery) : Prop :=
  delivery.TouchesSource path ∨ ∃ config ∈ delivery.touched,
    config ∈ around.tsConfigPaths path ∨ config ∈ around.rojoConfigs path

/-- A delivery to a project's own watch, of an event on a source or with lost events. -/
def Delivery.Names (path : Bytes) : Delivery → Prop
  | .root project fileEvents watchErr => project = path ∧ watchErr ≠ some .terminated ∧
      ((∃ event ∈ fileEvents, watchCompilable event.path) ∨ watchErr.isSome)
  | _ => False

/-- A delivery of an event on a config, or to a Rojo watch with lost events. -/
def Delivery.Changes (config : Bytes) : Delivery → Prop
  | .root _ _ _ => False
  | .rojo project fileEvents watchErr => watchErr ≠ some .terminated ∧
      ((∃ event ∈ fileEvents, (str ".project.json").isSuffixOf (Path.base event.path) ∧
        event.path = config) ∨ watchErr.isSome ∧ project = config)
  | .config path _ => path = config

/-- A watched solution: the coordinator, the record of events, the projects it began with, what has
been delivered since, and the projects that are owed a build from before. -/
structure WatchState (O F P : Type) where
  coordinator : SolutionCoordinator O F P
  events : SolutionWatchEvents
  initial : List Bytes
  delivered : List Delivery
  owed : Bytes → Prop

namespace WatchState

/-- The first cycle builds everything. -/
def start (coord : SolutionCoordinator O F P) : WatchState O F P where
  coordinator := coord
  events := { projects := coord.graph.paths }
  initial := coord.graph.paths
  delivered := []
  owed := fun _ => False

variable (state : WatchState O F P) (around : Surroundings O E F P)

def deliver (delivery : Delivery) : WatchState O F P :=
  { state with
    events := state.events.deliver delivery
    delivered := state.delivered ++ [delivery] }

def Concerned (path : Bytes) : Prop := ∃ delivery ∈ state.delivered, delivery.Concerns around path

def Owes (path : Bytes) : Prop := state.owed path ∨ state.Concerned around path

def Changes (config : Bytes) : Prop := ∃ delivery ∈ state.delivered, delivery.Changes config

/-- A project of the first batch, one with an event on a source, or one with a changed config on
its chain. -/
def Names (path : Bytes) : Prop :=
  (path ∈ state.initial ∨ ∃ delivery ∈ state.delivered, delivery.Names path) ∨
    path ∈ state.coordinator.graph.paths ∧ ∃ config ∈ around.tsConfigPaths path,
      state.Changes config

end WatchState

def Rebuilt (coord : SolutionCoordinator O F P)
    (report : Option (DrainReport F P)) (path : Bytes) : Prop :=
  ∃ drained ∈ report, ∃ index project, coord.graph.projects[index]? = some project ∧
    project.configPath = path ∧ .started index ∈ drained.events ∧ ¬ Fails drained.outcomes index

def Kept (owes : Bytes → Prop) (coord : SolutionCoordinator O F P)
    (report : Option (DrainReport F P)) : Prop :=
  ∀ path ∈ coord.graph.paths, owes path →
    (coord.state path).upToDate = false ∨ Rebuilt coord report path

section Covers

variable (tsConfigPath : Bytes) (state : WatchState O F P) (around : Surroundings O E F P)

/-- A config has changed, and options, outputs or graph cannot be read again. -/
def WatchState.Stops : Prop :=
  (∃ config, state.Changes config) ∧ (around.reload = none ∨ around.outputPaths = false ∨
    ∃ entry err, around.reload = some entry ∧
      buildSolutionGraph around.setting.toWorkspace tsConfigPath entry = some (.error err))

/-- The graph that a cycle goes on with: the one at hand, or after a change of a config the one that
is read again. -/
def WatchState.GoesOn (graph : SolutionGraph O) : Prop :=
  (∀ config, ¬ state.Changes config) ∧ graph = state.coordinator.graph ∨
    (∃ config, state.Changes config) ∧ around.outputPaths ∧ ∃ entry, around.reload = some entry ∧
      buildSolutionGraph around.setting.toWorkspace tsConfigPath entry = some (.ok graph)

/-- The events that a cycle takes are covered. Where options or graph cannot be read, every
project with an event must be out of date already. Otherwise a project with an event must be out
of date already or depend on a named project, unless there is none and all are built. -/
structure WatchState.Covers : Prop where
  stops : state.Stops tsConfigPath around → ∀ path ∈ state.coordinator.graph.paths,
    state.Concerned around path → (state.coordinator.state path).upToDate = false
  goesOn : ∀ graph, state.GoesOn tsConfigPath around graph → ∀ path ∈ graph.paths,
    state.Concerned around path → (state.coordinator.state path).upToDate = false ∨
      ((∃ config, state.Changes config) ∧ ∀ project, ¬ state.Names around project) ∨
      ∃ project, state.Names around project ∧
        let target := Path.clean (Path.abs around.setting.workingDirectory project)
        target ∈ graph.paths ∧ Relation.ReflTransGen graph.Refers path target

end Covers

inductive WatchMove (O E F P : Type) where
  | deliver (delivery : Delivery)
  | cycle (around : Surroundings O E F P)

def WatchState.after (state : WatchState O F P) (around : Surroundings O E F P)
    (coord : SolutionCoordinator O F P) (report : Option (DrainReport F P)) : WatchState O F P where
  coordinator := coord
  events := {}
  initial := []
  delivered := []
  owed := fun path => state.Owes around path ∧ ¬ Rebuilt coord report path

/-- At the end of every cycle of a run, no event has been lost. -/
def LosesNothing (tsConfigPath : Bytes) : WatchState O F P → List (WatchMove O E F P) → Prop
  | _, [] => True
  | state, .deliver delivery :: moves => LosesNothing tsConfigPath (state.deliver delivery) moves
  | state, .cycle around :: moves => ∀ coord report,
      cycle tsConfigPath state.coordinator state.events around = some (coord, report) →
      Kept (state.Owes around) coord report ∧
        LosesNothing tsConfigPath (state.after around coord report) moves

/-- Every cycle of a run covers the events it takes. -/
def Covered (tsConfigPath : Bytes) : WatchState O F P → List (WatchMove O E F P) → Prop
  | _, [] => True
  | state, .deliver delivery :: moves => Covered tsConfigPath (state.deliver delivery) moves
  | state, .cycle around :: moves => ∀ coord report,
      cycle tsConfigPath state.coordinator state.events around = some (coord, report) →
      state.Covers tsConfigPath around ∧
        Covered tsConfigPath (state.after around coord report) moves

/-! ### The record -/

variable {path : Bytes}

lemma mem_foldl {S A : Type} {members : S → List Bytes} {step : S → A → S} {adds : A → Prop}
    (spec : ∀ state item, path ∈ members (step state item) ↔ path ∈ members state ∨ adds item)
    (items : List A) (state : S) :
    path ∈ members (items.foldl step state) ↔ path ∈ members state ∨ ∃ item ∈ items, adds item := by
  induction items generalizing state with
  | nil => simp
  | cons item items ih => rw [foldl_cons, ih, spec, exists_mem_cons_iff, or_assoc]

lemma mem_addEvent (events : SolutionWatchEvents) (project : Bytes) (event : FileEvent) :
    (path ∈ (events.addEvent project event).projects ↔
      path ∈ events.projects ∨ watchCompilable event.path ∧ project = path) ∧
    (events.addEvent project event).configs = events.configs := by
  rw [SolutionWatchEvents.addEvent]
  split
  next compilable =>
    refine ⟨mem_insert_iff.trans ?_, rfl⟩
    rw [or_comm, eq_comm, iff_true_intro compilable, true_and]
    rfl
  next other => simp [other, SolutionWatchEvents.addAsset, SolutionWatchEvents.addPath]

lemma mem_addRojoEvent (events : SolutionWatchEvents) (project : Bytes) (event : FileEvent) :
    (path ∈ (events.addRojoEvent project event).configs ↔ path ∈ events.configs ∨
      (str ".project.json").isSuffixOf (Path.base event.path) ∧ event.path = path) ∧
    (events.addRojoEvent project event).projects = events.projects := by
  rw [SolutionWatchEvents.addRojoEvent]
  split
  next isConfig =>
    refine ⟨mem_insert_iff.trans ?_, rfl⟩
    rw [or_comm, eq_comm, iff_true_intro isConfig, true_and]
    rfl
  next other =>
    rw [iff_false_intro other, false_and, or_false]
    split
    · exact ⟨Iff.rfl, rfl⟩
    · exact ⟨Iff.rfl, rfl⟩

lemma foldl_keeps {S A M : Type} {members : S → M} {step : S → A → S}
    (spec : ∀ state item, members (step state item) = members state) (items : List A) (state : S) :
    members (items.foldl step state) = members state := by
  induction items generalizing state with
  | nil => rfl
  | cons item items ih => rw [foldl_cons, ih, spec]

lemma mem_projects_deliver (events : SolutionWatchEvents) (delivery : Delivery) :
    path ∈ (events.deliver delivery).projects ↔ path ∈ events.projects ∨ delivery.Names path := by
  cases delivery with
  | root project fileEvents watchErr =>
    have each := mem_foldl (fun events event => (@mem_addEvent path events project event).1)
      fileEvents events
    rw [SolutionWatchEvents.deliver, SolutionWatchEvents.add, Delivery.Names]
    by_cases terminated : watchErr = some .terminated
    · simp [terminated]
    · rw [if_neg terminated]
      dsimp only
      split
      · rw [SolutionWatchEvents.addProject, mem_insert_iff, each]
        grind
      · rw [each]
        grind
  | rojo project fileEvents watchErr =>
    have each := @foldl_keeps _ _ _ SolutionWatchEvents.projects _ (fun events event =>
      (@mem_addRojoEvent path events project event).2) fileEvents events
    rw [SolutionWatchEvents.deliver, SolutionWatchEvents.addRojo]
    refine Iff.trans ?_ (or_iff_left id).symm
    split_ifs
    · rfl
    · exact each ▸ Iff.rfl
    · exact each ▸ Iff.rfl
  | config config fileEvents =>
    rw [SolutionWatchEvents.deliver, SolutionWatchEvents.addWatchedConfig,
      @foldl_keeps _ _ _ SolutionWatchEvents.projects (fun events (event : FileEvent) =>
        events.addPath event.path) (fun _ _ => rfl)]
    exact (or_iff_left id).symm

lemma mem_configs_deliver (events : SolutionWatchEvents) (delivery : Delivery) :
    path ∈ (events.deliver delivery).configs ↔ path ∈ events.configs ∨ delivery.Changes path := by
  cases delivery with
  | root project fileEvents watchErr =>
    have each := @foldl_keeps _ _ _ SolutionWatchEvents.configs _ (fun events event =>
      (@mem_addEvent path events project event).2) fileEvents events
    rw [SolutionWatchEvents.deliver, SolutionWatchEvents.add]
    refine Iff.trans ?_ (or_iff_left id).symm
    split_ifs
    · rfl
    · exact each ▸ Iff.rfl
    · exact each ▸ Iff.rfl
  | rojo project fileEvents watchErr =>
    have each := mem_foldl (fun events event => (@mem_addRojoEvent path events project event).1)
      fileEvents events
    rw [SolutionWatchEvents.deliver, SolutionWatchEvents.addRojo, Delivery.Changes]
    by_cases terminated : watchErr = some .terminated
    · simp [terminated]
    · rw [if_neg terminated]
      dsimp only
      split
      · rw [SolutionWatchEvents.addConfig, mem_insert_iff, each]
        grind
      · rw [each]
        grind
  | config config fileEvents =>
    rw [SolutionWatchEvents.deliver, SolutionWatchEvents.addWatchedConfig,
      @foldl_keeps _ _ _ SolutionWatchEvents.configs (fun events (event : FileEvent) =>
        events.addPath event.path) (fun _ _ => rfl), SolutionWatchEvents.addConfig,
      mem_insert_iff, or_comm, eq_comm]
    rfl

/-- The record has what was delivered. -/
structure WatchState.Recorded (state : WatchState O F P) : Prop where
  projects : ∀ path, path ∈ state.events.projects ↔
    path ∈ state.initial ∨ ∃ delivery ∈ state.delivered, delivery.Names path
  configs : ∀ config, config ∈ state.events.configs ↔ state.Changes config

section Recorded

variable {state : WatchState O F P} (recorded : state.Recorded)
include recorded

lemma WatchState.Recorded.deliver (delivery : Delivery) : (state.deliver delivery).Recorded where
  projects path := by
    rw [WatchState.deliver, mem_projects_deliver, recorded.projects]
    simp [or_assoc, or_and_right, exists_or]
  configs config := by
    rw [WatchState.deliver, mem_configs_deliver, recorded.configs]
    simp [WatchState.Changes, or_and_right, exists_or]

lemma WatchState.Recorded.mem_named (around : Surroundings O E F P) :
    path ∈ namedProjects state.coordinator state.events around ↔ state.Names around path := by
  rw [namedProjects, WatchState.Names, ← recorded.projects]
  split
  next unchanged => simp [← recorded.configs, unchanged]
  next =>
    refine (@mem_foldl path _ _ id _ (fun project => ((around.tsConfigPaths project).any
      (· ∈ state.events.configs)) ∧ project = path) (fun projects project => ?_) _ _).trans ?_
    · dsimp only [id]
      split
      · rw [mem_insert_iff]
        grind
      · grind
    · simp [← recorded.configs, SolutionGraph.paths]

omit recorded in
lemma reload_graph (coord : SolutionCoordinator O F P) (setting : Setting O E)
    (tsConfigPath : Bytes) (entry : O) :
    Option.map (Except.map SolutionCoordinator.graph) (coord.reload setting tsConfigPath entry) =
      buildSolutionGraph setting.toWorkspace tsConfigPath entry := by
  have reloads : coord.reload setting tsConfigPath entry =
    ExceptT.bind (buildSolutionGraph setting.toWorkspace tsConfigPath entry) _ := rfl
  rw [reloads]
  rcases buildSolutionGraph setting.toWorkspace tsConfigPath entry with _ | _ | _ <;> rfl

lemma WatchState.Recorded.reloadForCycle_iff (tsConfigPath : Bytes)
    (around : Surroundings O E F P) :
    (reloadForCycle tsConfigPath state.coordinator state.events around = some none ↔
      state.Stops tsConfigPath around) ∧
    ∀ graph, state.GoesOn tsConfigPath around graph ↔ ∃ reloaded, reloadForCycle tsConfigPath
      state.coordinator state.events around = some (some reloaded) ∧ reloaded.graph = graph := by
  rw [WatchState.Stops]
  simp only [WatchState.GoesOn, ← recorded.configs, reloadForCycle]
  by_cases unchanged : state.events.configs = []
  · rw [if_pos unchanged]
    simp [unchanged, @eq_comm _ _ state.coordinator.graph]
  have some' := exists_mem_of_ne_nil _ unchanged
  have none' : ¬ ∀ config, config ∉ state.events.configs :=
    fun none => unchanged (eq_nil_iff_forall_not_mem.mpr none)
  rw [if_neg unchanged]
  cases around.reload with
  | none => simp [some', none']
  | some entry =>
    cases around.outputPaths with
    | false => simp [some', none']
    | true =>
      have built := reload_graph state.coordinator around.setting tsConfigPath entry
      dsimp only
      rw [if_pos rfl]
      rcases reloads : state.coordinator.reload around.setting tsConfigPath entry with
        _ | err | reloaded <;> rw [reloads] at built
      · simp [some', none', ← built]
      · simp [some', none', ← built, Except.map]
        exact ⟨⟨err, rfl⟩, fun _ same => by cases same⟩
      · simp [some', none', ← built, Except.map]
        refine ⟨fun _ same => (by cases same), fun graph => ⟨fun same => ?_, fun is => is ▸ rfl⟩⟩
        cases same
        rfl

end Recorded

/-! ### One cycle -/

section Cycle

variable {setting : Setting O E} {coord : SolutionCoordinator O F P}

variable (valid : coord.Valid setting)
include valid

lemma SolutionCoordinator.Valid.outdated_invalidate (cwd : Bytes)
    (paths : List Bytes) (isProject : path ∈ coord.graph.paths) :
    ((coord.invalidate cwd paths).1.state path).upToDate = false ↔
      (coord.state path).upToDate = false ∨ ∃ target ∈ coord.direct cwd paths,
          Relation.ReflTransGen coord.graph.Refers path target := by
  rw [valid.state_invalidate cwd paths isProject, ← mem_seen (valid.direct_inside cwd paths)]
  split
  · rename_i seen
    simp [SolutionProjectState.invalidated, seen]
  · rename_i unseen
    simp [unseen]

lemma SolutionCoordinator.Valid.direct_congr {coord' : SolutionCoordinator O F P}
    (valid' : coord'.Valid setting)
    (graph : coord'.graph = coord.graph) (cwd : Bytes) (paths : List Bytes) :
    coord'.direct cwd paths = coord.direct cwd paths := by
  rw [direct, direct]
  apply filter_congr
  intro path _
  rw [decide_eq_decide, valid.known, valid'.known, graph]

/-- After several invalidations exactly those projects are out of date that were so before or
depend on one of the given projects. -/
theorem SolutionCoordinator.Valid.invalidateEach (cwd : Bytes) (projects : List Bytes) :
    (coord.invalidateEach cwd projects).Valid setting ∧
      (coord.invalidateEach cwd projects).graph = coord.graph ∧
      ∀ path ∈ coord.graph.paths,
        ((coord.invalidateEach cwd projects).state path).upToDate = false ↔
        (coord.state path).upToDate = false ∨ ∃ target ∈ coord.direct cwd projects,
            Relation.ReflTransGen coord.graph.Refers path target := by
  induction projects generalizing coord with
  | nil => exact ⟨valid, rfl, fun path _ => by simp [SolutionCoordinator.invalidateEach, direct]⟩
  | cons first projects ih =>
    have next := valid.invalidate cwd [first]
    obtain ⟨valid', graph, outdated⟩ := ih next
    refine ⟨valid', graph, fun path isProject => (outdated path isProject).trans ?_⟩
    rw [valid.outdated_invalidate cwd [first] isProject, valid.direct_congr next rfl cwd projects]
    have both : coord.direct cwd (first :: projects) = coord.direct cwd [first] ++
          coord.direct cwd projects := by
      rw [direct, direct, direct, ← filter_append]
      rfl
    rw [both]
    simp only [mem_append, or_and_right, exists_or, or_assoc]
    rfl

variable {report : DrainReport F P} {coord' : SolutionCoordinator O F P}

lemma SolutionCoordinator.Valid.drain_settles {schedule : List (Nat × Drained F P)}
    {write : P → Option F}
    (drained : coord.drain schedule write = some (coord', report))
    (isProject : path ∈ coord.graph.paths) :
    ((coord'.state path).upToDate = false ∨ Rebuilt coord' (some report) path) ↔
      (coord.state path).upToDate = false := by
  obtain ⟨pool, ran, returned, outcomes, drains⟩ := drain_cases drained
  obtain ⟨proj, mem, rfl⟩ := mem_map.mp isProject
  obtain ⟨idx, found⟩ := mem_iff_getElem?.mp mem
  have inv := valid.invariant ran
  have settled := drains.settled valid inv returned found
  constructor
  · rintro (outdated | ⟨_, ⟨⟩, idx', proj', found', same, started, _⟩)
    · cases settled with
      | skipped _ _ after => nomatch outdated.symm.trans after
      | _ outdated => exact outdated
    · rw [drains.graph] at found'
      rw [← same]
      exact (valid.of_started inv found' (mem_starts.mpr started)).1
  · intro outdated
    by_cases upToDate : (coord'.state proj.configPath).upToDate
    · refine Or.inr ⟨report, rfl, idx, proj, by rw [drains.graph]; exact found, rfl, ?_⟩
      rw [outcomes]
      cases settled with
      | skipped upToDate => nomatch outdated.symm.trans upToDate
      | blocked _ _ _ _ after => nomatch after.symm.trans upToDate
      | ran _ started _ after => exact ⟨mem_starts.mp started, after.mp upToDate⟩
    · exact Or.inl (by simpa using upToDate)

variable {tsConfigPath : Bytes} {events : SolutionWatchEvents} {around : Surroundings O E F P}

lemma reloadForCycle_valid
    (reloaded : reloadForCycle tsConfigPath coord events around = some (some coord')) :
    (∃ setting', coord'.Valid (setting' : Setting O E)) ∧
      ∀ path ∈ coord'.graph.paths, coord'.state path = coord.state path := by
  rw [reloadForCycle] at reloaded
  split at reloaded
  · cases reloaded
    exact ⟨⟨setting, valid⟩, fun _ _ => rfl⟩
  · split at reloaded
    · nomatch reloaded
    · split at reloaded
      · split at reloaded
        · nomatch reloaded
        · nomatch reloaded
        · rename_i returned
          cases reloaded
          obtain ⟨valid', states⟩ := SolutionCoordinator.reload_valid returned
          exact ⟨⟨around.setting, valid'⟩, states⟩
      · nomatch reloaded

variable {cycled : SolutionCoordinator O F P} {reported : Option (DrainReport F P)}

/-- A cycle that goes on leaves those projects out of date, or builds them, that were out of date
or depend on an invalidated project. -/
theorem cycle_settles
    (reloaded : reloadForCycle tsConfigPath coord events around = some (some coord'))
    (ran : cycle tsConfigPath coord events around = some (cycled, reported)) :
    (∃ setting', cycled.Valid (setting' : Setting O E)) ∧ cycled.graph = coord'.graph ∧
      ∀ path ∈ coord'.graph.paths,
        ((cycled.state path).upToDate = false ∨ Rebuilt cycled reported path) ↔
        (coord.state path).upToDate = false ∨
          ∃ target ∈ coord'.direct around.setting.workingDirectory
              (invalidatedProjects coord events around coord'),
            Relation.ReflTransGen coord'.graph.Refers path target := by
  obtain ⟨⟨setting', valid'⟩, states⟩ := reloadForCycle_valid valid reloaded
  obtain ⟨invalid, graph, outdated⟩ := valid'.invalidateEach around.setting.workingDirectory
    (invalidatedProjects coord events around coord')
  rw [cycle, reloaded] at ran
  dsimp only at ran
  split at ran
  · obtain ⟨⟨drained, report⟩, drains, same⟩ := Option.map_eq_some_iff.mp ran
    cases same
    obtain ⟨pool, _, _, _, drainsTo⟩ := SolutionCoordinator.drain_cases drains
    refine ⟨⟨setting', drainsTo.valid invalid⟩, drainsTo.graph.trans graph,
      fun path isProject => ?_⟩
    rw [invalid.drain_settles drains (by rw [graph]; exact isProject), outdated path isProject,
      states path isProject]
  · cases ran
    refine ⟨⟨setting', invalid⟩, graph, fun path isProject => ?_⟩
    rw [← states path isProject, ← outdated path isProject]
    simp [Rebuilt]

lemma SolutionCoordinator.Valid.mem_direct (cwd : Bytes) {paths : List Bytes}
    (isProject : path ∈ coord.graph.paths) (mem : path ∈ paths) :
    path ∈ coord.direct cwd paths := by
  have only : path ∈ coord.direct cwd [path] := by
    rw [valid.direct_self cwd isProject]
    exact mem_singleton_self path
  rw [direct, map_singleton] at only
  refine mem_filter.mpr ⟨?_, (mem_filter.mp only).2⟩
  refine mem_map.mpr ⟨path, mem, ?_⟩
  exact (mem_singleton.mp (mem_filter.mp only).1).symm

omit valid in
/-- The invalidated projects are the named ones, unless a config has changed and there are none:
then they are all projects. -/
theorem WatchState.Recorded.depends_iff {state : WatchState O F P} (recorded : state.Recorded)
    (valid : coord'.Valid setting) (isProject : path ∈ coord'.graph.paths) :
    (∃ target ∈ coord'.direct around.setting.workingDirectory
        (invalidatedProjects state.coordinator state.events around coord'),
      Relation.ReflTransGen coord'.graph.Refers path target) ↔
    ((∃ config, state.Changes config) ∧ ∀ project, ¬ state.Names around project) ∨
      ∃ project, state.Names around project ∧
        let target := Path.clean (Path.abs around.setting.workingDirectory project)
        target ∈ coord'.graph.paths ∧ Relation.ReflTransGen coord'.graph.Refers path target := by
  have all : state.events.configs ≠ [] ∧
      namedProjects state.coordinator state.events around = [] ↔
        (∃ config, state.Changes config) ∧ ∀ project, ¬ state.Names around project := by
    simp only [← recorded.configs, ← recorded.mem_named, ← eq_nil_iff_forall_not_mem]
    exact and_congr_left' ⟨exists_mem_of_ne_nil _, fun mem => ne_nil_of_mem mem.choose_spec⟩
  rw [invalidatedProjects, ← all]
  split
  next named =>
    exact ⟨fun _ => .inl named, fun _ => ⟨path, valid.mem_direct _ isProject isProject, .refl⟩⟩
  next some' =>
    rw [or_iff_right some']
    simp only [SolutionCoordinator.direct, mem_filter, mem_map, decide_eq_true_eq, valid.known,
      ← recorded.mem_named]
    constructor
    · rintro ⟨_, ⟨⟨project, named, rfl⟩, inside⟩, refers⟩
      exact ⟨project, named, inside, refers⟩
    · rintro ⟨project, named, inside, refers⟩
      exact ⟨_, ⟨⟨project, named, rfl⟩, inside⟩, refers⟩

lemma SolutionCoordinator.Valid.state_of_not_mem
    (outside : path ∉ coord.graph.paths) : coord.state path = {} := by
  have unknown := AList.lookup_eq_none.mpr (mt (valid.known path).mp outside)
  rw [SolutionCoordinator.state, unknown]
  rfl

omit valid

/-- Between the cycles, the projects that are owed a build are out of date, and the record has what
was delivered. -/
structure WatchState.Sound (E : Type) (state : WatchState O F P) : Prop where
  valid : ∃ setting : Setting O E, state.coordinator.Valid setting
  owed : ∀ path, state.owed path → (state.coordinator.state path).upToDate = false
  recorded : state.Recorded

variable {state : WatchState O F P}

/-- A cycle keeps what is owed exactly when it covers the events it takes. -/
theorem WatchState.Sound.kept_iff (sound : state.Sound E)
    (ran : cycle tsConfigPath state.coordinator state.events around = some (cycled, reported)) :
    Kept (state.Owes around) cycled reported ↔ state.Covers tsConfigPath around := by
  obtain ⟨setting, valid⟩ := sound.valid
  obtain ⟨stopsIff, goesOnIff⟩ := sound.recorded.reloadForCycle_iff tsConfigPath around
  cases goesOn : reloadForCycle tsConfigPath state.coordinator state.events around with
  | none =>
    rw [cycle, goesOn] at ran
    nomatch ran
  | some result =>
    cases result with
    | none =>
      have only (stopped : ∀ path ∈ state.coordinator.graph.paths, state.Concerned around path →
          (state.coordinator.state path).upToDate = false) : state.Covers tsConfigPath around :=
        ⟨fun _ => stopped, fun graph next => by
          obtain ⟨_, other, -⟩ := (goesOnIff graph).mp next
          cases goesOn.symm.trans other⟩
      rw [cycle, goesOn] at ran
      cases ran
      constructor
      · exact fun kept => only fun path isProject concerned =>
          (kept path isProject (.inr concerned)).resolve_right (by simp [Rebuilt])
      · exact fun covers path isProject owes => .inl (owes.elim (sound.owed path)
          (covers.stops (stopsIff.mp goesOn) path isProject))
    | some reloaded =>
      obtain ⟨⟨setting', valid'⟩, _⟩ := reloadForCycle_valid valid goesOn
      obtain ⟨_, graph, settles⟩ := cycle_settles valid goesOn ran
      rw [Kept, graph]
      have each {path : Bytes} (isProject : path ∈ reloaded.graph.paths) :=
        (settles path isProject).trans (or_congr_right
          (sound.recorded.depends_iff valid' isProject))
      constructor
      · refine fun kept => ⟨fun stops => ?_, fun graph next path isProject concerned => ?_⟩
        · cases goesOn.symm.trans (stopsIff.mpr stops)
        · obtain ⟨_, same, rfl⟩ := (goesOnIff graph).mp next
          cases goesOn.symm.trans same
          exact (each isProject).mp (kept path isProject (.inr concerned))
      · exact fun covers path isProject owes => (each isProject).mpr (owes.elim
          (fun owed => .inl (sound.owed path owed))
          (covers.goesOn _ ((goesOnIff _).mpr ⟨_, goesOn, rfl⟩) path isProject))

lemma WatchState.Sound.after (sound : state.Sound E)
    (ran : cycle tsConfigPath state.coordinator state.events around = some (cycled, reported))
    (kept : Kept (state.Owes around) cycled reported) :
    (state.after around cycled reported).Sound E := by
  obtain ⟨setting, valid⟩ := sound.valid
  have valid' : ∃ setting' : Setting O E, cycled.Valid setting' := by
    match goesOn : reloadForCycle tsConfigPath state.coordinator state.events around with
    | none =>
      rw [cycle, goesOn] at ran
      nomatch ran
    | some none =>
      rw [cycle, goesOn] at ran
      cases ran
      exact ⟨setting, valid⟩
    | some (some reloaded) => exact (cycle_settles valid goesOn ran).1
  refine ⟨valid', fun path owed => ?_, ⟨by simp [WatchState.after], by
    simp [WatchState.after, WatchState.Changes]⟩⟩
  by_cases isProject : path ∈ cycled.graph.paths
  · exact (kept path isProject owed.1).resolve_right owed.2
  · obtain ⟨_, valid'⟩ := valid'
    exact congrArg SolutionProjectState.upToDate (valid'.state_of_not_mem isProject)

/-- Along a run from such a state nothing is lost exactly when every cycle covers its events. -/
theorem WatchState.Sound.losesNothing_iff_covered (sound : state.Sound E)
    (moves : List (WatchMove O E F P)) :
    LosesNothing tsConfigPath state moves ↔ Covered tsConfigPath state moves := by
  induction moves generalizing state with
  | nil => exact Iff.rfl
  | cons move moves ih =>
    cases move with
    | deliver delivery => exact ih ⟨sound.valid, sound.owed, sound.recorded.deliver delivery⟩
    | cycle around =>
      refine forall₃_congr fun cycled reported ran => ?_
      have keptIff := sound.kept_iff ran
      constructor
      · rintro ⟨kept, rest⟩
        exact ⟨keptIff.mp kept, (ih (sound.after ran kept)).mp rest⟩
      · rintro ⟨covers, rest⟩
        have kept := keptIff.mpr covers
        exact ⟨kept, (ih (sound.after ran kept)).mpr rest⟩

end Cycle

/-- A watched solution loses no event along a run exactly when every cycle covers the events it
takes. -/
theorem losesNothing_iff (setting : Setting O E) (tsConfigPath : Bytes)
    (entry : O) (coord : SolutionCoordinator O F P)
    (made : newSolutionCoordinator setting tsConfigPath entry = some (.ok coord))
    (moves : List (WatchMove O E F P)) :
    LosesNothing tsConfigPath (.start coord) moves ↔
      Covered tsConfigPath (.start coord) moves := by
  have sound : (WatchState.start coord).Sound E :=
    ⟨⟨setting, (newSolutionCoordinator_valid made).1⟩, fun _ owed => owed.elim,
      ⟨by simp [WatchState.start], by simp [WatchState.start, WatchState.Changes]⟩⟩
  exact sound.losesNothing_iff_covered moves

/-! ### A batch that is lost -/

def allSucceed : Surroundings Unit Unit Unit Unit where
  tsConfigPaths project := [project]
  rojoConfigs _ := []
  reload := some ()
  outputPaths := true
  setting := twoProjects
  schedule := oneWorker [none, none, none, none, none, none, none, none]
  write _ := none

def unreadable : Surroundings Unit Unit Unit Unit := { allSucceed with reload := none }

def libraryEvent : Delivery :=
  .root (str "/lib/tsconfig.json") [⟨str "/lib/src/index.ts", false⟩] none

theorem losesNothing_first :
    (cycle (str "/app/tsconfig.json") (twoCoordinator (statesFor twoGraph ∅))
      ((WatchState.start (twoCoordinator (statesFor twoGraph ∅))).deliver libraryEvent).events
      allSucceed).isSome ∧
    LosesNothing (str "/app/tsconfig.json") (.start (twoCoordinator (statesFor twoGraph ∅)))
      [.deliver libraryEvent, .cycle allSucceed] := by
  refine ⟨by decide +kernel, ?_⟩
  refine (losesNothing_iff twoProjects (str "/app/tsconfig.json") () _ twoCoordinator_made _).mpr ?_
  intro coord report _
  have unknown := (newSolutionCoordinator_valid twoCoordinator_made).2.2
  have outdated (path : Bytes) := congrArg SolutionProjectState.upToDate (unknown path)
  exact ⟨⟨fun _ path _ _ => outdated path, fun _ _ path _ _ => .inl (outdated path)⟩, trivial⟩

def libraryUpToDate (cycled : Option (SolutionCoordinator Unit Unit Unit ×
    Option (DrainReport Unit Unit))) : Bool :=
  match cycled with
  | none => false
  | some (coord, _) => (coord.state (str "/lib/tsconfig.json")).upToDate &&
      coord.graph.paths.contains (str "/lib/tsconfig.json")

/-- Both projects are built; then a source of the library and the config of the application change
together, and the options cannot be read. The library stays up to date and is not built. -/
theorem losesNothing_fails_after_reload :
    ¬ LosesNothing (str "/app/tsconfig.json") (.start (twoCoordinator (statesFor twoGraph ∅)))
      [.cycle allSucceed, .deliver libraryEvent,
        .deliver (.config (str "/app/tsconfig.json") [⟨str "/app/tsconfig.json", false⟩]),
        .cycle unreadable] := by
  have built : libraryUpToDate (cycle (str "/app/tsconfig.json")
      (twoCoordinator (statesFor twoGraph ∅)) { projects := twoGraph.paths }
      allSucceed) = true := by
    decide +kernel
  rw [libraryUpToDate.eq_def] at built
  split at built
  · nomatch built
  · rename_i coord report ran
    obtain ⟨upToDate, isProject⟩ := Bool.and_eq_true_iff.mp built
    intro losesNothing
    have kept := ((losesNothing coord report ran).2 coord none rfl).1
    have concerned : libraryEvent.Concerns unreadable (str "/lib/tsconfig.json") :=
      .inl ⟨rfl, _, mem_singleton_self _, rfl⟩
    rcases kept _ (contains_iff_mem.mp isProject)
      (Or.inr ⟨libraryEvent, by simp [WatchState.deliver, WatchState.after], concerned⟩) with
      outdated | ⟨_, ⟨⟩, _⟩
    nomatch outdated.symm.trans upToDate

end Rotor.Solution
