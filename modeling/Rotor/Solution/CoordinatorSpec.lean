import Mathlib.Data.List.Find
import Rotor.Solution.Coordinator
import Rotor.Solution.GraphSpec
import Rotor.Solution.SchedulerSpec

/-!
The tasks of a solution and the states of its projects.

In a graph that was built from a workspace, every project stands behind its references, so the
tasks of the coordinator are ordered as the workers need it. A drain changes the state of each
project by its own outcome, and an invalidation marks exactly the projects from which one of the
given projects can be reached through references between projects.
-/

namespace Rotor.Solution

open List
open AList (mem_insert)

variable {O E F P : Type}

def SolutionGraph.paths (graph : SolutionGraph O) : List Bytes := graph.projects.map (·.configPath)

/-- Every project has its own path and stands behind the projects it references. -/
structure SolutionGraph.Arranged (graph : SolutionGraph O) : Prop where
  canonical : ∀ path ∈ graph.paths, Path.Canonical path
  distinct : graph.paths.Nodup
  earlier : ∀ (index index' : Nat) proj other, graph.projects[index]? = some proj →
    graph.projects[index']? = some other → other.configPath ∈ proj.references → index' < index

variable {graph : SolutionGraph O} {index : Nat} {proj : SolutionProject O}

lemma SolutionGraph.getElem?_paths (found : graph.projects[index]? = some proj) :
    graph.paths[index]? = some proj.configPath := by
  rw [paths, List.getElem?_map, found]
  rfl

variable {paths : List Bytes} {path : Bytes}

lemma index_eq_of_nodup (distinct : paths.Nodup) {idx' : Nat} {path : Bytes}
    (found : paths[index]? = some path) (found' : paths[idx']? = some path) : index = idx' :=
  (List.getElem?_inj (List.getElem?_eq_some_iff.mp found).1 distinct).mp (found.trans found'.symm)

lemma index_lt_of_mem_front {front back : List Bytes} {path other : Bytes}
    (distinct : paths.Nodup) (split : paths = front ++ path :: back) (mem : other ∈ front)
    {idx' : Nat} (found : paths[index]? = some path) (found' : paths[idx']? = some other) :
    idx' < index := by
  have here : index = front.length := index_eq_of_nodup distinct found (by rw [split]; simp)
  obtain ⟨pos, inFront⟩ := mem_iff_getElem?.mp mem
  have small := (List.getElem?_eq_some_iff.mp inFront).1
  have there : idx' = pos :=
    index_eq_of_nodup distinct found' (by rw [split, List.getElem?_append_left small, inFront])
  omega

lemma Ordered.arranged {workspace : Workspace O E} {order : List Bytes}
    (ordered : Ordered workspace graph order) :
    graph.Arranged := by
  have distinct : graph.paths.Nodup := by
    rw [SolutionGraph.paths, ordered.paths]
    exact ordered.distinct.filter _
  refine ⟨fun path mem => ?_, distinct, ?_⟩
  · rw [SolutionGraph.paths, ordered.paths] at mem
    exact ordered.canonical path (mem_of_mem_filter mem)
  · intro index idx' proj other found found' isReference
    have inPaths : proj.configPath ∈ graph.paths := mem_map_of_mem (mem_of_getElem? found)
    have inPaths' : other.configPath ∈ graph.paths := mem_map_of_mem (mem_of_getElem? found')
    rw [SolutionGraph.paths, ordered.paths, mem_filter] at inPaths inPaths'
    obtain ⟨front, back, split⟩ := append_of_mem inPaths.1
    have inFront : other.configPath ∈ front := by
      apply ordered.sorted _ _ _ split
      rwa [← ordered.read proj (mem_of_getElem? found)]
    have split' : graph.paths = front.filter (!isCoordinator workspace ·) ++
        proj.configPath :: back.filter (!isCoordinator workspace ·) := by
      rw [SolutionGraph.paths, ordered.paths, split, filter_append, filter_cons, if_pos inPaths.2]
    exact index_lt_of_mem_front distinct split' (mem_filter.mpr ⟨inFront, inPaths'.2⟩)
      (SolutionGraph.getElem?_paths found) (SolutionGraph.getElem?_paths found')

/-- A coordinator as it is made and kept. -/
structure SolutionCoordinator.Valid (setting : Setting O E)
    (coord : SolutionCoordinator O F P) : Prop where
  arranged : coord.graph.Arranged
  waits : coord.waitOnlyDependencies = deriveWaitOnlyDependencies setting coord.graph.projects
  known : ∀ path, path ∈ coord.states ↔ path ∈ coord.graph.paths

variable {pool : Pool (DrainOutcome F P)}

section Tasks

variable {setting : Setting O E} {coord : SolutionCoordinator O F P}

lemma SolutionCoordinator.Valid.indexByConfigPath_eq_some (valid : coord.Valid setting) :
    coord.indexByConfigPath path = some index ↔
      ∃ proj, coord.graph.projects[index]? = some proj ∧ proj.configPath = path := by
  rw [indexByConfigPath, List.findIdx?_eq_some_iff_getElem]
  constructor
  · rintro ⟨inside, same, _⟩
    exact ⟨_, getElem?_eq_getElem inside, by simpa using same⟩
  · rintro ⟨proj, found, rfl⟩
    obtain ⟨inside, rfl⟩ := List.getElem?_eq_some_iff.mp found
    refine ⟨inside, by simp, fun earlier small same => ?_⟩
    have other : coord.graph.projects[earlier]? = some coord.graph.projects[earlier] :=
      getElem?_eq_getElem _
    have paths := SolutionGraph.getElem?_paths other
    rw [beq_iff_eq.mp same] at paths
    have equal := index_eq_of_nodup valid.arranged.distinct paths
      (SolutionGraph.getElem?_paths found)
    omega

lemma SolutionCoordinator.Valid.mem_predecessors (valid : coord.Valid setting) {pred : Nat} :
    pred ∈ (coord.task proj index).predecessors ↔
      ∃ other, coord.graph.projects[pred]? = some other ∧
        other.configPath ∈ proj.references := by
  rw [task, mem_filterMap]
  constructor
  · rintro ⟨reference, mem, found⟩
    obtain ⟨other, isOther, rfl⟩ := valid.indexByConfigPath_eq_some.mp found
    exact ⟨other, isOther, mem⟩
  · rintro ⟨other, isOther, mem⟩
    exact ⟨_, mem, valid.indexByConfigPath_eq_some.mpr ⟨other, isOther, rfl⟩⟩

lemma SolutionCoordinator.Valid.mem_waitOnly (valid : coord.Valid setting) {earlier : Nat}
    (found : coord.graph.projects[index]? = some proj) :
    earlier ∈ (coord.task proj index).waitOnly ↔
      earlier < index ∧ ∃ other, coord.graph.projects[earlier]? = some other ∧
        writeRootsOverlap setting (setting.writeRoots other) (setting.writeRoots proj) := by
  rw [task, valid.waits, mem_filterMap]
  simp only [deriveWaitOnlyDependencies, mem_flatMap, Prod.exists, mem_zipIdx_iff_getElem?]
  constructor
  · rintro ⟨path, ⟨later, laterIndex, isLater, mem⟩, isEarlier⟩
    obtain ⟨other, isOther, rfl⟩ := valid.indexByConfigPath_eq_some.mp isEarlier
    split at mem
    · rename_i same
      obtain rfl : laterIndex = index := index_eq_of_nodup valid.arranged.distinct
        (SolutionGraph.getElem?_paths isLater)
        (by rw [same]; exact SolutionGraph.getElem?_paths found)
      obtain rfl : later = proj := Option.some.inj (isLater.symm.trans found)
      obtain ⟨other', mem, samePath⟩ := mem_map.mp mem
      obtain ⟨inFront, overlaps⟩ := mem_filter.mp mem
      obtain ⟨pos, atPosition⟩ := mem_iff_getElem?.mp inFront
      rw [getElem?_take] at atPosition
      split at atPosition
      · rename_i small
        obtain rfl : pos = earlier := index_eq_of_nodup valid.arranged.distinct
          (SolutionGraph.getElem?_paths atPosition)
          (by rw [samePath]; exact SolutionGraph.getElem?_paths isOther)
        exact ⟨small, other', atPosition, overlaps⟩
      · nomatch atPosition
    · nomatch mem
  · rintro ⟨small, other, isOther, overlaps⟩
    refine ⟨other.configPath, ⟨proj, index, found, ?_⟩,
      valid.indexByConfigPath_eq_some.mpr ⟨other, isOther, rfl⟩⟩
    rw [if_pos rfl]
    refine mem_map_of_mem (mem_filter.mpr ⟨?_, overlaps⟩)
    apply mem_of_getElem?
    rw [getElem?_take, if_pos small]
    exact isOther

lemma SolutionCoordinator.getElem?_tasks {task : SolutionTask} :
    coord.tasks[index]? = some task ↔ ∃ proj,
      coord.graph.projects[index]? = some proj ∧ coord.task proj index = task := by
  rw [tasks, List.getElem?_mapIdx, Option.map_eq_some_iff]

lemma SolutionCoordinator.mem_tasks {task : SolutionTask} : task ∈ coord.tasks ↔ ∃ proj,
      coord.graph.projects[task.index]? = some proj ∧
        coord.task proj task.index = task := by
  rw [mem_iff_getElem?]
  constructor
  · rintro ⟨pos, found⟩
    obtain ⟨proj, isProject, rfl⟩ := getElem?_tasks.mp found
    exact ⟨proj, isProject, rfl⟩
  · rintro ⟨proj, isProject, same⟩
    exact ⟨task.index, getElem?_tasks.mpr ⟨proj, isProject, same⟩⟩

lemma SolutionCoordinator.Valid.wellOrdered (valid : coord.Valid setting) :
    WellOrdered coord.tasks coord.work := by
  constructor
  · intro pos task found
    obtain ⟨proj, _, rfl⟩ := getElem?_tasks.mp found
    rfl
  · intro task mem barrier isBarrier
    obtain ⟨proj, found, same⟩ := mem_tasks.mp mem
    rw [← same] at isBarrier
    rcases mem_append.mp isBarrier with isPredecessor | isWaitOnly
    · obtain ⟨other, isOther, isReference⟩ := valid.mem_predecessors.mp isPredecessor
      exact valid.arranged.earlier _ _ _ _ found isOther isReference
    · exact ((valid.mem_waitOnly found).mp isWaitOnly).1
  · intro task mem outcomes outcomes' agree
    obtain ⟨proj, found, same⟩ := mem_tasks.mp mem
    have failed : (coord.task proj task.index).predecessors.find?
          (fun pred => ((outcomes pred).bind (·.err)).isSome) =
        (coord.task proj task.index).predecessors.find?
          (fun pred => ((outcomes' pred).bind (·.err)).isSome) := by
      apply List.find?_congr
      intro pred isPredecessor
      rw [agree pred (same ▸ isPredecessor)]
    simp only [work, withoutBuild, found, failed]

/-! ### The outcome of a project -/

def Fails (outcomes : Nat → Option (DrainOutcome F P)) (index : Nat) : Prop :=
  ((outcomes index).bind (·.err)).isSome

variable {outcomes : Nat → Option (DrainOutcome F P)} {index : Nat} {proj : SolutionProject O}

lemma SolutionCoordinator.Valid.withoutBuild_eq_none (valid : coord.Valid setting)
    (found : coord.graph.projects[index]? = some proj) :
    coord.withoutBuild index outcomes = none ↔ (coord.state proj.configPath).upToDate = false ∧
        ∀ pred ∈ (coord.task proj index).predecessors,
          ¬ Fails outcomes pred := by
  rw [withoutBuild, found]
  dsimp only
  split
  · rename_i upToDate
    simp [upToDate]
  · rename_i outdated
    simp only [outdated, true_and]
    cases failed : (coord.task proj index).predecessors.find?
        (fun pred => ((outcomes pred).bind (·.err)).isSome) with
    | none =>
      simp only [Option.bind_none, true_iff]
      intro pred mem
      simpa [Fails] using List.find?_eq_none.mp failed pred mem
    | some pred =>
      have mem := mem_of_find?_eq_some failed
      obtain ⟨other, isOther, _⟩ := valid.mem_predecessors.mp mem
      simp only [Option.bind_some, isOther, reduceCtorEq, false_iff]
      have fails := find?_some failed
      exact fun none' => none' pred mem fails

/-- What happens to a project without a build: it is up to date, or it is blocked by the first
project it references that fails. -/
theorem SolutionCoordinator.withoutBuild_cases (found : coord.graph.projects[index]? = some proj)
    {outcome : DrainOutcome F P}
    (without : coord.withoutBuild index outcomes = some outcome) :
    ((coord.state proj.configPath).upToDate ∧ outcome = { skip := true }) ∨
      ((coord.state proj.configPath).upToDate = false ∧
        ∃ pred ∈ (coord.task proj index).predecessors, ∃ dependency,
          coord.graph.projects[pred]? = some dependency ∧
          Fails outcomes pred ∧ outcome = {
            blockedBy := dependency.configPath
            err := some (.blocked proj.configPath dependency.configPath) }) := by
  rw [withoutBuild, found] at without
  dsimp only at without
  split at without
  · rename_i upToDate
    exact Or.inl ⟨upToDate, (Option.some.inj without).symm⟩
  · rename_i outdated
    refine Or.inr ⟨by simpa using outdated, ?_⟩
    split at without
    · nomatch without
    · rename_i dependency isDependency
      obtain ⟨pred, failed, isDependency⟩ := Option.bind_eq_some_iff.mp isDependency
      have fails := find?_some failed
      exact ⟨pred, mem_of_find?_eq_some failed, dependency, isDependency, fails,
        (Option.some.inj without).symm⟩

/-- What can have happened to a project when its task has ended. -/
inductive Ended (coord : SolutionCoordinator O F P) (outcomes : Nat → Option (DrainOutcome F P))
    (events : List (Event (DrainOutcome F P))) (index : Nat)
    (proj : SolutionProject O) : Prop where
  | skipped (upToDate : (coord.state proj.configPath).upToDate)
      (unstarted : index ∉ starts events) (isSkip : outcomes index = some { skip := true })
  | blocked (outdated : (coord.state proj.configPath).upToDate = false)
      (unstarted : index ∉ starts events) (dependency : SolutionProject O)
      (fails : ∃ predecessor ∈ (coord.task proj index).predecessors,
        coord.graph.projects[predecessor]? = some dependency ∧ Fails outcomes predecessor)
      (isBlocked : outcomes index = some {
        blockedBy := dependency.configPath
        err := some (.blocked proj.configPath dependency.configPath) })
  | built (outdated : (coord.state proj.configPath).upToDate = false)
      (started : index ∈ starts events)
      (succeed : ∀ predecessor ∈ (coord.task proj index).predecessors, ¬ Fails outcomes predecessor)
      (drained : Drained F P)
      (isBuilt : outcomes index = some (coord.work.answered index drained))

variable {events : List (Event (DrainOutcome F P))} {direct : List Bytes}

lemma SolutionCoordinator.Valid.ended (valid : coord.Valid setting)
    (inv : Invariant coord.tasks coord.work pool events)
    (found : coord.graph.projects[index]? = some proj) (ended : (pool.outcomes index).isSome) :
    Ended coord pool.outcomes events index proj := by
  have isStarted : index ∈ starts events ↔ coord.withoutBuild index pool.outcomes = none := by
    rw [inv.logged.started]
    constructor
    · rintro (⟨task, mem, rfl⟩ | ⟨_, callsOut⟩)
      · exact (inv.claimed.claims _ mem task rfl).running rfl
      · exact callsOut
    · exact fun callsOut => Or.inr ⟨ended, callsOut⟩
  obtain ⟨outcome, has⟩ := Option.isSome_iff_exists.mp ended
  obtain ⟨task, _, _, _, gives⟩ := inv.claimed.settled index outcome has
  rcases gives with atOnce | ⟨callsOut, drained, rfl⟩
  · have unstarted : index ∉ starts events := by
      rw [isStarted]
      exact fun callsOut => nomatch atOnce.symm.trans callsOut
    rcases withoutBuild_cases found atOnce with ⟨upToDate, rfl⟩ |
      ⟨outdated, pred, isPredecessor, dependency, isDependency, fails, rfl⟩
    · exact .skipped upToDate unstarted has
    · exact .blocked outdated unstarted dependency ⟨pred, isPredecessor, isDependency, fails⟩ has
  · obtain ⟨outdated, succeed⟩ := (valid.withoutBuild_eq_none found).mp callsOut
    exact .built outdated (isStarted.mpr callsOut) succeed drained has

lemma SolutionCoordinator.Valid.of_started (valid : coord.Valid setting)
    (inv : Invariant coord.tasks coord.work pool events)
    (found : coord.graph.projects[index]? = some proj) (started : index ∈ starts events) :
    (coord.state proj.configPath).upToDate = false ∧ ∀ pred ∈ (coord.task proj index).predecessors,
        ¬ Fails pool.outcomes pred := by
  rw [← valid.withoutBuild_eq_none found]
  rcases (inv.logged.started index).mp started with ⟨task, mem, rfl⟩ | ⟨_, callsOut⟩
  · exact (inv.claimed.claims _ mem task rfl).running rfl
  · exact callsOut

/-! ### The states after a drain -/

def SolutionProjectState.drained (state : SolutionProjectState F)
    (outcome : DrainOutcome F P) : SolutionProjectState F :=
  if outcome.skip then state else state.after outcome

lemma lookup_gather (gathered : Gathered F P) (proj : SolutionProject O)
    (outcome : DrainOutcome F P) (path : Bytes) :
    ((gather gathered proj outcome).states.lookup path).getD {} =
      if path = proj.configPath then
        ((gathered.states.lookup path).getD {}).drained outcome
      else (gathered.states.lookup path).getD {} := by
  rw [gather, SolutionProjectState.drained]
  split
  · split <;> rfl
  · split
    · rename_i same
      rw [same, AList.lookup_insert]
      rfl
    · rename_i different
      rw [AList.lookup_insert_ne different]

lemma mem_gather (gathered : Gathered F P) (proj : SolutionProject O)
    (outcome : DrainOutcome F P) (known : proj.configPath ∈ gathered.states)
    (path : Bytes) : path ∈ (gather gathered proj outcome).states ↔ path ∈ gathered.states := by
  rw [gather]
  split
  · rfl
  · simp only [mem_insert, or_iff_right_iff_imp]
    rintro rfl
    exact known

def gatherAll (outcome : Nat → DrainOutcome F P)
    (pairs : List (SolutionProject O × Nat)) (gathered : Gathered F P) :
    Gathered F P :=
  pairs.foldl (fun gathered pair => gather gathered pair.1 (outcome pair.2)) gathered

section Gather

variable {outcome : Nat → DrainOutcome F P}
  {pairs : List (SolutionProject O × Nat)} {gathered : Gathered F P}

lemma lookup_gatherAll_of_not_mem (outside : path ∉ pairs.map (·.1.configPath)) :
    ((gatherAll outcome pairs gathered).states.lookup path).getD {} =
      (gathered.states.lookup path).getD {} := by
  induction pairs generalizing gathered with
  | nil => rfl
  | cons first pairs ih =>
    rw [map_cons, mem_cons, not_or] at outside
    refine (ih outside.2).trans ?_
    rw [lookup_gather, if_neg outside.1]

lemma lookup_gatherAll (distinct : (pairs.map (·.1.configPath)).Nodup)
    (mem : (proj, index) ∈ pairs) :
    ((gatherAll outcome pairs gathered).states.lookup proj.configPath).getD {} =
      ((gathered.states.lookup proj.configPath).getD {}).drained (outcome index) := by
  induction pairs generalizing gathered with
  | nil => nomatch mem
  | cons first pairs ih =>
    rw [map_cons, nodup_cons] at distinct
    rcases mem_cons.mp mem with rfl | mem
    · refine (lookup_gatherAll_of_not_mem distinct.1).trans ?_
      rw [lookup_gather, if_pos rfl]
    · refine (ih distinct.2 mem).trans ?_
      rw [lookup_gather, if_neg]
      intro same
      exact distinct.1 (mem_map.mpr ⟨_, mem, same⟩)

lemma mem_gatherAll (known : ∀ pair ∈ pairs, pair.1.configPath ∈ gathered.states) (path : Bytes) :
    path ∈ (gatherAll outcome pairs gathered).states ↔ path ∈ gathered.states := by
  induction pairs generalizing gathered with
  | nil => rfl
  | cons first pairs ih =>
    have kept := mem_gather gathered first.1 (outcome first.2) (known first (by simp))
    refine (ih fun pair mem => ?_).trans (kept path)
    exact (kept _).mpr (known pair (by simp [mem]))

end Gather

/-- What a drain does: the workers run until they return, and the states follow the outcomes. -/
structure DrainsTo (coord coord' : SolutionCoordinator O F P)
    (pool : Pool (DrainOutcome F P)) : Prop where
  graph : coord'.graph = coord.graph
  waits : coord'.waitOnlyDependencies = coord.waitOnlyDependencies
  builders : coord'.builders = coord.builders
  states : ∃ gathered : Gathered F P, gathered.states = coord.states ∧
    coord'.states = (gatherAll (fun index => (pool.outcomes index).getD {})
      coord.graph.projects.zipIdx gathered).states

lemma SolutionCoordinator.drain_cases {schedule : List (Nat × Drained F P)} {write : P → Option F}
    {coord' : SolutionCoordinator O F P}
    {report : DrainReport F P}
    (drained : coord.drain schedule write = some (coord', report)) :
    ∃ pool, runSchedule coord.tasks coord.work (startPool coord.builders)
        schedule = some (pool, report.events) ∧ pool.Returned ∧
      report.outcomes = pool.outcomes ∧ DrainsTo coord coord' pool := by
  rw [drain] at drained
  split at drained
  · nomatch drained
  · rename_i pool events ran
    split at drained
    · rename_i returned
      dsimp only at drained
      split at drained
      · cases drained
        exact ⟨pool, ran, returned, rfl, rfl, rfl, rfl, ⟨_, rfl, rfl⟩⟩
      · cases drained
        exact ⟨pool, ran, returned, rfl, rfl, rfl, rfl, ⟨_, rfl, rfl⟩⟩
    · nomatch drained

lemma SolutionCoordinator.exists_drain {schedule : List (Nat × Drained F P)}
    (write : P → Option F)
    (ran : runSchedule coord.tasks coord.work (startPool coord.builders)
      schedule = some (pool, events)) (returned : pool.Returned) :
    ∃ coord' report, coord.drain schedule write = some (coord', report) ∧
      report.events = events ∧ report.outcomes = pool.outcomes := by
  rw [drain, ran]
  dsimp only
  rw [if_pos returned]
  split
  · exact ⟨_, _, rfl, rfl, rfl⟩
  · exact ⟨_, _, rfl, rfl, rfl⟩

section DrainsTo

variable {coord' : SolutionCoordinator O F P} {pool : Pool (DrainOutcome F P)}

lemma map_zipIdx_configPath (projects : List (SolutionProject O)) (start : Nat) :
    (projects.zipIdx start).map (·.1.configPath) = projects.map (·.configPath) := by
  induction projects generalizing start with
  | nil => rfl
  | cons first projects ih =>
    rw [zipIdx_cons, map_cons, map_cons, ih]

lemma DrainsTo.state (valid : coord.Valid setting) (drains : DrainsTo coord coord' pool)
    (found : coord.graph.projects[index]? = some proj) :
    coord'.state proj.configPath =
      (coord.state proj.configPath).drained ((pool.outcomes index).getD {}) := by
  obtain ⟨gathered, states, states'⟩ := drains.states
  rw [SolutionCoordinator.state, SolutionCoordinator.state, states', ← states]
  refine lookup_gatherAll ?_ (mem_zipIdx_iff_getElem?.mpr found)
  rw [map_zipIdx_configPath]
  exact valid.arranged.distinct

lemma DrainsTo.valid (valid : coord.Valid setting)
    (drains : DrainsTo coord coord' pool) : coord'.Valid setting := by
  obtain ⟨gathered, states, states'⟩ := drains.states
  refine ⟨by rw [drains.graph]; exact valid.arranged, ?_, fun path => ?_⟩
  · rw [drains.waits, drains.graph]
    exact valid.waits
  · rw [states', mem_gatherAll, states, drains.graph]
    · exact valid.known path
    · intro pair mem
      rw [states, valid.known]
      have inside := mem_map_of_mem (f := fun pair => pair.1.configPath) mem
      rwa [map_zipIdx_configPath] at inside

end DrainsTo

/-! ### Invalidation -/

def SolutionGraph.Refers (graph : SolutionGraph O) (path reference : Bytes) : Prop :=
  ∃ proj ∈ graph.projects, proj.configPath = path ∧ reference ∈ proj.references

lemma mem_reverse {dependent : Bytes} :
    dependent ∈ reverse graph.projects path ↔ graph.Refers dependent path := by
  simp only [reverse, mem_flatMap, mem_filterMap, Option.ite_none_right_eq_some, Option.some.injEq]
  constructor
  · rintro ⟨proj, mem, reference, isReference, rfl, rfl⟩
    exact ⟨proj, mem, rfl, isReference⟩
  · rintro ⟨proj, mem, rfl, isReference⟩
    exact ⟨proj, mem, path, isReference, rfl, rfl⟩

lemma SolutionCoordinator.mem_seen (inside : ∀ path ∈ direct, path ∈ coord.graph.paths) :
    path ∈ coord.seen direct ↔
      ∃ target ∈ direct, Relation.ReflTransGen coord.graph.Refers path target := by
  have closed : ∀ path ∈ coord.graph.paths, ∀ dependent ∈ reverse coord.graph.projects path,
        dependent ∈ coord.graph.paths := by
    intro path _ dependent mem
    obtain ⟨proj, isProject, rfl, _⟩ := mem_reverse.mp mem
    exact mem_map_of_mem isProject
  refine (Lib.Worklist.mem_close inside closed (by simp) (Nat.le_refl _) path).trans ?_
  simp only [not_mem_nil, false_or, mem_reverse]
  refine exists_congr fun target => and_congr_right fun _ => ?_
  rw [← Relation.reflTransGen_swap]

lemma lookup_foldl_invalidated {states : AList fun _ : Bytes => SolutionProjectState F}
    (distinct : paths.Nodup) (path : Bytes) :
    ((paths.foldl (fun states path => states.insert path
        (((states.lookup path).getD {}).invalidated (path ∈ direct))) states).lookup path).getD {} =
      if path ∈ paths then ((states.lookup path).getD {}).invalidated (path ∈ direct)
      else (states.lookup path).getD {} := by
  induction paths generalizing states with
  | nil => rfl
  | cons first paths ih =>
    rw [nodup_cons] at distinct
    rw [foldl_cons, ih distinct.2]
    by_cases same : path = first
    · subst same
      rw [if_neg distinct.1, if_pos (by simp), AList.lookup_insert]
      rfl
    · rw [AList.lookup_insert_ne same]
      simp only [mem_cons, same, false_or]

lemma mem_foldl_invalidated {states : AList fun _ : Bytes => SolutionProjectState F}
    (known : ∀ path ∈ paths, path ∈ states) (path : Bytes) :
    path ∈ paths.foldl (fun states path => states.insert path
        (((states.lookup path).getD {}).invalidated (path ∈ direct))) states ↔ path ∈ states := by
  induction paths generalizing states with
  | nil => rfl
  | cons first paths ih =>
    rw [foldl_cons, ih]
    · simp only [mem_insert, or_iff_right_iff_imp]
      rintro rfl
      exact known _ (by simp)
    · exact fun other mem => mem_insert _ |>.mpr (Or.inr (known other (by simp [mem])))

/-- Exactly the projects from which a given project can be reached through references between
projects are invalidated. -/
theorem SolutionCoordinator.Valid.state_invalidate (valid : coord.Valid setting)
    (cwd : Bytes) (paths : List Bytes) (isProject : path ∈ coord.graph.paths) :
    let direct := coord.direct cwd paths
    (coord.invalidate cwd paths).1.state path =
      if path ∈ coord.seen direct then
        (coord.state path).invalidated (path ∈ direct)
      else coord.state path := by
  intro direct
  refine (lookup_foldl_invalidated (valid.arranged.distinct.filter _) path).trans ?_
  simp only [mem_filter, decide_eq_true_eq, isProject, true_and]
  rfl

lemma SolutionCoordinator.Valid.invalidate (valid : coord.Valid setting)
    (cwd : Bytes) (paths : List Bytes) :
    (coord.invalidate cwd paths).1.Valid setting := by
  refine ⟨valid.arranged, valid.waits, fun path =>
    (mem_foldl_invalidated ?_ path).trans (valid.known path)⟩
  intro other mem
  exact (valid.known other).mpr (mem_of_mem_filter mem)

lemma SolutionCoordinator.Valid.direct_inside (valid : coord.Valid setting)
    (cwd : Bytes) (paths : List Bytes) :
    ∀ path ∈ coord.direct cwd paths, path ∈ coord.graph.paths := by
  intro path mem
  exact (valid.known path).mp (of_decide_eq_true (mem_filter.mp mem).2)

lemma SolutionCoordinator.Valid.direct_self (valid : coord.Valid setting)
    (cwd : Bytes) (isProject : path ∈ coord.graph.paths) :
    coord.direct cwd [path] = [path] := by
  have canonical := valid.arranged.canonical path isProject
  rw [direct, map_singleton, canonical.abs_eq, canonical.cleaned, filter_singleton,
    show decide (path ∈ coord.states) from
      decide_eq_true ((valid.known path).mpr isProject)]
  rfl

/-! ### A new coordinator -/

lemma lookup_statesFor (graph : SolutionGraph O)
    (known : AList fun _ : Bytes => SolutionProjectState F) (path : Bytes) :
    (statesFor graph known).lookup path =
      if path ∈ graph.paths then some ((known.lookup path).getD {}) else none := by
  have step : ∀ (projects : List (SolutionProject O))
      (states : AList fun _ : Bytes => SolutionProjectState F),
      (projects.foldl (fun states proj => states.insert proj.configPath
        ((known.lookup proj.configPath).getD {})) states).lookup path =
      if path ∈ projects.map (·.configPath) then some ((known.lookup path).getD {})
      else states.lookup path := by
    intro projects
    induction projects with
    | nil => exact fun _ => rfl
    | cons first projects ih =>
      intro states
      rw [foldl_cons, ih]
      by_cases same : path = first.configPath
      · subst same
        simp [AList.lookup_insert]
      · rw [AList.lookup_insert_ne same]
        simp [same]
  exact (step graph.projects ∅).trans rfl

lemma mem_statesFor {known : AList fun _ : Bytes => SolutionProjectState F} :
    path ∈ statesFor graph known ↔ path ∈ graph.paths := by
  rw [← AList.lookup_isSome, lookup_statesFor]
  split
  · simp [*]
  · simp [*]

lemma SolutionCoordinator.reload_valid {config : Bytes} {entry : O}
    {reloaded : SolutionCoordinator O F P}
    (returned : coord.reload setting config entry = some (.ok reloaded)) :
    reloaded.Valid setting ∧
      ∀ path ∈ reloaded.graph.paths, reloaded.state path = coord.state path := by
  obtain ⟨graph, built, rest⟩ := Lib.Action.returned_bind_eq_ok.mp returned
  cases rest
  obtain ⟨order, ordered⟩ := buildSolutionGraph_ordered built
  refine ⟨⟨ordered.arranged, rfl, fun path => mem_statesFor⟩, fun path isProject => ?_⟩
  rw [SolutionCoordinator.state, lookup_statesFor, if_pos isProject]
  rfl

lemma newSolutionCoordinator_valid {config : Bytes} {entry : O}
    (made : newSolutionCoordinator setting config entry = some (.ok coord)) :
    coord.Valid setting ∧ (∃ order, Ordered setting.toWorkspace coord.graph order) ∧
      ∀ path, coord.state path = {} := by
  obtain ⟨graph, built, rest⟩ := Lib.Action.returned_bind_eq_ok.mp made
  cases rest
  obtain ⟨order, ordered⟩ := buildSolutionGraph_ordered built
  refine ⟨⟨ordered.arranged, rfl, fun path => mem_statesFor⟩, ⟨order, ordered⟩, fun path => ?_⟩
  rw [SolutionCoordinator.state, lookup_statesFor]
  split
  · rw [AList.lookup_empty]
    rfl
  · rfl

end Tasks

end Rotor.Solution
