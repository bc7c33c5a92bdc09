import Rotor.Solution.Drains

/-!
References that go through several configs.

The coordinator follows the references between projects. A config that only lists references is
no project, so a reference that leads through such a config is not followed. Everything that
should hold for references of any length holds exactly for the graphs in which each project that
can be reached from another one can be reached through projects alone.
-/

namespace Rotor.Solution

open List

variable {O E F P : Type}

/-- A coordinator after any number of drains and invalidations. -/
inductive Reached (setting : Setting O E) (config : Bytes)
    (entry : O) : SolutionCoordinator O F P → Prop where
  | made {coord} (made : newSolutionCoordinator setting config entry = some (.ok coord)) :
      Reached setting config entry coord
  | drain {coord coord' sched write report} (reached : Reached setting config entry coord)
      (drained : coord.drain sched write = some (coord', report)) :
      Reached setting config entry coord'
  | invalidate {coord} (reached : Reached setting config entry coord) (paths : List Bytes) :
      Reached setting config entry (coord.invalidate setting.workingDirectory paths).1

/-- One config leads to another through references, over coordinators as well. -/
def Leads (workspace : Workspace O E) : Bytes → Bytes → Prop :=
  Relation.TransGen fun path reference => reference ∈ references workspace path

/-- References of any length are respected. -/
structure Transitive (setting : Setting O E) (coord : SolutionCoordinator O F P) : Prop where
  invalidates : ∀ proj ∈ coord.graph.projects, ∀ other ∈ coord.graph.projects,
    proj = other ∨ Leads setting.toWorkspace proj.configPath other.configPath →
    ((coord.invalidate setting.workingDirectory [other.configPath]).1.state
      proj.configPath).upToDate = false
  withheld : ∀ sched pool events, coord.Runs sched pool events →
    ∀ index proj, coord.graph.projects[index]? = some proj →
    ∀ index' other, coord.graph.projects[index']? = some other →
      Leads setting.toWorkspace proj.configPath other.configPath →
      .started index' ∈ events → Fails pool.outcomes index' → .started index ∉ events
  behind : ∀ sched pool events, coord.Runs sched pool events →
    ∀ front index back, events = front ++ .started index :: back →
    ∀ proj, coord.graph.projects[index]? = some proj →
    ∀ index' other, coord.graph.projects[index']? = some other →
      Leads setting.toWorkspace proj.configPath other.configPath →
      ∃ outcome, .finished index' outcome ∈ front

/-- A project that can be reached from another one can be reached through projects alone. -/
def SolutionGraph.Direct (workspace : Workspace O E) (graph : SolutionGraph O) : Prop :=
  ∀ proj ∈ graph.projects, ∀ other ∈ graph.projects,
    Leads workspace proj.configPath other.configPath →
    Relation.TransGen graph.Refers proj.configPath other.configPath

section

variable {setting : Setting O E} {coord coord' : SolutionCoordinator O F P}

/-! ### What is up to date -/

def SolutionCoordinator.Current (coord : SolutionCoordinator O F P) :
    Prop :=
  ∀ proj ∈ coord.graph.projects, (coord.state proj.configPath).upToDate →
    ∀ other ∈ coord.graph.projects, other.configPath ∈ proj.references →
      (coord.state other.configPath).upToDate

section Drain

variable {pool : Pool (DrainOutcome F P)}
  {events : List (Event (DrainOutcome F P))} {index index' : Nat}
  {proj other : SolutionProject O}

lemma SolutionCoordinator.Valid.reference_succeeds (valid : coord.Valid setting)
    (current : coord.Current) (inv : Invariant coord.tasks coord.work pool events)
    (found : coord.graph.projects[index]? = some proj)
    (found' : coord.graph.projects[index']? = some other)
    (isRef : other.configPath ∈ proj.references) (has : (pool.outcomes index).isSome)
    (succeeds : ¬ Fails pool.outcomes index) :
    (pool.outcomes index').isSome ∧ ¬ Fails pool.outcomes index' := by
  have isPredecessor : index' ∈ (coord.task proj index).predecessors :=
    valid.mem_predecessors.mpr ⟨other, found', isRef⟩
  have isSome : (pool.outcomes index').isSome := by
    obtain ⟨outcome, ended⟩ := Option.isSome_iff_exists.mp has
    obtain ⟨task, mem, same, closed, _⟩ := inv.claimed.settled index outcome ended
    obtain ⟨proj', isProject, isTask⟩ := mem_tasks.mp mem
    rw [same, found] at isProject
    cases isProject
    refine closed index' ?_
    rw [← isTask, same]
    exact mem_append_left _ isPredecessor
  refine ⟨isSome, ?_⟩
  cases valid.ended inv found has with
  | skipped upToDate _ _ =>
    have upToDate' := current proj (mem_of_getElem? found) upToDate other
      (mem_of_getElem? found') isRef
    cases valid.ended inv found' isSome with
    | skipped _ _ isSkip => simp [Fails, isSkip]
    | blocked outdated => cases outdated.symm.trans upToDate'
    | built outdated => cases outdated.symm.trans upToDate'
  | blocked _ _ dependency _ isBlocked => simp [Fails, isBlocked] at succeeds
  | built _ _ succeed _ _ => exact succeed index' isPredecessor

lemma SolutionCoordinator.Current.drain (valid : coord.Valid setting) (current : coord.Current)
    (drains : DrainsTo coord coord' pool) (inv : Invariant coord.tasks coord.work pool events)
    (returned : pool.Returned) : coord'.Current := by
  intro proj mem upToDate other mem' isRef
  rw [drains.graph] at mem mem'
  obtain ⟨index, found⟩ := mem_iff_getElem?.mp mem
  obtain ⟨index', found'⟩ := mem_iff_getElem?.mp mem'
  have settled := drains.settled valid inv returned found
  rw [(drains.settled valid inv returned found').upToDate_iff]
  exact (valid.reference_succeeds current inv found found' isRef
    (isSome_of_found inv returned found) (settled.upToDate_iff.mp upToDate)).2

end Drain

lemma SolutionCoordinator.Current.invalidate (valid : coord.Valid setting)
    (current : coord.Current) (cwd : Bytes) (paths : List Bytes) :
    (coord.invalidate cwd paths).1.Current := by
  intro proj mem upToDate other mem' isRef
  have isProject : proj.configPath ∈ coord.graph.paths := mem_map_of_mem mem
  have isProject' : other.configPath ∈ coord.graph.paths := mem_map_of_mem mem'
  rw [valid.state_invalidate cwd paths isProject] at upToDate
  rw [valid.state_invalidate cwd paths isProject']
  have inside := valid.direct_inside cwd paths
  split at upToDate
  · nomatch upToDate
  · rename_i unseen
    rw [if_neg]
    · exact current proj mem upToDate other mem' isRef
    · intro seen
      obtain ⟨target, isDirect, chain⟩ := (mem_seen inside).mp seen
      exact unseen ((mem_seen inside).mpr ⟨target, isDirect, .head ⟨proj, mem, rfl, isRef⟩ chain⟩)

variable {graph : SolutionGraph O}

lemma Reached.valid {config : Bytes} {entry : O}
    (built : buildSolutionGraph setting.toWorkspace config entry = some (.ok graph))
    (reached : Reached setting config entry coord) :
    coord.Valid setting ∧ coord.Current ∧ coord.graph = graph := by
  induction reached with
  | made made =>
    obtain ⟨valid, _, unknown⟩ := newSolutionCoordinator_valid made
    refine ⟨valid, fun proj _ upToDate => ?_, ?_⟩
    · rw [unknown] at upToDate
      nomatch upToDate
    · obtain ⟨graph', built', rest⟩ := Lib.Action.returned_bind_eq_ok.mp made
      cases rest
      cases built.symm.trans built'
      rfl
  | drain _ drained ih =>
    obtain ⟨valid, current, same⟩ := ih
    obtain ⟨pool, ran, returned, _, drains⟩ := SolutionCoordinator.drain_cases drained
    exact ⟨drains.valid valid, current.drain valid drains (valid.invariant ran) returned,
      drains.graph.trans same⟩
  | invalidate _ paths ih =>
    obtain ⟨valid, current, same⟩ := ih
    exact ⟨valid.invalidate _ paths, current.invalidate valid _ paths, same⟩

/-! ### Chains of references between projects -/

section Chain

variable {pool : Pool (DrainOutcome F P)}
  {events : List (Event (DrainOutcome F P))} {index index' : Nat}
  {proj other : SolutionProject O}

lemma SolutionGraph.Arranged.eq_of_configPath (arranged : graph.Arranged)
    (mem : proj ∈ graph.projects) (mem' : other ∈ graph.projects)
    (same : proj.configPath = other.configPath) : proj = other := by
  obtain ⟨index, found⟩ := mem_iff_getElem?.mp mem
  obtain ⟨index', found'⟩ := mem_iff_getElem?.mp mem'
  have equal := index_eq_of_nodup arranged.distinct
    (by rw [← same]; exact SolutionGraph.getElem?_paths found) (SolutionGraph.getElem?_paths found')
  rw [equal] at found
  exact Option.some.inj (found.symm.trans found')

/-- What holds for the references of a project, and passes from a project to its references,
holds along a chain of references between projects. -/
theorem chain_induction (holds : Nat → Prop) (arranged : graph.Arranged)
    (mem : proj ∈ graph.projects)
    (first : ∀ middle next, graph.projects[middle]? = some next →
      next.configPath ∈ proj.references → holds middle)
    (step : ∀ middle next index' other, graph.projects[middle]? = some next →
      graph.projects[index']? = some other → other.configPath ∈ next.references →
      holds middle → holds index') (found' : graph.projects[index']? = some other)
    (chain : Relation.TransGen graph.Refers proj.configPath other.configPath) :
    holds index' := by
  generalize target : other.configPath = path at chain
  induction chain generalizing index' other with
  | single edge =>
    subst target
    obtain ⟨source, isSource, same, isRef⟩ := edge
    obtain rfl := arranged.eq_of_configPath isSource mem same
    exact first index' other found' isRef
  | tail _ edge ih =>
    subst target
    obtain ⟨source, isSource, same, isRef⟩ := edge
    obtain ⟨middle, found⟩ := mem_iff_getElem?.mp isSource
    exact step middle source index' other found found' isRef (ih found same)

lemma SolutionCoordinator.Valid.finished_of_chain (valid : coord.Valid setting)
    {sched : List (Nat × Drained F P)} {front back : List (Event (DrainOutcome F P))}
    (runs : coord.Runs sched pool (front ++ .started index :: back))
    (found : coord.graph.projects[index]? = some proj)
    (found' : coord.graph.projects[index']? = some other)
    (chain : Relation.TransGen coord.graph.Refers proj.configPath other.configPath) :
    ∃ outcome, .finished index' outcome ∈ front := by
  refine chain_induction (fun index => ∃ outcome, .finished index outcome ∈ front)
    valid.arranged (mem_of_getElem? found) ?_ ?_ found' chain
  · intro middle next isNext isRef
    exact valid.finished_of_started runs found (valid.mem_barriers isNext (Or.inl isRef))
  · rintro middle next index' other isNext found' isRef ⟨outcome, finished⟩
    obtain ⟨before, after, rfl⟩ := append_of_mem finished
    rw [append_assoc, cons_append] at runs
    obtain ⟨outcome', finished'⟩ := valid.finished_of_started runs isNext
      (valid.mem_barriers found' (Or.inl isRef))
    exact ⟨outcome', mem_append_left _ finished'⟩

lemma SolutionCoordinator.Valid.succeeds_of_chain (valid : coord.Valid setting)
    (current : coord.Current) {sched : List (Nat × Drained F P)}
    (runs : coord.Runs sched pool events) (found : coord.graph.projects[index]? = some proj)
    (found' : coord.graph.projects[index']? = some other)
    (chain : Relation.TransGen coord.graph.Refers proj.configPath other.configPath)
    (started : .started index ∈ events) : ¬ Fails pool.outcomes index' := by
  have inv := valid.invariant runs
  have settled : (pool.outcomes index').isSome ∧ ¬ Fails pool.outcomes index' := by
    refine chain_induction (fun index => (pool.outcomes index).isSome ∧ ¬ Fails pool.outcomes index)
      valid.arranged (mem_of_getElem? found) ?_ ?_ found' chain
    · intro middle next isNext isRef
      have succeed := (valid.of_started inv found (mem_starts.mpr started)).2
      obtain ⟨front, back, rfl⟩ := append_of_mem started
      obtain ⟨outcome, finished⟩ := valid.finished_of_started runs found
        (valid.mem_barriers isNext (Or.inl isRef))
      have has := (inv.logged.finished middle outcome).mp (mem_append_left _ finished)
      exact ⟨by rw [has]; rfl, succeed middle (valid.mem_predecessors.mpr ⟨next, isNext, isRef⟩)⟩
    · rintro middle next index' other isNext found' isRef ⟨isSome, succeeds⟩
      exact valid.reference_succeeds current inv isNext found' isRef isSome succeeds
  exact settled.2

lemma SolutionCoordinator.Valid.invalidated_of_chain (valid : coord.Valid setting) (cwd : Bytes)
    (mem : proj ∈ coord.graph.projects) (mem' : other ∈ coord.graph.projects)
    (chain : Relation.ReflTransGen coord.graph.Refers proj.configPath other.configPath) :
    ((coord.invalidate cwd [other.configPath]).1.state
      proj.configPath).upToDate = false := by
  have isProject' : other.configPath ∈ coord.graph.paths := mem_map_of_mem mem'
  rw [valid.state_invalidate cwd _ (mem_map_of_mem mem), valid.direct_self cwd isProject', if_pos]
  · rfl
  · exact (mem_seen (by simpa using isProject')).mpr ⟨_, by simp, chain⟩

end Chain

lemma SolutionCoordinator.Valid.transitive (valid : coord.Valid setting)
    (current : coord.Current) (direct : coord.graph.Direct setting.toWorkspace) :
    Transitive setting coord := by
  constructor
  · rintro proj mem other mem' (rfl | leads)
    · exact valid.invalidated_of_chain _ mem mem' .refl
    · exact valid.invalidated_of_chain _ mem mem' (direct proj mem other mem' leads).to_reflTransGen
  · intro sched pool events runs index proj found index' other found' leads _ fails started
    have chain := direct proj (mem_of_getElem? found) other (mem_of_getElem? found') leads
    exact valid.succeeds_of_chain current runs found found' chain started fails
  · rintro sched pool events runs front index back rfl proj found index' other found' leads
    have chain := direct proj (mem_of_getElem? found) other (mem_of_getElem? found') leads
    exact valid.finished_of_chain runs found found' chain

lemma Ordered.not_leads_self {order : List Bytes} {workspace : Workspace O E}
    (ordered : Ordered workspace graph order) {path : Bytes} (isProject : path ∈ graph.paths) :
    ¬ Leads workspace path path := by
  rw [SolutionGraph.paths, ordered.paths] at isProject
  obtain ⟨front, back, split⟩ := append_of_mem (mem_of_mem_filter isProject)
  intro leads
  have inFront := ordered.sorted.reached split leads
  have distinct := ordered.distinct
  rw [split, nodup_middle, nodup_cons] at distinct
  exact distinct.1 (mem_append_left _ inFront)

/-- Once everything is built, an invalidation shows which references are followed. -/
theorem direct_of_transitive {config : Bytes} {entry : O}
    (made : newSolutionCoordinator setting config entry = some (.ok coord))
    (transitive : ∀ coord : SolutionCoordinator O F P,
      Reached setting config entry coord → Transitive setting coord) :
    coord.graph.Direct setting.toWorkspace := by
  obtain ⟨valid, ⟨order, ordered⟩, _⟩ := newSolutionCoordinator_valid made
  obtain ⟨sched, built, report, pool, drained, replies⟩ :=
    valid.exists_replies (fun _ => {}) (fun _ => none)
  have reached : Reached setting config entry built := .drain (.made made) drained
  have validBuilt := replies.drains.valid valid
  intro proj mem other mem' leads
  have graph := replies.drains.graph
  have isProject : proj.configPath ∈ built.graph.paths := by
    rw [graph]
    exact mem_map_of_mem mem
  have isProject' : other.configPath ∈ built.graph.paths := by
    rw [graph]
    exact mem_map_of_mem mem'
  have outdated := (transitive built reached).invalidates proj (graph ▸ mem) other
    (graph ▸ mem') (Or.inr leads)
  rw [validBuilt.state_invalidate _ _ isProject, validBuilt.direct_self _ isProject'] at outdated
  split at outdated
  · rename_i seen
    obtain ⟨target, isDirect, chain⟩ :=
      (SolutionCoordinator.mem_seen (by simpa using isProject')).mp seen
    rw [mem_singleton.mp isDirect, graph] at chain
    rcases Relation.reflTransGen_iff_eq_or_transGen.mp chain with same | chain
    · rw [same] at leads
      exact absurd leads (ordered.not_leads_self (graph ▸ isProject))
    · exact chain
  · obtain ⟨index, found⟩ := mem_iff_getElem?.mp mem
    have succeeds := replies.not_fails valid (fun _ _ => rfl) (Nat.lt_succ_self index) found
    have upToDate := (replies.settled valid found).upToDate_iff.mpr succeeds
    nomatch outdated.symm.trans upToDate

end

/-- In every state the coordinator can come to, references of any length are respected, exactly
when no reference between projects depends on a coordinator. -/
theorem transitive_iff (setting : Setting O E) (config : Bytes)
    (entry : O) (coord : SolutionCoordinator O F P)
    (made : newSolutionCoordinator setting config entry = some (.ok coord)) :
    (∀ reached : SolutionCoordinator O F P,
      Reached setting config entry reached → Transitive setting reached) ↔
      coord.graph.Direct setting.toWorkspace := by
  refine ⟨direct_of_transitive made, fun direct later reached => ?_⟩
  obtain ⟨graph, built, rest⟩ := Lib.Action.returned_bind_eq_ok.mp made
  cases rest
  obtain ⟨valid, current, same⟩ := reached.valid built
  exact valid.transitive current (same ▸ direct)

lemma twoGraph_direct : twoGraph.Direct twoProjects.toWorkspace := by
  intro proj mem other mem' leads
  obtain ⟨_, ⟨_, ordered⟩, _⟩ := newSolutionCoordinator_valid twoCoordinator_made
  have acyclic := ordered.not_leads_self (mem_map_of_mem mem)
  obtain ⟨next, edge, _⟩ := Relation.TransGen.head'_iff.mp leads
  simp only [twoGraph, mem_cons, not_mem_nil, or_false] at mem mem'
  rcases mem with rfl | rfl
  · have none' : references twoProjects.toWorkspace (str "/lib/tsconfig.json") = [] := rfl
    nomatch edge
  · rcases mem' with rfl | rfl
    · exact .single ⟨_, by simp [twoGraph], rfl, by simp⟩
    · exact absurd leads acyclic

theorem transitive_two : twoGraph.Direct twoProjects.toWorkspace ∧
    ∀ reached : SolutionCoordinator Unit Unit Unit,
      Reached twoProjects (str "/app/tsconfig.json") () reached → Transitive twoProjects reached :=
  ⟨twoGraph_direct, (transitive_iff twoProjects (str "/app/tsconfig.json") () _
    twoCoordinator_made).mpr twoGraph_direct⟩

/-! ### A project behind a coordinator -/

/-- An application references a group, which only references a library. -/
def groupedProjects : Setting Unit Unit where
  workingDirectory := str "/"
  rooted := Path.isAbs_root
  files := (((∅ : AList fun _ : Bytes => Option TsConfig).insert (str "/app/tsconfig.json")
    (some { references := [some (str "../group")] })).insert (str "/group/tsconfig.json")
    (some { references := [some (str "../lib")], files := some [] })).insert
    (str "/lib/tsconfig.json") (some {})
  optionsFor _ _ _ := .ok ()
  builders _ := some 1
  writeRoots _ := []
  useCaseSensitiveFileNames := true
  toLower := id

def groupedGraph : SolutionGraph Unit where
  projects := [
    ⟨str "/lib/tsconfig.json", [], (), false⟩,
    ⟨str "/app/tsconfig.json", [str "/group/tsconfig.json"], (), false⟩]

def groupedCoordinator : SolutionCoordinator Unit Unit Unit where
  graph := groupedGraph
  states := statesFor groupedGraph ∅
  waitOnlyDependencies := deriveWaitOnlyDependencies groupedProjects groupedGraph.projects
  builders := 1
  persists := []

lemma groupedCoordinator_made :
    newSolutionCoordinator groupedProjects (str "/app/tsconfig.json") () =
      some (.ok groupedCoordinator) := rfl

def appStaysUpToDate (coord : SolutionCoordinator Unit Unit Unit)
    (_report : DrainReport Unit Unit) : Bool :=
  ((coord.invalidate (str "/") [str "/lib/tsconfig.json"]).1.state
    (str "/app/tsconfig.json")).upToDate

lemma appStaysUpToDate_after_build :
    afterOne groupedCoordinator (oneWorker (List.replicate 7 none)) appStaysUpToDate := by
  decide +kernel

/-- The application is built although the library failed. -/
example : afterOne groupedCoordinator (oneWorker [none, none, some (), none, none, none, none])
    (fun _ report => starts report.events == [0, 1]) = true := by
  decide +kernel

theorem transitive_fails_behind_coordinator : ∃ coord : SolutionCoordinator Unit Unit Unit,
      Reached groupedProjects (str "/app/tsconfig.json") () coord ∧
        ¬ Transitive groupedProjects coord := by
  obtain ⟨built, report, drained, stays⟩ := exists_of_afterOne appStaysUpToDate_after_build
  refine ⟨built, .drain (.made groupedCoordinator_made) drained, fun transitive => ?_⟩
  obtain ⟨_, _, _, _, drains⟩ := SolutionCoordinator.drain_cases drained
  have graph : built.graph = groupedGraph := drains.graph
  have leads : Leads groupedProjects.toWorkspace (str "/app/tsconfig.json")
      (str "/lib/tsconfig.json") :=
    .tail (.single (b := str "/group/tsconfig.json") (by decide)) (by decide)
  have outdated := transitive.invalidates
    ⟨str "/app/tsconfig.json", [str "/group/tsconfig.json"], (), false⟩
    (by simp [graph, groupedGraph])
    ⟨str "/lib/tsconfig.json", [], (), false⟩ (by simp [graph, groupedGraph]) (Or.inr leads)
  nomatch outdated.symm.trans stays

end Rotor.Solution
