import Rotor.Solution.CoordinatorSpec

/-!
What a drain guarantees.

Along every schedule the workers return, each project is built at most once and behind the
projects it references or waits for, and projects that share a write root are not built at the
same time. After the drain a project shows that it is blocked exactly when a project it
references failed or is blocked, provided that no project showed this before and that what an
up to date project references is up to date.
-/

namespace Rotor.Solution

open List

variable {O E F P : Type}

def SolutionCoordinator.Runs (coord : SolutionCoordinator O F P) (sched : List (Nat × Drained F P))
    (pool : Pool (DrainOutcome F P))
    (events : List (Event (DrainOutcome F P))) : Prop :=
  runSchedule coord.tasks coord.work (startPool coord.builders) sched = some (pool, events)

def Draining {R : Type} (events : List (Event R)) (index : Nat) : Prop :=
  .started index ∈ events ∧ ∀ outcome, .finished index outcome ∉ events

/-- What holds along every schedule of the workers. -/
structure Scheduled (setting : Setting O E) (coord : SolutionCoordinator O F P) : Prop where
  /-- No schedule goes on for ever, and where the workers have not returned, one can move. -/
  terminates : ∃ bound, ∀ sched pool events, coord.Runs sched pool events → sched.length ≤ bound ∧
      (pool.Returned ∨ ∀ answer, ∃ position,
        (step coord.tasks coord.work pool position answer).isSome)
  once : ∀ sched pool events, coord.Runs sched pool events → (starts events).Nodup
  outdated : ∀ sched pool events, coord.Runs sched pool events →
    ∀ index proj, coord.graph.projects[index]? = some proj →
      .started index ∈ events → (coord.state proj.configPath).upToDate = false
  behind : ∀ sched pool events, coord.Runs sched pool events →
    ∀ front index back, events = front ++ .started index :: back →
      ∀ proj, coord.graph.projects[index]? = some proj →
      ∀ index' other, coord.graph.projects[index']? = some other →
        (other.configPath ∈ proj.references ∨
          other.configPath ∈ coord.waitOnlyDependencies proj.configPath) →
        ∃ outcome, .finished index' outcome ∈ front
  apart : ∀ sched pool events, coord.Runs sched pool events →
    ∀ index proj, coord.graph.projects[index]? = some proj →
    ∀ index' other, coord.graph.projects[index']? = some other → index ≠ index' →
      writeRootsOverlap setting (setting.writeRoots proj) (setting.writeRoots other) →
      ¬ (Draining events index ∧ Draining events index')

def DrainReport.Failed (report : DrainReport F P) (index : Nat) : Prop :=
  .started index ∈ report.events ∧ Fails report.outcomes index

def SolutionCoordinator.Blocked (coord : SolutionCoordinator O F P)
    (proj : SolutionProject O) : Prop := (coord.state proj.configPath).blockedBy ≠ []

/-- After every drain exactly those projects show that they are blocked, and are not built, of
whose references one failed or is blocked. -/
def SolutionCoordinator.ReportsBlocked (coord : SolutionCoordinator O F P) : Prop :=
  ∀ sched write coord' report, coord.drain sched write = some (coord', report) →
    ∀ index proj, coord.graph.projects[index]? = some proj → (coord'.Blocked proj ↔
        ∃ index' other, coord.graph.projects[index']? = some other ∧
          other.configPath ∈ proj.references ∧
          (report.Failed index' ∨ coord'.Blocked other)) ∧
      (coord'.Blocked proj → .started index ∉ report.events)

/-- What the coordinator must know before a drain: nobody shows that it is blocked, and what an
up to date project references is up to date. -/
def SolutionCoordinator.Clear (coord : SolutionCoordinator O F P) : Prop :=
  ∀ proj ∈ coord.graph.projects, ¬ coord.Blocked proj ∧
    ((coord.state proj.configPath).upToDate → ∀ other ∈ coord.graph.projects,
      other.configPath ∈ proj.references → (coord.state other.configPath).upToDate)

variable {pool : Pool (DrainOutcome F P)}

section

variable {setting : Setting O E} {coord : SolutionCoordinator O F P}

variable {sched : List (Nat × Drained F P)} {proj : SolutionProject O}

lemma SolutionCoordinator.Valid.invariant (valid : coord.Valid setting)
    {events : List (Event (DrainOutcome F P))}
    (runs : coord.Runs sched pool events) :
    Invariant coord.tasks coord.work pool events := runSchedule_invariant valid.wellOrdered runs

lemma SolutionCoordinator.Valid.finished_of_started (valid : coord.Valid setting)
    {front back : List (Event (DrainOutcome F P))}
    {event : Event (DrainOutcome F P)} (runs : coord.Runs sched pool (front ++ event :: back))
    (found : coord.graph.projects[event.index]? = some proj) {barrier : Nat}
    (isBarrier : barrier ∈ (coord.task proj event.index).barriers) :
    ∃ outcome, .finished barrier outcome ∈ front := by
  obtain ⟨task, mem, same, behind⟩ := (valid.invariant runs).logged.behind front event back rfl
  obtain ⟨proj', found', isTask⟩ := mem_tasks.mp mem
  rw [same, found] at found'
  cases found'
  apply behind
  rw [← isTask, same]
  exact isBarrier

lemma SolutionCoordinator.Valid.mem_barriers (valid : coord.Valid setting) {index idx' : Nat}
    {other : SolutionProject O} (isOther : coord.graph.projects[idx']? = some other)
    (waits : other.configPath ∈ proj.references ∨
      other.configPath ∈ coord.waitOnlyDependencies proj.configPath) :
    idx' ∈ (coord.task proj index).barriers := by
  rw [SolutionTask.barriers, mem_append]
  refine waits.imp (fun isRef => valid.mem_predecessors.mpr ⟨other, isOther, isRef⟩)
    fun isWaitOnly => ?_
  exact mem_filterMap.mpr ⟨_, isWaitOnly, valid.indexByConfigPath_eq_some.mpr ⟨other, isOther, rfl⟩⟩

lemma writeRootsOverlap_symm {left right : List Bytes}
    (overlap : writeRootsOverlap setting left right) : writeRootsOverlap setting right left := by
  simp only [writeRootsOverlap, any_eq_true, Bool.or_eq_true] at overlap ⊢
  obtain ⟨leftRoot, isLeft, rightRoot, isRight, contains⟩ := overlap
  exact ⟨rightRoot, isRight, leftRoot, isLeft, contains.symm⟩

lemma SolutionCoordinator.Valid.not_draining (valid : coord.Valid setting)
    {events : List (Event (DrainOutcome F P))}
    (runs : coord.Runs sched pool events) {index idx' : Nat} {other : SolutionProject O}
    (found : coord.graph.projects[index]? = some proj)
    (found' : coord.graph.projects[idx']? = some other) (later : idx' < index)
    (overlap : writeRootsOverlap setting (setting.writeRoots other) (setting.writeRoots proj)) :
    ¬ (Draining events index ∧ Draining events idx') := by
  rintro ⟨⟨started, _⟩, _, unfinished⟩
  obtain ⟨front, back, rfl⟩ := append_of_mem started
  have isWaitOnly := (valid.mem_waitOnly found).mpr ⟨later, other, found', overlap⟩
  obtain ⟨outcome, finished⟩ := valid.finished_of_started runs found (mem_append_right _ isWaitOnly)
  exact unfinished outcome (mem_append_left _ finished)

lemma SolutionCoordinator.Valid.scheduled (valid : coord.Valid setting) :
    Scheduled setting coord := by
  refine ⟨⟨(startPool coord.builders :
      Pool (DrainOutcome F P)).weight coord.tasks, ?_⟩, ?_, ?_, ?_, ?_⟩
  · intro sched pool events runs
    have bounded := length_le_weight runs
    refine ⟨by omega, ?_⟩
    by_cases returned : pool.Returned
    · exact Or.inl returned
    · refine Or.inr fun answer => ?_
      obtain ⟨pos, pool', events', stepped⟩ :=
        step_of_not_returned valid.wellOrdered (valid.invariant runs) answer returned
      exact ⟨pos, by rw [stepped]; rfl⟩
  · exact fun sched pool events runs => (valid.invariant runs).logged.once
  · intro sched pool events runs index proj found started
    exact (valid.of_started (valid.invariant runs) found (mem_starts.mpr started)).1
  · rintro sched pool events runs front index back rfl proj found idx' other found' waits
    exact valid.finished_of_started runs found (valid.mem_barriers found' waits)
  · intro sched pool events runs index proj found idx' other found' different overlap
    rcases Nat.lt_or_gt_of_ne different with earlier | later
    · rw [and_comm]
      exact valid.not_draining runs found' found earlier overlap
    · exact valid.not_draining runs found found' later (writeRootsOverlap_symm overlap)

/-! ### Who is blocked -/

section Reports

variable {coord' : SolutionCoordinator O F P} {pool : Pool (DrainOutcome F P)}
  {events : List (Event (DrainOutcome F P))} {index : Nat}
  {proj : SolutionProject O}

lemma SolutionGraph.Arranged.configPath_ne_nil {graph : SolutionGraph O}
    (arranged : graph.Arranged) (found : graph.projects[index]? = some proj) :
    proj.configPath ≠ [] := by
  intro empty
  have mem : proj.configPath ∈ graph.paths := mem_map_of_mem (mem_of_getElem? found)
  have absolute := (arranged.canonical _ mem).absolute
  rw [empty] at absolute
  nomatch absolute

/-- What a drain does with a project and leaves of it. -/
inductive Settled (coord coord' : SolutionCoordinator O F P)
    (outcomes : Nat → Option (DrainOutcome F P)) (events : List (Event (DrainOutcome F P)))
    (index : Nat) (proj : SolutionProject O) : Prop where
  | skipped (upToDate : (coord.state proj.configPath).upToDate) (succeeds : ¬ Fails outcomes index)
      (after : (coord'.state proj.configPath).upToDate)
      (shown : coord'.Blocked proj ↔ coord.Blocked proj)
  | blocked (outdated : (coord.state proj.configPath).upToDate = false)
      (unstarted : index ∉ starts events)
      (failing : ∃ pred ∈ (coord.task proj index).predecessors, Fails outcomes pred)
      (fails : Fails outcomes index)
      (after : (coord'.state proj.configPath).upToDate = false)
      (shown : coord'.Blocked proj)
  | ran (outdated : (coord.state proj.configPath).upToDate = false)
      (started : index ∈ starts events)
      (succeed : ∀ pred ∈ (coord.task proj index).predecessors, ¬ Fails outcomes pred)
      (after : (coord'.state proj.configPath).upToDate ↔ ¬ Fails outcomes index)
      (shown : coord'.Blocked proj ↔ Fails outcomes index ∧ coord.Blocked proj)

lemma isSome_of_found (inv : Invariant coord.tasks coord.work pool events)
    (returned : pool.Returned) (found : coord.graph.projects[index]? = some proj) :
    (pool.outcomes index).isSome := by
  refine inv.isSome_of_returned returned ?_
  rw [SolutionCoordinator.tasks, length_mapIdx]
  exact (List.getElem?_eq_some_iff.mp found).1

lemma DrainsTo.settled (drains : DrainsTo coord coord' pool) (valid : coord.Valid setting)
    (inv : Invariant coord.tasks coord.work pool events) (returned : pool.Returned)
    (found : coord.graph.projects[index]? = some proj) :
    Settled coord coord' pool.outcomes events index proj := by
  have after := drains.state valid found
  cases valid.ended inv found (isSome_of_found inv returned found) with
  | skipped upToDate _ isSkip =>
    rw [isSkip] at after
    have same : coord'.state proj.configPath = coord.state proj.configPath := after
    exact .skipped upToDate (by simp [Fails, isSkip]) (by rwa [same])
      (by rw [SolutionCoordinator.Blocked, SolutionCoordinator.Blocked, same])
  | blocked outdated unstarted dependency fails isBlocked =>
    obtain ⟨pred, isPredecessor, isDependency, fails⟩ := fails
    have named := valid.arranged.configPath_ne_nil isDependency
    refine .blocked outdated unstarted ⟨pred, isPredecessor, fails⟩
      (by simp [Fails, isBlocked]) ?_ ?_
    · simp [after, isBlocked, SolutionProjectState.drained, SolutionProjectState.after, named,
        outdated]
    · simp [SolutionCoordinator.Blocked, after, isBlocked, SolutionProjectState.drained,
        SolutionProjectState.after, named]
  | built outdated started succeed drained isBuilt =>
    rw [isBuilt] at after
    simp only [SolutionCoordinator.work, Option.getD_some, SolutionProjectState.drained,
      SolutionProjectState.after, Bool.false_eq_true, if_false] at after isBuilt
    refine .ran outdated started succeed ?_ ?_ <;> cases failed : drained.err <;>
      simp [SolutionCoordinator.Blocked, Fails, after, isBuilt, failed, outdated]

section Settled

variable (settled : Settled coord coord' pool.outcomes events index proj)

include settled

lemma Settled.blocked_iff (clear : ¬ coord.Blocked proj) :
    coord'.Blocked proj ↔ (coord.state proj.configPath).upToDate = false ∧
      ∃ pred ∈ (coord.task proj index).predecessors,
        Fails pool.outcomes pred := by
  cases settled with
  | skipped upToDate _ _ shown => simp [shown, clear, upToDate]
  | blocked outdated _ failing _ _ shown => simp only [shown, outdated, failing, and_self]
  | ran outdated _ succeed _ shown => simpa [shown, clear, outdated] using succeed

lemma Settled.fails_iff (clear : ¬ coord.Blocked proj) : Fails pool.outcomes index ↔
      (index ∈ starts events ∧ Fails pool.outcomes index) ∨ coord'.Blocked proj := by
  cases settled with
  | skipped _ succeeds _ shown => simp [succeeds, shown, clear]
  | blocked _ _ _ fails _ shown => simp [fails, shown]
  | ran _ started _ _ shown => simp [started, shown, clear]

lemma Settled.of_upToDate (upToDate : (coord.state proj.configPath).upToDate) :
    ¬ Fails pool.outcomes index ∧ (coord'.Blocked proj ↔ coord.Blocked proj) := by
  cases settled with
  | skipped _ succeeds _ shown => exact ⟨succeeds, shown⟩
  | _ outdated => nomatch outdated.symm.trans upToDate

lemma Settled.upToDate_iff :
    (coord'.state proj.configPath).upToDate ↔ ¬ Fails pool.outcomes index := by
  cases settled with
  | skipped _ succeeds after => simp [succeeds, after]
  | blocked _ _ _ fails after => simp [fails, after]
  | ran _ _ _ after => exact after

end Settled

lemma SolutionCoordinator.Valid.reportsBlocked (valid : coord.Valid setting)
    (clear : coord.Clear) : coord.ReportsBlocked := by
  intro sched write coord' report drained index proj found
  obtain ⟨pool, ran, returned, outcomes, drains⟩ := drain_cases drained
  have inv := valid.invariant ran
  have settled := fun {index proj} =>
    @DrainsTo.settled _ _ _ _ setting _ _ _ _ index proj drains valid inv returned
  obtain ⟨unblocked, closed⟩ := clear proj (mem_of_getElem? found)
  have shown := (settled found).blocked_iff unblocked
  -- What a project references fails exactly when the report says that it failed or is blocked.
  have fails : ∀ idx' other, coord.graph.projects[idx']? = some other →
      (Fails pool.outcomes idx' ↔ report.Failed idx' ∨ coord'.Blocked other) := by
    intro idx' other found'
    rw [(settled found').fails_iff (clear other (mem_of_getElem? found')).1,
      DrainReport.Failed, outcomes, mem_starts]
  constructor
  · rw [shown]
    constructor
    · rintro ⟨_, pred, isPredecessor, failing⟩
      obtain ⟨other, found', isRef⟩ := valid.mem_predecessors.mp isPredecessor
      exact ⟨pred, other, found', isRef, (fails _ _ found').mp failing⟩
    · rintro ⟨idx', other, found', isRef, failing⟩
      have failing := (fails _ _ found').mpr failing
      refine ⟨?_, idx', valid.mem_predecessors.mpr ⟨other, found', isRef⟩, failing⟩
      -- What an up to date project references is up to date, and does not fail.
      by_contra upToDate
      rw [Bool.not_eq_false] at upToDate
      have upToDate' := closed upToDate other (mem_of_getElem? found') isRef
      exact ((settled found').of_upToDate upToDate').1 failing
  · intro blocked started
    obtain ⟨_, pred, isPredecessor, failing⟩ := shown.mp blocked
    exact (valid.of_started inv found (mem_starts.mpr started)).2 pred isPredecessor failing

structure Replies (coord coord' : SolutionCoordinator O F P) (report : DrainReport F P)
    (pool : Pool (DrainOutcome F P)) (reply : Nat → Drained F P) : Prop where
  invariant : Invariant coord.tasks coord.work pool report.events
  returned : pool.Returned
  outcomes : report.outcomes = pool.outcomes
  drains : DrainsTo coord coord' pool
  replied : ∀ index proj, coord.graph.projects[index]? = some proj → index ∈ starts report.events →
    pool.outcomes index = some (coord.work.answered index (reply index))

lemma SolutionCoordinator.Valid.exists_replies (valid : coord.Valid setting)
    (reply : Nat → Drained F P) (write : P → Option F) :
    ∃ sched coord' report pool, coord.drain sched write = some (coord', report) ∧
        Replies coord coord' report pool reply := by
  obtain ⟨sched, pool, events, ran, returned, replied⟩ :=
    exists_runSchedule valid.wellOrdered reply
      (Invariant.start coord.tasks (coord.work.replying reply) coord.builders)
  obtain ⟨coord', report, drained, rfl, outcomes⟩ := exists_drain write ran returned
  obtain ⟨pool', ran', _, _, drains⟩ := drain_cases drained
  cases ran.symm.trans ran'
  have inv := valid.invariant ran
  refine ⟨sched, coord', report, pool, drained, inv, returned, outcomes, drains,
    fun index proj found started => ?_⟩
  have callsOut := (valid.withoutBuild_eq_none found).mpr (valid.of_started inv found started)
  obtain ⟨outcome, has⟩ := Option.isSome_iff_exists.mp (isSome_of_found inv returned found)
  obtain ⟨_, _, _, _, atOnce | ⟨_, _, isBuilt⟩⟩ := replied.claimed.settled index outcome has
  · nomatch atOnce.symm.trans callsOut
  · exact has.trans (congrArg some isBuilt)

section Replies

variable {report : DrainReport F P} {reply : Nat → Drained F P} {target : Nat}

lemma Replies.settled (valid : coord.Valid setting)
    (replies : Replies coord coord' report pool reply)
    (found : coord.graph.projects[index]? = some proj) :
    Settled coord coord' pool.outcomes report.events index proj :=
  replies.drains.settled valid replies.invariant replies.returned found

lemma Replies.not_fails (valid : coord.Valid setting)
    (replies : Replies coord coord' report pool reply)
    (succeed : ∀ index < target, (reply index).err = none) (small : index < target)
    (found : coord.graph.projects[index]? = some proj) : ¬ Fails pool.outcomes index := by
  induction index using Nat.strongRecOn generalizing proj with
  | ind index ih =>
    cases replies.settled valid found with
    | skipped _ succeeds => exact succeeds
    | blocked _ _ failing =>
      obtain ⟨pred, isPredecessor, failing⟩ := failing
      obtain ⟨other, isOther, isRef⟩ := valid.mem_predecessors.mp isPredecessor
      have earlier := valid.arranged.earlier _ _ _ _ found isOther isRef
      exact absurd failing (ih pred earlier (by omega) isOther)
    | ran _ started =>
      simp [Fails, replies.replied _ _ found started, SolutionCoordinator.work, succeed index small]

lemma Replies.fails (valid : coord.Valid setting) (replies : Replies coord coord' report pool reply)
    (succeed : ∀ index < target, (reply index).err = none) (fails : (reply target).err.isSome)
    (found : coord.graph.projects[target]? = some proj)
    (outdated : (coord.state proj.configPath).upToDate = false) :
    target ∈ starts report.events ∧ Fails pool.outcomes target := by
  cases replies.settled valid found with
  | skipped upToDate => nomatch outdated.symm.trans upToDate
  | blocked _ _ failing =>
    obtain ⟨pred, isPredecessor, failing⟩ := failing
    obtain ⟨other, isOther, isRef⟩ := valid.mem_predecessors.mp isPredecessor
    exact absurd failing (replies.not_fails valid succeed
      (valid.arranged.earlier _ _ _ _ found isOther isRef) isOther)
  | ran _ started =>
    refine ⟨started, ?_⟩
    simpa [Fails, replies.replied _ _ found started, SolutionCoordinator.work] using fails

/-- A project that does not fail is shown as blocked only when it was up to date and so shown
before. -/
theorem Replies.blocked_before (valid : coord.Valid setting)
    (replies : Replies coord coord' report pool reply) (succeeds : ¬ Fails pool.outcomes index)
    (found : coord.graph.projects[index]? = some proj) (blocked : coord'.Blocked proj) :
    (coord.state proj.configPath).upToDate ∧ coord.Blocked proj := by
  cases replies.settled valid found with
  | skipped upToDate _ _ shown => exact ⟨upToDate, shown.mp blocked⟩
  | blocked _ _ _ fails => exact absurd fails succeeds
  | ran _ _ _ _ shown => exact absurd (shown.mp blocked).1 succeeds

end Replies

def failOnly (error : F) (target index : Nat) : Drained F P :=
  { err := if index = target then some error else none }

lemma failOnly_before (error : F) (target : Nat) :
    ∀ index < target, (failOnly error target index : Drained F P).err = none :=
  fun _ small => if_neg (Nat.ne_of_lt small)

lemma failOnly_target (error : F) (target : Nat) :
    (failOnly error target target : Drained F P).err.isSome := by
  simp [failOnly]

lemma SolutionCoordinator.Valid.not_blocked_of_upToDate (valid : coord.Valid setting)
    (reports : coord.ReportsBlocked) (found : coord.graph.projects[index]? = some proj)
    (upToDate : (coord.state proj.configPath).upToDate) :
    ¬ coord.Blocked proj := by
  obtain ⟨sched, coord', report, pool, drained, replies⟩ :=
    valid.exists_replies (fun _ => {}) (fun _ => none)
  have succeeds : ∀ {index proj}, coord.graph.projects[index]? = some proj →
      ¬ Fails pool.outcomes index := fun found =>
    replies.not_fails valid (fun _ _ => rfl) (Nat.lt_succ_self _) found
  induction index using Nat.strongRecOn generalizing proj with
  | ind index ih =>
    intro blocked
    have shown := ((replies.settled valid found).of_upToDate upToDate).2.mpr blocked
    obtain ⟨idx', other, found', isRef, failed | blocked'⟩ :=
      (reports _ _ _ _ drained index proj found).1.mp shown
    · rw [DrainReport.Failed, replies.outcomes] at failed
      exact succeeds found' failed.2
    · obtain ⟨upToDate', blockedBefore⟩ :=
        replies.blocked_before valid (succeeds found') found' blocked'
      exact ih idx' (valid.arranged.earlier _ _ _ _ found found' isRef)
        found' upToDate' blockedBefore

/-- Where the reports are right, no project is shown as blocked before a drain: its own build
could fail, and nothing would take back what is shown. -/
theorem SolutionCoordinator.Valid.not_blocked_of_reports (valid : coord.Valid setting)
    (reports : coord.ReportsBlocked) (error : F)
    (found : coord.graph.projects[index]? = some proj) :
    ¬ coord.Blocked proj := by
  by_cases upToDate : (coord.state proj.configPath).upToDate
  · exact valid.not_blocked_of_upToDate reports found upToDate
  · rw [Bool.not_eq_true] at upToDate
    intro blocked
    obtain ⟨sched, coord', report, pool, drained, replies⟩ :=
      valid.exists_replies (failOnly error index) (fun _ => none)
    obtain ⟨started, fails⟩ := replies.fails valid (failOnly_before error index)
      (failOnly_target error index) found upToDate
    have shown : coord'.Blocked proj := by
      cases replies.settled valid found with
      | skipped upToDate' => nomatch upToDate.symm.trans upToDate'
      | blocked _ _ _ _ _ shown => exact shown
      | ran _ _ _ _ shown => exact shown.mpr ⟨fails, blocked⟩
    obtain ⟨idx', other, found', isRef, failing⟩ :=
      (reports _ _ _ _ drained index proj found).1.mp shown
    have succeeds := replies.not_fails valid (failOnly_before error index)
      (valid.arranged.earlier _ _ _ _ found found' isRef) found'
    rcases failing with failed | blocked'
    · rw [DrainReport.Failed, replies.outcomes] at failed
      exact succeeds failed.2
    · obtain ⟨upToDate', blockedBefore⟩ := replies.blocked_before valid succeeds found' blocked'
      exact valid.not_blocked_of_upToDate reports found' upToDate' blockedBefore

lemma SolutionCoordinator.Valid.clear (valid : coord.Valid setting)
    (reports : coord.ReportsBlocked) (error : F) : coord.Clear := by
  intro proj mem
  obtain ⟨index, found⟩ := mem_iff_getElem?.mp mem
  have unblocked := valid.not_blocked_of_reports reports error found
  refine ⟨unblocked, fun upToDate other mem' isRef => ?_⟩
  obtain ⟨idx', found'⟩ := mem_iff_getElem?.mp mem'
  by_contra outdated
  rw [Bool.not_eq_true] at outdated
  obtain ⟨sched, coord', report, pool, drained, replies⟩ :=
    valid.exists_replies (failOnly error idx') (fun _ => none)
  obtain ⟨started, fails⟩ := replies.fails valid (failOnly_before error idx')
    (failOnly_target error idx') found' outdated
  have failed : report.Failed idx' := ⟨mem_starts.mp started, by rw [replies.outcomes]; exact fails⟩
  have shown := (reports _ _ _ _ drained index proj found).1.mpr
    ⟨idx', other, found', isRef, Or.inl failed⟩
  exact unblocked (((replies.settled valid found).of_upToDate upToDate).2.mp shown)

end Reports

end

/-- For every graph, every number of builders and every state of its projects: along every
schedule the workers return, and projects are built once, in order and apart, and the drain shows
the right projects as blocked, exactly when nothing wrong is shown before it. -/
theorem drain_safe_iff (setting : Setting O E) (tsConfigPath : Bytes)
    (entry : O) (graph : SolutionGraph O)
    (built : buildSolutionGraph setting.toWorkspace tsConfigPath entry = some (.ok graph))
    (states : AList fun _ : Bytes => SolutionProjectState F)
    (known : ∀ path, path ∈ states ↔ path ∈ graph.paths) (builders : Int) (persists : List P)
    (error : F) :
    let coord : SolutionCoordinator O F P :=
      { graph, states, builders, persists
        waitOnlyDependencies := deriveWaitOnlyDependencies setting graph.projects }
    (Scheduled setting coord ∧ coord.ReportsBlocked) ↔ coord.Clear := by
  intro coord
  obtain ⟨order, ordered⟩ := buildSolutionGraph_ordered built
  have valid : coord.Valid setting := ⟨ordered.arranged, rfl, known⟩
  constructor
  · rintro ⟨_, reports⟩
    exact valid.clear reports error
  · exact fun clear => ⟨valid.scheduled, valid.reportsBlocked clear⟩

/-! ### A project that references another one -/

/-- The configs of an application and of a library that it references. -/
def twoProjects : Setting Unit Unit where
  workingDirectory := str "/"
  rooted := Path.isAbs_root
  files := ((∅ : AList fun _ : Bytes => Option TsConfig).insert (str "/app/tsconfig.json")
    (some { references := [some (str "../lib")] })).insert (str "/lib/tsconfig.json") (some {})
  optionsFor _ _ _ := .ok ()
  builders _ := some 1
  writeRoots _ := []
  useCaseSensitiveFileNames := true
  toLower := id

def twoGraph : SolutionGraph Unit where
  projects := [
    ⟨str "/lib/tsconfig.json", [], (), false⟩,
    ⟨str "/app/tsconfig.json", [str "/lib/tsconfig.json"], (), false⟩]

lemma twoGraph_built : buildSolutionGraph twoProjects.toWorkspace (str "/app/tsconfig.json") () =
      some (.ok twoGraph) := by
  rfl

def twoCoordinator (states : AList fun _ : Bytes => SolutionProjectState Unit) :
    SolutionCoordinator Unit Unit Unit where
  graph := twoGraph
  states := states
  waitOnlyDependencies := deriveWaitOnlyDependencies twoProjects twoGraph.projects
  builders := 1
  persists := []

lemma twoCoordinator_made : newSolutionCoordinator twoProjects (str "/app/tsconfig.json") () =
      some (.ok (twoCoordinator (statesFor twoGraph ∅))) := rfl

theorem drain_safe_new : Scheduled twoProjects (twoCoordinator (statesFor twoGraph ∅)) ∧
      (twoCoordinator (statesFor twoGraph ∅)).ReportsBlocked := by
  refine (drain_safe_iff twoProjects (str "/app/tsconfig.json") () twoGraph twoGraph_built
    (statesFor twoGraph ∅) (fun _ => mem_statesFor) 1 [] ()).mpr ?_
  have unknown := (newSolutionCoordinator_valid twoCoordinator_made).2.2
  intro proj _
  refine ⟨fun blocked => blocked ?_, fun upToDate => ?_⟩
  · exact congrArg SolutionProjectState.blockedBy (unknown proj.configPath)
  · have outdated := congrArg SolutionProjectState.upToDate (unknown proj.configPath)
    nomatch upToDate.symm.trans outdated

def oneWorker (answers : List (Option Unit)) : List (Nat × Drained Unit Unit) :=
  answers.map fun err => (0, { err })

def afterOne (coord : SolutionCoordinator Unit Unit Unit) (sched : List (Nat × Drained Unit Unit))
    (check : SolutionCoordinator Unit Unit Unit → DrainReport Unit Unit → Bool) : Bool :=
  match coord.drain sched fun _ => none with
  | none => false
  | some (drained, report) => check drained report

lemma exists_of_afterOne {coord : SolutionCoordinator Unit Unit Unit}
    {sched : List (Nat × Drained Unit Unit)}
    {check : SolutionCoordinator Unit Unit Unit → DrainReport Unit Unit → Bool}
    (checked : afterOne coord sched check) :
    ∃ coord' report, coord.drain sched (fun _ => none) = some (coord', report) ∧
      check coord' report := by
  rw [afterOne] at checked
  split at checked
  · nomatch checked
  · rename_i coord' report drained
    exact ⟨coord', report, drained, checked⟩

/-- The application is shown as blocked, and the library neither failed nor is shown so. -/
def onlyAppShown (coord : SolutionCoordinator Unit Unit Unit)
    (report : DrainReport Unit Unit) : Bool :=
  (coord.state (str "/app/tsconfig.json")).blockedBy != [] &&
    (coord.state (str "/lib/tsconfig.json")).blockedBy == [] &&
    !((report.outcomes 0).bind (·.err)).isSome

/-- First the library fails, so that the application is blocked; then the library is built and
the application fails by itself. -/
theorem onlyAppShown_after_recovery : afterOne (twoCoordinator (statesFor twoGraph ∅))
      (oneWorker [none, none, some (), none, none, none, none]) (fun first _ => afterOne first
        (oneWorker [none, none, none, none, none, none, some (), none]) onlyAppShown) := by
  decide +kernel

lemma not_reportsBlocked_of_onlyAppShown {coord coord' : SolutionCoordinator Unit Unit Unit}
    {sched : List (Nat × Drained Unit Unit)} {report : DrainReport Unit Unit}
    (graph : coord.graph = twoGraph)
    (drained : coord.drain sched (fun _ => none) = some (coord', report))
    (shown : onlyAppShown coord' report) : ¬ coord.ReportsBlocked := by
  simp only [onlyAppShown, Bool.and_eq_true, bne_iff_ne, beq_iff_eq, Bool.not_eq_true'] at shown
  obtain ⟨⟨appShown, libShown⟩, libSucceeds⟩ := shown
  intro reports
  have found : coord.graph.projects[1]? =
      some ⟨str "/app/tsconfig.json", [str "/lib/tsconfig.json"], (), false⟩ := by
    rw [graph]
    rfl
  obtain ⟨index, other, found, isRef, failing⟩ := (reports _ _ _ _ drained 1 _ found).1.mp appShown
  rw [mem_singleton] at isRef
  -- The first project is the only one at the path of the library.
  obtain rfl : index = 0 := by
    have first : twoGraph.paths[0]? = some (str "/lib/tsconfig.json") := rfl
    have distinct : twoGraph.paths.Nodup := by decide
    rw [graph] at found
    have here := SolutionGraph.getElem?_paths found
    rw [isRef] at here
    exact index_eq_of_nodup distinct here first
  rcases failing with failed | blocked
  · rw [DrainReport.Failed, Fails, libSucceeds] at failed
    cases failed.2
  · rw [SolutionCoordinator.Blocked, isRef] at blocked
    exact blocked libShown

/-- The application is shown as blocked by the library although the library was built and its
own build failed. -/
theorem reportsBlocked_fails_after_recovery : ∃ coord sched coord' report,
      newSolutionCoordinator twoProjects (str "/app/tsconfig.json") () = some (.ok coord) ∧
      coord.drain sched (fun _ : Unit => (none : Option Unit)) = some (coord', report) ∧
      ¬ coord'.ReportsBlocked := by
  obtain ⟨first, report, drained, checked⟩ := exists_of_afterOne onlyAppShown_after_recovery
  obtain ⟨second, report', drained', shown⟩ := exists_of_afterOne checked
  obtain ⟨_, _, _, _, drains⟩ := SolutionCoordinator.drain_cases drained
  exact ⟨_, _, first, report, twoCoordinator_made, drained,
    not_reportsBlocked_of_onlyAppShown drains.graph drained' shown⟩

end Rotor.Solution
