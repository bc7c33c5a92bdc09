import Mathlib.Algebra.GroupWithZero.Nat
import Mathlib.Data.List.Nodup
import Rotor.Solution.Scheduler

/-!
What the workers guarantee when no task waits for itself or for a later one.

No run is longer than a bound, and a run that has not ended can go on, so the workers return
along every schedule. A task calls out at most once, behind the end of every task it waits for,
and its outcome is the one that the outcomes of its predecessors give.
-/

namespace Rotor.Solution

open List Function

variable {R A : Type} {tasks : List SolutionTask} {work : Work R A}

/-- What one step of a worker can do, with the counter and the outcomes it leaves. -/
inductive Acts (tasks : List SolutionTask) (work : Work R A) (next : Nat) (outs : Nat → Option R) :
    Worker → Worker → Nat → (Nat → Option R) → List (Event R) → Prop where
  | claim {task} (found : tasks[next]? = some task) :
      Acts tasks work next outs .idle (.waiting task task.barriers) (next + 1) outs []
  | leave (found : tasks[next]? = none) : Acts tasks work next outs .idle .exited (next + 1) outs []
  | pass {task barrier barriers} (closed : (outs barrier).isSome) :
      Acts tasks work next outs (.waiting task (barrier :: barriers)) (.waiting task barriers)
        next outs []
  | settle {task outcome} (atOnce : work.immediate task.index outs = some outcome) :
      Acts tasks work next outs (.waiting task []) .idle next
        (update outs task.index (some outcome)) [.finished task.index outcome]
  | start {task} (callsOut : work.immediate task.index outs = none) :
      Acts tasks work next outs (.waiting task []) (.running task) next outs [.started task.index]
  | finish {task} (answer : A) : Acts tasks work next outs (.running task) .idle next
        (update outs task.index (some (work.answered task.index answer)))
        [.finished task.index (work.answered task.index answer)]

inductive Moves (tasks : List SolutionTask) (work : Work R A) :
    Pool R → Pool R → List (Event R) → Prop where
  | act {next next' outs outs' worker worker' events} (front back : List Worker)
      (acts : Acts tasks work next outs worker worker' next' outs' events) :
      Moves tasks work ⟨next, front ++ worker :: back, outs⟩
        ⟨next', front ++ worker' :: back, outs'⟩ events

variable {pos idx : Nat} {pool' pool : Pool R} {before events : List (Event R)}
  {sched : List (Nat × A)}

variable {worker : Worker}

lemma split_at_position {workers : List Worker} (found : workers[pos]? = some worker) :
    ∃ front back, workers = front ++ worker :: back ∧
      ∀ other, workers.set pos other = front ++ other :: back := by
  obtain ⟨inside, same⟩ := List.getElem?_eq_some_iff.mp found
  refine ⟨workers.take pos, workers.drop (pos + 1), ?_, ?_⟩
  · rw [← same, ← drop_eq_getElem_cons inside, take_append_drop]
  · intro other
    rw [set_eq_take_append_cons_drop, if_pos inside]

lemma moves_of_step {answer : A}
    (stepped : step tasks work pool pos answer = some (pool', events)) :
    Moves tasks work pool pool' events := by
  obtain ⟨next, workers, outs⟩ := pool
  rw [step] at stepped
  cases found : workers[pos]? with
  | none =>
    rw [found] at stepped
    nomatch stepped
  | some worker =>
    rw [found] at stepped
    obtain ⟨front, back, rfl, set⟩ := split_at_position found
    simp only [Pool.finish, Pool.setWorker, set] at stepped
    match worker, stepped with
    | .exited, stepped => nomatch stepped
    | .idle, stepped =>
      dsimp only at stepped
      split at stepped <;> rename_i next <;> cases stepped
      · exact .act front back (.leave next)
      · exact .act front back (.claim next)
    | .waiting task (barrier :: barriers), stepped =>
      dsimp only at stepped
      split at stepped
      · rename_i closed
        cases stepped
        exact .act front back (.pass closed)
      · nomatch stepped
    | .waiting task [], stepped =>
      dsimp only at stepped
      split at stepped
      · rename_i outcome atOnce
        cases stepped
        exact .act front back (.settle atOnce)
      · rename_i callsOut
        cases stepped
        exact .act front back (.start callsOut)
    | .running task, stepped =>
      cases stepped
      exact .act front back (.finish answer)

lemma runSchedule_cons {move : Nat × A}
    (ran : runSchedule tasks work pool (move :: sched) = some (pool', events)) :
    ∃ middle now later, Moves tasks work pool middle now ∧
      runSchedule tasks work middle sched = some (pool', later) ∧ events = now ++ later := by
  rw [runSchedule] at ran
  split at ran
  · nomatch ran
  · rename_i stepped
    split at ran
    · nomatch ran
    · rename_i rest
      cases ran
      exact ⟨_, _, _, moves_of_step stepped, rest, rfl⟩

lemma runSchedule_induction {holds : Pool R → List (Event R) → Prop}
    (each : ∀ pool pool' before events, Moves tasks work pool pool' events → holds pool before →
      holds pool' (before ++ events))
    (ran : runSchedule tasks work pool sched = some (pool', events))
    (first : holds pool before) : holds pool' (before ++ events) := by
  induction sched generalizing pool before events with
  | nil =>
    cases ran
    rwa [append_nil]
  | cons move sched ih =>
    obtain ⟨middle, now, later, moves, rest, rfl⟩ := runSchedule_cons ran
    rw [← append_assoc]
    exact ih rest (each _ _ _ _ moves first)

/-! ### Every run ends -/

def Worker.weight : Worker → Nat
  | .idle => 1
  | .waiting _ barriers => barriers.length + 3
  | .running _ => 2
  | .exited => 0

def Pool.weight (tasks : List SolutionTask) (pool : Pool R) : Nat :=
  ((tasks.drop pool.next).map fun task => task.barriers.length + 4).sum +
    (pool.workers.map Worker.weight).sum

lemma weight_of_moves (moves : Moves tasks work pool pool' events) :
    pool'.weight tasks < pool.weight tasks := by
  obtain ⟨front, back, acts⟩ := moves
  simp only [Pool.weight, map_append, map_cons, sum_append, sum_cons]
  cases acts with
  | claim next =>
    obtain ⟨inside, same⟩ := List.getElem?_eq_some_iff.mp next
    simp only [drop_eq_getElem_cons inside, same, map_cons, sum_cons, Worker.weight]
    omega
  | leave next =>
    have outside := List.getElem?_eq_none_iff.mp next
    simp only [drop_eq_nil_of_le outside,
      drop_eq_nil_of_le (Nat.le_succ_of_le outside), Worker.weight]
    omega
  | _ =>
    simp only [Worker.weight, length_cons, length_nil]
    omega

lemma length_le_weight (ran : runSchedule tasks work pool sched = some (pool', events)) :
    sched.length + pool'.weight tasks ≤ pool.weight tasks := by
  induction sched generalizing pool events with
  | nil =>
    cases ran
    simp
  | cons move sched ih =>
    obtain ⟨middle, now, later, moves, rest, rfl⟩ := runSchedule_cons ran
    have shorter := ih rest
    have lighter := weight_of_moves moves
    rw [length_cons]
    omega

/-! ### What holds in every run -/

/-- No task waits for itself or for a later one, and the outcome a task has at once depends on
its predecessors only. -/
structure WellOrdered (tasks : List SolutionTask) (work : Work R A) : Prop where
  index : ∀ (position : Nat) (task : SolutionTask), tasks[position]? = some task →
    task.index = position
  earlier : ∀ task ∈ tasks, ∀ barrier ∈ task.barriers, barrier < task.index
  reads : ∀ task ∈ tasks, ∀ outs outs' : Nat → Option R,
    (∀ predecessor ∈ task.predecessors, outs predecessor = outs' predecessor) →
      work.immediate task.index outs = work.immediate task.index outs'

variable {task : SolutionTask}

lemma WellOrdered.index_lt (ordered : WellOrdered tasks work)
    (mem : task ∈ tasks) : task.index < tasks.length := by
  obtain ⟨pos, found⟩ := mem_iff_getElem?.mp mem
  rw [ordered.index pos task found]
  exact (List.getElem?_eq_some_iff.mp found).1

def Worker.task? : Worker → Option SolutionTask
  | .idle => none
  | .waiting task _ => some task
  | .running task => some task
  | .exited => none

def held (workers : List Worker) : List Nat := workers.filterMap fun worker =>
  worker.task?.map SolutionTask.index

@[simp] lemma held_append (front back : List Worker) :
    held (front ++ back) = held front ++ held back := filterMap_append

@[simp] lemma held_idle (workers : List Worker) : held (.idle :: workers) = held workers := rfl

@[simp] lemma held_exited (workers : List Worker) :
    held (.exited :: workers) = held workers := rfl

@[simp] lemma held_waiting (task : SolutionTask) (barriers : List Nat) (workers : List Worker) :
    held (.waiting task barriers :: workers) = task.index :: held workers := rfl

def Worker.left : Worker → List Nat
  | .waiting _ barriers => barriers
  | _ => []

def Work.Gives (work : Work R A) (outs : Nat → Option R) (index : Nat) (outcome : R) : Prop :=
  work.immediate index outs = some outcome ∨
    work.immediate index outs = none ∧ ∃ answer, outcome = work.answered index answer

/-- A task that a worker has claimed is not finished, and the worker has passed the barriers it does
not wait for. -/
structure Claim (tasks : List SolutionTask) (work : Work R A) (next : Nat)
    (outs : Nat → Option R) (worker : Worker) (task : SolutionTask) : Prop where
  listed : task ∈ tasks
  below : task.index < next
  isOpen : outs task.index = none
  waits : worker.left ⊆ task.barriers
  passed : ∀ barrier ∈ task.barriers, barrier ∈ worker.left ∨ (outs barrier).isSome
  running : worker = .running task → work.immediate task.index outs = none

/-- The claimed tasks are those below the counter: each is held by one worker or is finished, and
what is finished was finished behind closed barriers. -/
structure Claimed (tasks : List SolutionTask) (work : Work R A) (pool : Pool R) : Prop where
  claims : ∀ worker ∈ pool.workers, ∀ task, worker.task? = some task →
    Claim tasks work pool.next pool.outcomes worker task
  distinct : (held pool.workers).Nodup
  covered : ∀ index < pool.next, index < tasks.length →
    (pool.outcomes index).isSome ∨ index ∈ held pool.workers
  unclaimed : ∀ index, pool.next ≤ index → pool.outcomes index = none
  exhausted : .exited ∈ pool.workers → tasks.length ≤ pool.next
  settled : ∀ index outcome, pool.outcomes index = some outcome →
    ∃ task ∈ tasks, task.index = index ∧
      (∀ barrier ∈ task.barriers, (pool.outcomes barrier).isSome) ∧
      work.Gives pool.outcomes index outcome

lemma Claimed.start (tasks : List SolutionTask) (work : Work R A) (builders : Int) :
    Claimed tasks work (startPool builders) := by
  have idle : ∀ count, held (List.replicate count .idle) = [] := by
    intro count
    induction count with
    | zero => rfl
    | succ count ih => exact ih
  constructor <;> simp [startPool, idle, Worker.task?]

lemma held_cons_of_task (holds : worker.task? = some task)
    (workers : List Worker) : held (worker :: workers) = task.index :: held workers := by
  rw [held, filterMap_cons, holds]
  rfl

lemma mem_change {front back : List Worker} {worker' other : Worker}
    (mem : other ∈ front ++ worker' :: back) :
    other = worker' ∨ (other ∈ front ∨ other ∈ back) ∧ other ∈ front ++ worker :: back := by
  simp only [mem_append, mem_cons] at mem ⊢
  tauto

/-- A task behind closed barriers does not depend on a barrier that is still open. -/
theorem WellOrdered.immediate_update (ordered : WellOrdered tasks work) {outs : Nat → Option R}
    (isOpen : outs idx = none) (outcome : R) (mem : task ∈ tasks)
    (closed : ∀ barrier ∈ task.barriers, (outs barrier).isSome) :
    work.immediate task.index (update outs idx (some outcome)) =
      work.immediate task.index outs := by
  apply ordered.reads task mem
  intro pred isPredecessor
  apply update_of_ne
  rintro rfl
  have isSome := closed pred (mem_append_left _ isPredecessor)
  rw [isOpen] at isSome
  nomatch isSome

lemma isSome_update {outs : Nat → Option R} {barrier : Nat}
    (closed : (outs barrier).isSome) (idx : Nat) (outcome : R) :
    (update outs idx (some outcome) barrier).isSome := by
  by_cases same : barrier = idx
  · rw [same, update_self]
    rfl
  · rwa [update_of_ne same]

section Claimed

variable {next next' : Nat} {front back : List Worker} {outs : Nat → Option R}
  {task : SolutionTask} {worker worker' : Worker}

lemma Claim.mono (claim : Claim tasks work next outs worker task) (le : next ≤ next') :
    Claim tasks work next' outs worker task :=
  { claim with below := Nat.lt_of_lt_of_le claim.below le }

lemma Claim.closed (claim : Claim tasks work next outs worker task)
    (none' : worker.left = []) : ∀ barrier ∈ task.barriers, (outs barrier).isSome :=
  fun barrier mem => (claim.passed barrier mem).resolve_left (by simp [none'])

lemma Claim.update (ordered : WellOrdered tasks work)
    (claim : Claim tasks work next outs worker task) (different : task.index ≠ idx)
    (isOpen : outs idx = none) (outcome : R) :
    Claim tasks work next (update outs idx (some outcome)) worker task where
  listed := claim.listed
  below := claim.below
  isOpen := by rw [update_of_ne different, claim.isOpen]
  waits := claim.waits
  passed barrier mem := (claim.passed barrier mem).imp_right fun isSome => isSome_update isSome _ _
  running isRunning := by
    subst isRunning
    rw [ordered.immediate_update isOpen outcome claim.listed (claim.closed rfl)]
    exact claim.running rfl

variable (claimed : Claimed tasks work ⟨next, front ++ worker :: back, outs⟩)
include claimed

lemma Claimed.claim (holds : worker.task? = some task) : Claim tasks work next outs worker task :=
  claimed.claims worker (by simp) task holds

lemma Claimed.alone (holds : worker.task? = some task) {other : Worker}
    (mem : other ∈ front ∨ other ∈ back)
    {task' : SolutionTask} (holds' : other.task? = some task') : task'.index ≠ task.index := by
  have distinct := claimed.distinct
  simp only [held_append, held_cons_of_task holds, nodup_middle, nodup_cons, mem_append] at distinct
  intro same
  have isHeld : ∀ workers : List Worker, other ∈ workers → task.index ∈ held workers := by
    intro workers inside
    exact mem_filterMap.mpr ⟨other, inside, by rw [holds', ← same]; rfl⟩
  exact distinct.1 (mem.imp (isHeld front) (isHeld back))

lemma Claimed.change (le : next ≤ next')
    (claims : ∀ task, worker'.task? = some task → Claim tasks work next' outs worker' task)
    (distinct : (held (front ++ worker' :: back)).Nodup)
    (covered : ∀ index < next', index < tasks.length →
      (outs index).isSome ∨ index ∈ held (front ++ worker' :: back))
    (exhausted : worker' = .exited → tasks.length ≤ next') :
    Claimed tasks work ⟨next', front ++ worker' :: back, outs⟩ := by
  refine ⟨fun other mem task holds => ?_, distinct, covered,
    fun idx large => claimed.unclaimed idx (Nat.le_trans le large), fun mem => ?_, claimed.settled⟩
  · obtain rfl | ⟨-, mem⟩ := mem_change mem
    · exact claims task holds
    · exact (claimed.claims other mem task holds).mono le
  · obtain same | ⟨-, mem⟩ := mem_change mem
    · exact exhausted same.symm
    · exact Nat.le_trans (claimed.exhausted mem) le

lemma Claimed.goOn (holds : worker.task? = some task) (holds' : worker'.task? = some task)
    (claim : Claim tasks work next outs worker' task) :
    Claimed tasks work ⟨next, front ++ worker' :: back, outs⟩ := by
  have same : held (front ++ worker' :: back) = held (front ++ worker :: back) := by
    rw [held_append, held_append, held_cons_of_task holds, held_cons_of_task holds']
  refine claimed.change (Nat.le_refl _) (fun other holdsOther => ?_) (same ▸ claimed.distinct)
    (same ▸ claimed.covered) ?_
  · cases holds'.symm.trans holdsOther
    exact claim
  · rintro rfl
    nomatch holds'

omit claimed

lemma Claimed.letGo (ordered : WellOrdered tasks work)
    (claimed : Claimed tasks work ⟨next, front ++ worker :: back, outs⟩)
    (holds : worker.task? = some task) (none' : worker.left = []) {outcome : R}
    (gives : work.Gives outs task.index outcome) :
    Claimed tasks work
      ⟨next, front ++ .idle :: back, update outs task.index (some outcome)⟩ := by
  have claim := claimed.claim holds
  have closed := claim.closed none'
  have distinct := claimed.distinct
  simp only [held_append, held_cons_of_task holds, nodup_middle, nodup_cons] at distinct
  constructor <;> dsimp only
  · intro other mem task' holdsOther
    obtain rfl | ⟨elsewhere, mem⟩ := mem_change mem
    · nomatch holdsOther
    · exact (claimed.claims other mem task' holdsOther).update ordered
        (claimed.alone holds elsewhere holdsOther) claim.isOpen outcome
  · simpa using distinct.2
  · intro idx small inside
    by_cases same : idx = task.index
    · exact .inl (by rw [same, update_self]; rfl)
    · rw [update_of_ne same]
      have either := claimed.covered idx small inside
      simpa [held_cons_of_task holds, same] using either
  · intro idx large
    rw [update_of_ne (Nat.ne_of_gt (Nat.lt_of_lt_of_le claim.below large))]
    exact claimed.unclaimed idx large
  · intro mem
    obtain impossible | ⟨-, mem⟩ := mem_change mem
    · nomatch impossible
    · exact claimed.exhausted mem
  · intro idx outcome' found
    by_cases same : idx = task.index
    · subst same
      rw [update_self] at found
      cases found
      refine ⟨task, claim.listed, rfl,
        fun barrier mem => isSome_update (closed barrier mem) _ _, ?_⟩
      rw [Work.Gives, ordered.immediate_update claim.isOpen outcome claim.listed closed]
      exact gives
    · rw [update_of_ne same] at found
      obtain ⟨other, listed, rfl, passed, gave⟩ := claimed.settled idx outcome' found
      refine ⟨other, listed, rfl, fun barrier mem => isSome_update (passed barrier mem) _ _, ?_⟩
      rw [Work.Gives, ordered.immediate_update claim.isOpen outcome listed passed]
      exact gave

end Claimed

lemma Claimed.moves (ordered : WellOrdered tasks work) (moves : Moves tasks work pool pool' events)
    (claimed : Claimed tasks work pool) : Claimed tasks work pool' := by
  obtain ⟨front, back, acts⟩ := moves
  cases acts with
  | @claim task found =>
    obtain rfl : task.index = _ := ordered.index _ _ found
    have fresh : task.index ∉ held (front ++ .idle :: back) := fun mem => by
      obtain ⟨other, inside, index⟩ := mem_filterMap.mp mem
      obtain ⟨task', holds, same⟩ := Option.map_eq_some_iff.mp index
      exact absurd (claimed.claims other inside task' holds).below (by simp [same])
    refine claimed.change (Nat.le_succ _) ?_ ?_ (fun idx small inside => ?_) nofun
    · rintro _ ⟨⟩
      exact ⟨mem_of_getElem? found, Nat.lt_succ_self _, claimed.unclaimed _ (Nat.le_refl _),
        List.Subset.refl _, fun _ mem => .inl mem, nofun⟩
    · have distinct := claimed.distinct
      simp only [held_append, held_idle, held_waiting, nodup_middle, nodup_cons] at *
      exact ⟨fresh, distinct⟩
    · have before := claimed.covered idx
      simp only [held_append, held_idle, held_waiting, mem_append, mem_cons] at before ⊢
      grind
  | leave found =>
    have outside := List.getElem?_eq_none_iff.mp found
    exact claimed.change (Nat.le_succ _) nofun (by simpa using claimed.distinct)
      (fun idx small inside => by
        simpa using claimed.covered idx (Nat.lt_of_lt_of_le inside outside) inside)
      fun _ => Nat.le_succ_of_le outside
  | pass closed =>
    have claim := claimed.claim rfl
    refine claimed.goOn rfl rfl
      { claim with
        waits := fun _ mem => claim.waits (mem_cons_of_mem _ mem)
        passed := fun other mem => ?_
        running := nofun }
    obtain left | isSome := claim.passed other mem
    · obtain rfl | left := mem_cons.mp left
      · exact .inr closed
      · exact .inl left
    · exact .inr isSome
  | settle atOnce => exact claimed.letGo ordered rfl rfl (.inl atOnce)
  | start callsOut =>
    have claim := claimed.claim rfl
    exact claimed.goOn rfl rfl { claim with running := fun _ => callsOut }
  | finish answer =>
    exact claimed.letGo ordered rfl rfl (.inr ⟨(claimed.claim rfl).running rfl, answer, rfl⟩)

def starts (events : List (Event R)) : List Nat := events.filterMap fun
  | .started index => some index
  | .finished _ _ => none

@[simp] lemma starts_append (events later : List (Event R)) :
    starts (events ++ later) = starts events ++ starts later := filterMap_append

@[simp] lemma starts_nil : starts ([] : List (Event R)) = [] := rfl

@[simp] lemma starts_started (idx : Nat) : starts [(.started idx : Event R)] = [idx] := rfl

@[simp] lemma starts_finished (idx : Nat) (outcome : R) :
    starts [.finished idx outcome] = [] := rfl

lemma mem_starts : idx ∈ starts events ↔ .started idx ∈ events := by
  rw [starts, mem_filterMap]
  constructor
  · rintro ⟨event, mem, found⟩
    cases event with
    | started other =>
      cases found
      exact mem
    | finished other outcome => nomatch found
  · exact fun mem => ⟨_, mem, rfl⟩

def Event.index : Event R → Nat
  | .started index => index
  | .finished index _ => index

/-- Every task calls out and ends behind the end of the tasks it waits for. -/
def Behind (tasks : List SolutionTask) (events : List (Event R)) : Prop :=
  ∀ front event back, events = front ++ event :: back → ∃ task ∈ tasks, task.index = event.index ∧
      ∀ barrier ∈ task.barriers, ∃ outcome, .finished barrier outcome ∈ front

lemma Behind.concat {event : Event R} (behind : Behind tasks events)
    (mem : task ∈ tasks) (same : task.index = event.index)
    (closed : ∀ barrier ∈ task.barriers, ∃ outcome, .finished barrier outcome ∈ events) :
    Behind tasks (events ++ [event]) := by
  intro front other back split
  rcases eq_nil_or_concat back with rfl | ⟨back, last, rfl⟩
  · obtain ⟨rfl, isLast⟩ := append_inj' split rfl
    obtain rfl := singleton_inj.mp isLast
    exact ⟨task, mem, same, closed⟩
  · have shorter : events ++ [event] = (front ++ other :: back) ++ [last] := by simpa using split
    exact behind front other back (append_inj' shorter rfl).1

structure Logged (tasks : List SolutionTask) (work : Work R A) (pool : Pool R)
    (events : List (Event R)) : Prop where
  finished : ∀ index outcome, .finished index outcome ∈ events ↔ pool.outcomes index = some outcome
  once : (starts events).Nodup
  started : ∀ index, index ∈ starts events ↔
    (∃ task, .running task ∈ pool.workers ∧ task.index = index) ∨
      (pool.outcomes index).isSome ∧ work.immediate index pool.outcomes = none
  behind : Behind tasks events

lemma Logged.start (tasks : List SolutionTask) (work : Work R A) (builders : Int) :
    Logged tasks work (startPool builders) [] := by
  constructor <;> simp [startPool, Behind]

section Logged

variable {next : Nat} {front back : List Worker} {outs : Nat → Option R}
  {task : SolutionTask} {worker worker' : Worker}

lemma Claimed.running_alone (claimed : Claimed tasks work ⟨next, front ++ worker :: back, outs⟩)
    (holds : worker.task? = some task) {other : SolutionTask}
    (mem : .running other ∈ front ++ worker' :: back) (shared : other.index = task.index) :
    .running other = worker' := by
  rw [mem_append, mem_cons] at mem
  obtain inFront | same | inBack := mem
  · exact absurd shared (claimed.alone holds (.inl inFront) rfl)
  · exact same
  · exact absurd shared (claimed.alone holds (.inr inBack) rfl)

lemma Logged.behind_concat (logged : Logged tasks work pool events)
    (claim : Claim tasks work next pool.outcomes worker task) (none' : worker.left = [])
    {event : Event R} (same : task.index = event.index) :
    Behind tasks (events ++ [event]) := by
  refine logged.behind.concat claim.listed same fun barrier mem => ?_
  obtain ⟨outcome, found⟩ := Option.isSome_iff_exists.mp (claim.closed none' barrier mem)
  exact ⟨outcome, (logged.finished barrier outcome).mpr found⟩

lemma Logged.change (next' : Nat)
    (logged : Logged tasks work ⟨next, front ++ worker :: back, outs⟩ events)
    (quiet : ∀ task, worker ≠ .running task) (quiet' : ∀ task, worker' ≠ .running task) :
    Logged tasks work ⟨next', front ++ worker' :: back, outs⟩ (events ++ []) := by
  rw [append_nil]
  refine ⟨logged.finished, logged.once, fun idx => ?_, logged.behind⟩
  rw [logged.started idx]
  simp only [mem_append, mem_cons, (quiet _).symm, (quiet' _).symm, false_or]

/-- A task that is finished counts as started when it had to call out. -/
theorem Logged.letGo (ordered : WellOrdered tasks work)
    (claimed : Claimed tasks work ⟨next, front ++ worker :: back, outs⟩)
    (logged : Logged tasks work ⟨next, front ++ worker :: back, outs⟩ events)
    (holds : worker.task? = some task) (none' : worker.left = []) (outcome : R)
    (calls : work.immediate task.index outs = none ↔ worker = .running task) :
    Logged tasks work ⟨next, front ++ .idle :: back, update outs task.index (some outcome)⟩
      (events ++ [.finished task.index outcome]) := by
  have claim := claimed.claim holds
  refine ⟨fun idx outcome' => ?_, by simpa using logged.once, fun idx => ?_,
    logged.behind_concat claim none' rfl⟩
  · rw [mem_append, mem_singleton, logged.finished]
    dsimp only
    by_cases same : idx = task.index
    · subst same
      rw [claim.isOpen, update_self, Option.some.injEq, Event.finished.injEq]
      simp [eq_comm]
    · rw [update_of_ne same, Event.finished.injEq]
      simp [same]
  · rw [starts_append, starts_finished, append_nil, logged.started idx]
    dsimp only
    by_cases same : idx = task.index
    · subst same
      rw [update_self, ordered.immediate_update claim.isOpen outcome claim.listed
        (claim.closed none'), claim.isOpen, calls]
      constructor
      · rintro (⟨other, mem, shared⟩ | ⟨impossible, _⟩)
        · obtain rfl := claimed.running_alone holds mem shared
          cases holds
          exact .inr ⟨rfl, rfl⟩
        · nomatch impossible
      · rintro (⟨other, mem, shared⟩ | ⟨_, rfl⟩)
        · nomatch claimed.running_alone holds mem shared
        · exact .inl ⟨task, by simp, rfl⟩
    · rw [update_of_ne same]
      refine or_congr (exists_congr fun other => and_congr_left fun shared => ?_)
        (and_congr_right fun isSome => ?_)
      · have notHere : .running other ≠ worker := by
          rintro rfl
          cases holds
          exact same shared.symm
        simp [notHere]
      · obtain ⟨outcome', found⟩ := Option.isSome_iff_exists.mp isSome
        obtain ⟨other, inTasks, rfl, passed, _⟩ := claimed.settled idx outcome' found
        rw [ordered.immediate_update claim.isOpen outcome inTasks passed]

end Logged

lemma Logged.moves (ordered : WellOrdered tasks work) (moves : Moves tasks work pool pool' events)
    (claimed : Claimed tasks work pool) (logged : Logged tasks work pool before) :
    Logged tasks work pool' (before ++ events) := by
  obtain ⟨front, back, acts⟩ := moves
  cases acts with
  | claim => exact logged.change _ nofun nofun
  | leave => exact logged.change _ nofun nofun
  | pass => exact logged.change _ nofun nofun
  | settle atOnce => exact logged.letGo ordered claimed rfl rfl _ (by simp [atOnce])
  | @start task callsOut =>
    have holds : (Worker.waiting task []).task? = some task := rfl
    have claim := claimed.claim holds
    have fresh : task.index ∉ starts before := by
      rw [logged.started]
      rintro (⟨other, mem, shared⟩ | ⟨isSome, _⟩)
      · nomatch claimed.running_alone holds mem shared
      · dsimp only at isSome
        rw [claim.isOpen] at isSome
        nomatch isSome
    refine ⟨fun idx outcome => ?_, ?_, fun idx => ?_, logged.behind_concat claim rfl rfl⟩
    · rw [mem_append, mem_singleton, logged.finished]
      simp
    · rw [starts_append, starts_started, nodup_append]
      refine ⟨logged.once, by simp, fun idx mem last isLast same => fresh ?_⟩
      rw [mem_singleton] at isLast
      rwa [← isLast, ← same]
    · rw [starts_append, starts_started, mem_append, mem_singleton, logged.started]
      simp only [mem_append, mem_cons, Worker.running.injEq, reduceCtorEq, false_or]
      constructor
      · rintro ((⟨other, mem, shared⟩ | finished) | rfl)
        · exact .inl ⟨other, by tauto, shared⟩
        · exact .inr finished
        · exact .inl ⟨task, by simp, rfl⟩
      · rintro (⟨other, mem | rfl | mem, shared⟩ | finished)
        · exact .inl (.inl ⟨other, .inl mem, shared⟩)
        · exact .inr shared.symm
        · exact .inl (.inl ⟨other, .inr mem, shared⟩)
        · exact .inl (.inr finished)
  | finish answer =>
    have callsOut := (claimed.claim rfl).running rfl
    exact logged.letGo ordered claimed rfl rfl _ (by simpa using callsOut)

structure Invariant (tasks : List SolutionTask) (work : Work R A) (pool : Pool R)
    (events : List (Event R)) : Prop where
  staffed : pool.workers ≠ []
  claimed : Claimed tasks work pool
  logged : Logged tasks work pool events

lemma workerCount_pos (builders : Int) : 0 < workerCount builders := by
  rw [workerCount]
  split <;> omega

lemma Invariant.start (tasks : List SolutionTask) (work : Work R A) (builders : Int) :
    Invariant tasks work (startPool builders) [] := by
  refine ⟨?_, Claimed.start tasks work builders, Logged.start tasks work builders⟩
  have positive := workerCount_pos builders
  simp only [startPool, ne_eq, replicate_eq_nil_iff]
  omega

lemma Invariant.moves (ordered : WellOrdered tasks work)
    (moves : Moves tasks work pool pool' events) (inv : Invariant tasks work pool before) :
    Invariant tasks work pool' (before ++ events) :=
  { staffed := by cases moves; simp
    claimed := inv.claimed.moves ordered moves
    logged := inv.logged.moves ordered moves inv.claimed }

lemma runSchedule_invariant (ordered : WellOrdered tasks work) {builders : Int}
    (ran : runSchedule tasks work (startPool builders) sched = some (pool, events)) :
    Invariant tasks work pool events :=
  runSchedule_induction (fun _ _ _ _ moves held => held.moves ordered moves) ran
    (Invariant.start tasks work builders)

/-! ### Every run can go on until the workers return -/

lemma step_of_worker (mem : worker ∈ pool.workers) (answer : A) (running : worker ≠ .exited)
    (closed : ∀ task barrier barriers, worker = .waiting task (barrier :: barriers) →
      (pool.outcomes barrier).isSome) :
    ∃ pos pool' events, step tasks work pool pos answer = some (pool', events) := by
  obtain ⟨pos, found⟩ := mem_iff_getElem?.mp mem
  refine ⟨pos, ?_⟩
  rw [step, found]
  match worker, running, closed with
  | .idle, _, _ =>
    dsimp only
    split
    · exact ⟨_, _, rfl⟩
    · exact ⟨_, _, rfl⟩
  | .waiting task [], _, _ =>
    dsimp only
    split
    · exact ⟨_, _, rfl⟩
    · exact ⟨_, _, rfl⟩
  | .waiting task (barrier :: barriers), _, closed =>
    dsimp only
    rw [if_pos (closed task barrier barriers rfl)]
    exact ⟨_, _, rfl⟩
  | .running task, _, _ => exact ⟨_, _, rfl⟩

lemma step_of_held (ordered : WellOrdered tasks work) (inv : Invariant tasks work pool events)
    (answer : A) (idx : Nat) (isHeld : idx ∈ held pool.workers) :
    ∃ pos pool' events, step tasks work pool pos answer = some (pool', events) := by
  induction idx using Nat.strongRecOn with
  | ind idx ih =>
    obtain ⟨worker, mem, found⟩ := mem_filterMap.mp isHeld
    obtain ⟨task, holds, rfl⟩ := Option.map_eq_some_iff.mp found
    by_cases closed : ∀ task barrier barriers, worker = .waiting task (barrier :: barriers) →
        (pool.outcomes barrier).isSome
    · exact step_of_worker mem answer (by rintro rfl; nomatch holds) closed
    · simp only [not_forall] at closed
      obtain ⟨task', barrier, barriers, rfl, isOpen⟩ := closed
      cases holds
      have claim := inv.claimed.claims _ mem task rfl
      have earlier := ordered.earlier task claim.listed barrier (claim.waits (.head _))
      have below := claim.below
      have inside : task.index < tasks.length := ordered.index_lt claim.listed
      refine ih barrier earlier ?_
      exact (inv.claimed.covered barrier (by omega) (by omega)).resolve_left isOpen

lemma step_of_not_returned (ordered : WellOrdered tasks work)
    (inv : Invariant tasks work pool events) (answer : A) (unfinished : ¬ pool.Returned) :
    ∃ pos pool' events, step tasks work pool pos answer = some (pool', events) := by
  simp only [Pool.Returned, not_forall] at unfinished
  obtain ⟨worker, mem, running⟩ := unfinished
  cases holds : worker.task? with
  | none =>
    refine step_of_worker mem answer running ?_
    rintro task barrier barriers rfl
    nomatch holds
  | some task =>
    refine step_of_held ordered inv answer task.index ?_
    exact mem_filterMap.mpr ⟨worker, mem, by rw [holds]; rfl⟩

lemma Invariant.isSome_of_returned (inv : Invariant tasks work pool events)
    (returned : pool.Returned) (inside : idx < tasks.length) : (pool.outcomes idx).isSome := by
  obtain ⟨worker, mem⟩ := exists_mem_of_ne_nil _ inv.staffed
  have exhausted := inv.claimed.exhausted (returned worker mem ▸ mem)
  refine (inv.claimed.covered idx (by omega) inside).resolve_right fun isHeld => ?_
  obtain ⟨other, isOther, found⟩ := mem_filterMap.mp isHeld
  rw [returned other isOther] at found
  nomatch found

def Work.replying (work : Work R A) (reply : Nat → A) : Work R A :=
  { work with answered := fun index _ => work.answered index (reply index) }

lemma step_of_replying {reply : Nat → A} {answer : A} {res : Pool R × List (Event R)}
    (stepped : step tasks (work.replying reply) pool pos answer = some res) :
    ∃ answer', step tasks work pool pos answer' = some res := by
  rw [step] at stepped
  cases found : pool.workers[pos]? with
  | none =>
    rw [found] at stepped
    nomatch stepped
  | some worker =>
    rw [found] at stepped
    match worker, found, stepped with
    | .running task, found, stepped =>
      exact ⟨reply task.index, by rw [step, found]; exact stepped⟩
    | .idle, found, stepped => exact ⟨answer, by rw [step, found]; exact stepped⟩
    | .waiting task [], found, stepped => exact ⟨answer, by rw [step, found]; exact stepped⟩
    | .waiting task (barrier :: barriers), found, stepped =>
      exact ⟨answer, by rw [step, found]; exact stepped⟩

lemma exists_runSchedule (ordered : WellOrdered tasks work) (reply : Nat → A)
    (inv : Invariant tasks (work.replying reply) pool before) :
    ∃ sched pool' events, runSchedule tasks work pool sched = some (pool', events) ∧
      pool'.Returned ∧ Invariant tasks (work.replying reply) pool' (before ++ events) := by
  have ordered' : WellOrdered tasks (work.replying reply) :=
    ⟨ordered.index, ordered.earlier, ordered.reads⟩
  induction measured : pool.weight tasks using Nat.strongRecOn generalizing pool before with
  | ind weight ih =>
    by_cases returned : pool.Returned
    · exact ⟨[], pool, [], rfl, returned, by rwa [append_nil]⟩
    · obtain ⟨pos, pool', events, stepped⟩ := step_of_not_returned ordered' inv (reply 0) returned
      have moves := moves_of_step stepped
      obtain ⟨answer, stepped'⟩ := step_of_replying stepped
      obtain ⟨sched, last, later, ran, done, held⟩ := ih _
        (measured ▸ weight_of_moves moves) (inv.moves ordered' moves) rfl
      refine ⟨(pos, answer) :: sched, last, events ++ later, ?_, done, ?_⟩
      · rw [runSchedule, stepped']
        simp only [ran]
      · rwa [← append_assoc]

end Rotor.Solution
