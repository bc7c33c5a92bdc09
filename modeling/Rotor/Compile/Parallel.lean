import Mathlib.Algebra.GroupWithZero.Nat
import Mathlib.Algebra.Order.BigOperators.Group.List
import Mathlib.Algebra.Order.Group.Nat
import Mathlib.Data.List.Nodup

/-!
Parallel writing (`internal/compile/parallelwrite.go`).

Workers take the jobs from an unbuffered channel, so that a send and its receive are one step. What
is done under the lock is one step. How a job ends is up to the job.
-/

namespace Rotor.Compile.Parallel

open List Function

inductive Worker (E : Type) where
  /-- At `range ch`. -/
  | receiving
  | checking (job : Nat)
  | calling (job : Nat)
  | recording (job : Nat) (err : E)
  | done

inductive Main (E : Type) where
  /-- The loop without workers. -/
  | looping (next : Nat)
  | sending (next : Nat)
  | waiting
  | returned (result : Option E)

structure Pool (E : Type) where
  main : Main E
  workers : List (Worker E)
  first : Option E := none
  /-- The jobs that have been run, and how they ended. -/
  ran : List (Nat × Option E) := []
  skipped : List Nat := []

variable {E : Type}

def Pool.become (pool : Pool E) (worker : Nat) (state : Worker E) : Pool E :=
  { pool with workers := pool.workers.set worker state }

def writeConcurrencyCap : Int := 256

def writeSyncCutoff : Nat := 16

def parallelize (n : Int) (jobs : Nat) : Pool E :=
  let n := if n > writeConcurrencyCap then writeConcurrencyCap else n
  if n ≤ 1 ∨ jobs < writeSyncCutoff then { main := .looping 0, workers := [] }
  else { main := .sending 0, workers := List.replicate n.toNat .receiving }

inductive Step (jobs : Nat) (pool : Pool E) : Pool E → Prop where
  | call {next : Nat} (main : pool.main = .looping next) (more : next < jobs) : Step jobs pool
        { pool with main := .looping (next + 1), ran := pool.ran ++ [(next, none)] }
  | callFails {next : Nat} (main : pool.main = .looping next) (more : next < jobs) (err : E) :
      Step jobs pool
        { pool with main := .returned (some err), ran := pool.ran ++ [(next, some err)] }
  | leave (main : pool.main = .looping jobs) : Step jobs pool { pool with main := .returned none }
  | send {next worker : Nat} (main : pool.main = .sending next) (more : next < jobs)
      (found : pool.workers[worker]? = some .receiving) :
      Step jobs pool { pool.become worker (.checking next) with main := .sending (next + 1) }
  | skip {worker job : Nat} (found : pool.workers[worker]? = some (.checking job))
      (failed : pool.first ≠ none) :
      Step jobs pool { pool.become worker .receiving with skipped := pool.skipped ++ [job] }
  | start {worker job : Nat} (found : pool.workers[worker]? = some (.checking job))
      (clean : pool.first = none) : Step jobs pool (pool.become worker (.calling job))
  | succeed {worker job : Nat} (found : pool.workers[worker]? = some (.calling job)) :
      Step jobs pool { pool.become worker .receiving with ran := pool.ran ++ [(job, none)] }
  | fail {worker job : Nat} (found : pool.workers[worker]? = some (.calling job)) (err : E) :
      Step jobs pool (pool.become worker (.recording job err))
  | record {worker job : Nat} {err : E}
      (found : pool.workers[worker]? = some (.recording job err)) :
      Step jobs pool { pool.become worker .receiving with
        first := some (pool.first.getD err), ran := pool.ran ++ [(job, some err)] }
  | stop {worker : Nat} (main : pool.main = .waiting)
      (found : pool.workers[worker]? = some .receiving) : Step jobs pool (pool.become worker .done)
  | close (main : pool.main = .sending jobs) : Step jobs pool { pool with main := .waiting }
  | wait (main : pool.main = .waiting) (stopped : ∀ worker ∈ pool.workers, worker = .done) :
      Step jobs pool { pool with main := .returned pool.first }

inductive Run (jobs : Nat) (pool : Pool E) : Nat → Pool E → Prop where
  | none : Run jobs pool 0 pool
  | more {steps : Nat} {middle last : Pool E} (run : Run jobs pool steps middle)
      (step : Step jobs middle last) : Run jobs pool (steps + 1) last

/-! ### What the workers hold -/

namespace Worker

def holds (job : Nat) : Worker E → Nat
  | .checking other | .calling other | .recording other _ => if other = job then 1 else 0
  | _ => 0

def runs (job : Nat) : Worker E → Nat
  | .calling other | .recording other _ => if other = job then 1 else 0
  | _ => 0

def weight : Worker E → Nat
  | .receiving => 1
  | .checking _ => 4
  | .calling _ => 3
  | .recording .. => 2
  | .done => 0

end Worker

def total (measure : Worker E → Nat) (workers : List (Worker E)) : Nat := (workers.map measure).sum

variable (measure : Worker E → Nat) {workers : List (Worker E)} {state : Worker E}

lemma total_set {worker : Nat} (found : workers[worker]? = some state) (next : Worker E) :
    total measure (workers.set worker next) + measure state =
      total measure workers + measure next := by
  induction workers generalizing worker with
  | nil => nomatch found
  | cons other workers ih =>
    cases worker with
    | zero =>
      cases Option.some.inj found
      simp only [total, set_cons_zero, map_cons, sum_cons]
      omega
    | succ worker =>
      have rest := ih found
      simp only [total, set_cons_succ, map_cons, sum_cons] at rest ⊢
      omega

lemma total_eq_zero (none : ∀ worker ∈ workers, measure worker = 0) :
    total measure workers = 0 := by
  refine sum_eq_zero fun amount mem => ?_
  obtain ⟨worker, inside, rfl⟩ := mem_map.mp mem
  exact none worker inside

namespace Pool

variable (pool : Pool E)

def runs (job : Nat) : Nat :=
  total (Worker.runs job) pool.workers + (pool.ran.map Prod.fst).count job

def places (job : Nat) : Nat :=
  total (Worker.holds job) pool.workers + (pool.ran.map Prod.fst).count job + pool.skipped.count job

def rest (jobs : Nat) : Nat :=
  total Worker.weight pool.workers + match pool.main with
    | .looping next => jobs - next + 1
    | .sending next => 4 * (jobs - next) + 2
    | .waiting => 1
    | .returned _ => 0

end Pool

variable {jobs next steps worker : Nat} {pool pool' : Pool E} {state' : Worker E}

section Become

variable (found : pool.workers[worker]? = some state)
  (become : pool'.workers = pool.workers.set worker state')

include found become

lemma rest_become (main : pool'.main = pool.main) (lighter : state'.weight < state.weight) :
    pool'.rest jobs < pool.rest jobs := by
  have moved := total_set Worker.weight found state'
  rw [Pool.rest, Pool.rest, become, main]
  omega

lemma places_become {job amount : Nat}
    (kept : state'.holds job + (pool'.ran.map Prod.fst).count job + pool'.skipped.count job =
      state.holds job + (pool.ran.map Prod.fst).count job + pool.skipped.count job)
    (placed : pool.places job = amount) : pool'.places job = amount := by
  have moved := total_set (Worker.holds job) found state'
  rw [Pool.places] at placed ⊢
  rw [become]
  omega

end Become

lemma Step.rest (step : Step jobs pool pool') : pool'.rest jobs < pool.rest jobs := by
  cases step with
  | skip found => exact rest_become found rfl rfl (by simp [Worker.weight])
  | start found => exact rest_become found rfl rfl (by simp [Worker.weight])
  | succeed found => exact rest_become found rfl rfl (by simp [Worker.weight])
  | fail found err => exact rest_become found rfl rfl (by simp [Worker.weight])
  | record found => exact rest_become found rfl rfl (by simp [Worker.weight])
  | stop main found => exact rest_become found rfl rfl (by simp [Worker.weight])
  | @send next _ main more found =>
    have moved := total_set Worker.weight found (.checking next)
    simp only [Pool.rest, main, Pool.become, Worker.weight] at moved ⊢
    omega
  | call main | callFails main | leave main | close main | wait main =>
    simp only [Pool.rest, main]
    omega

/-! ### Jobs -/

/-- A pool that has been given some jobs: each is in one place, and an error is kept exactly when a
job has failed. -/
structure Serves (next : Nat) (pool : Pool E) : Prop where
  placed : ∀ job, pool.places job = if job < next then 1 else 0
  unskipped : pool.first = none → pool.skipped = []
  failed : ∀ err, pool.first = some err → ∃ job, (job, some err) ∈ pool.ran
  noticed : ∀ job err, (job, some err) ∈ pool.ran → pool.first ≠ none

def Answers (jobs : Nat) (pool : Pool E) (result : Option E) : Prop :=
  (result = none ↔ ∀ job < jobs, (job, none) ∈ pool.ran) ∧
    ∀ err, result = some err → ∃ job < jobs, (job, some err) ∈ pool.ran

lemma Serves.step (serves : Serves next pool) (step : Step jobs pool pool')
    (same : pool'.main = pool.main) : Serves next pool' := by
  obtain ⟨placed, unskipped, failed, noticed⟩ := serves
  cases step with
  | call main | callFails main | leave main | send main | close main | wait main =>
    rw [main] at same
    simp at same
  | start found clean =>
    exact ⟨fun job => places_become found rfl (by rfl) (placed job), unskipped, failed, noticed⟩
  | fail found err =>
    exact ⟨fun job => places_become found rfl (by rfl) (placed job), unskipped, failed, noticed⟩
  | stop main found =>
    exact ⟨fun job => places_become found rfl (by rfl) (placed job), unskipped, failed, noticed⟩
  | skip found isFailed =>
    refine ⟨fun job => places_become found rfl ?_ (placed job), (absurd · isFailed), failed,
      noticed⟩
    simp [Worker.holds, Pool.become, count_cons]
    omega
  | succeed found =>
    refine ⟨fun job => places_become found rfl ?_ (placed job), unskipped,
      fun err first => ?_, fun job err mem => noticed job err (by simpa using mem)⟩
    · simp [Worker.holds, Pool.become, count_cons]
      omega
    · obtain ⟨job, mem⟩ := failed err first
      exact ⟨job, mem_append_left _ mem⟩
  | @record _ job err found =>
    refine ⟨fun job => places_become found rfl ?_ (placed job), nofun, fun other first => ?_,
      fun _ _ _ => nofun⟩
    · simp [Worker.holds, Pool.become, count_cons]
      omega
    · cases earlier : pool.first with
      | none =>
        rw [earlier] at first
        exact ⟨job, Option.some.inj first ▸ mem_append_right _ (.head _)⟩
      | some _ =>
        rw [earlier] at first
        obtain ⟨job, mem⟩ := failed other (earlier.trans first)
        exact ⟨job, mem_append_left _ mem⟩

lemma Serves.send (serves : Serves next pool) (found : pool.workers[worker]? = some .receiving) :
    Serves (next + 1)
      { pool.become worker (.checking next) with main := .sending (next + 1) } := by
  refine ⟨fun job => ?_, serves.unskipped, serves.failed, serves.noticed⟩
  have moved := total_set (Worker.holds job) found (.checking next)
  have before := serves.placed job
  simp only [Pool.places, Pool.become, Worker.holds] at moved before ⊢
  split at before <;> split at moved <;> split <;> omega

lemma Serves.runs (serves : Serves next pool) (job : Nat) : pool.runs job ≤ 1 := by
  have placed := serves.placed job
  have fewer : total (Worker.runs job) pool.workers ≤ total (Worker.holds job) pool.workers := by
    refine sum_le_sum fun worker _ => ?_
    cases worker <;> first | exact Nat.le_refl _ | exact Nat.zero_le _
  rw [Pool.places] at placed
  rw [Pool.runs]
  split at placed <;> omega

lemma Serves.answers (serves : Serves jobs pool)
    (stopped : ∀ worker ∈ pool.workers, worker = .done) : Answers jobs pool pool.first := by
  obtain ⟨placed, unskipped, failed, noticed⟩ := serves
  have noHeld (job : Nat) : total (Worker.holds job) pool.workers = 0 :=
    total_eq_zero _ fun worker mem => by rw [stopped worker mem]; rfl
  simp only [Pool.places, noHeld, Nat.zero_add] at placed
  have once : (pool.ran.map Prod.fst).Nodup := nodup_iff_count_le_one.mpr fun job => by
    have here := placed job
    split at here <;> omega
  have known {job : Nat} {outcome : Option E} (mem : (job, outcome) ∈ pool.ran) : job < jobs := by
    have counted : 0 < (pool.ran.map Prod.fst).count job :=
      count_pos_iff.mpr (mem_map.mpr ⟨_, mem, rfl⟩)
    have here := placed job
    split at here
    · assumption
    · omega
  refine ⟨⟨fun clean job more => ?_, fun all => ?_⟩, fun err first => ?_⟩
  · have here := placed job
    rw [unskipped clean, count_nil, if_pos more] at here
    have counted : 0 < (pool.ran.map Prod.fst).count job := by omega
    obtain ⟨⟨_, outcome⟩, mem, rfl⟩ := mem_map.mp (count_pos_iff.mp counted)
    cases outcome with
    | none => exact mem
    | some err => exact absurd clean (noticed _ err mem)
  · refine Option.eq_none_iff_forall_ne_some.mpr fun err first => ?_
    obtain ⟨job, mem⟩ := failed err first
    cases inj_on_of_nodup_map once mem (all job (known mem)) rfl
  · obtain ⟨job, mem⟩ := failed err first
    exact ⟨job, known mem, mem⟩

def Kept (jobs : Nat) (pool : Pool E) : Prop :=
  match pool.main with
  | .looping next => next ≤ jobs ∧ pool.workers = [] ∧ pool.ran = (List.range next).map (·, none)
  | .sending next => next ≤ jobs ∧ Serves next pool ∧ ∃ worker ∈ pool.workers, worker ≠ .done
  | .waiting => Serves jobs pool
  | .returned result => (∀ worker ∈ pool.workers, worker = .done) ∧ (∀ job, pool.runs job ≤ 1) ∧
    Answers jobs pool result

lemma Kept.work (kept : Kept jobs pool) (step : Step jobs pool pool')
    (found : pool.workers[worker]? = some state) (running : state ≠ .done)
    (same : pool'.main = pool.main) (workers : pool'.workers = pool.workers.set worker state')
    (active : state' ≠ .done ∨ pool.main = .waiting) : Kept jobs pool' := by
  rw [Kept] at kept ⊢
  rw [same]
  split at kept
  · rw [kept.2.1] at found
    nomatch found
  · next main =>
    refine ⟨kept.1, kept.2.1.step step same, state', ?_, active.resolve_right (by simp [main])⟩
    rw [workers]
    exact mem_set (List.getElem?_eq_some_iff.mp found).1 _
  · exact kept.step step same
  · exact absurd (kept.1 state (mem_of_getElem? found)) running

lemma runs_loop (next : Nat) (none : pool.workers = [])
    (ran : pool.ran.map Prod.fst = List.range next) (job : Nat) : pool.runs job ≤ 1 := by
  rw [Pool.runs, ran, none]
  exact Nat.le_trans (Nat.le_of_eq (Nat.zero_add _)) (nodup_iff_count_le_one.mp nodup_range job)

lemma Kept.step (kept : Kept jobs pool) (step : Step jobs pool pool') : Kept jobs pool' := by
  cases step with
  | @call next main more =>
    simp only [Kept, main] at kept
    refine ⟨more, kept.2.1, ?_⟩
    simp only [kept.2.2, range_succ, map_append, map_cons, map_nil]
  | @callFails next main more err =>
    simp only [Kept, main] at kept
    obtain ⟨-, none, ran⟩ := kept
    refine ⟨by simp [none], runs_loop (next + 1) none ?_, ⟨nofun, fun all => ?_⟩,
      fun other same => ?_⟩
    · simp [ran, range_succ, comp_def]
    · have here := all next more
      simp [ran] at here
    · cases same
      exact ⟨next, more, by simp⟩
  | leave main =>
    simp only [Kept, main] at kept
    obtain ⟨-, none, ran⟩ := kept
    refine ⟨by simp [none], ?_, ⟨fun _ job more => ?_, fun _ => rfl⟩, nofun⟩
    · exact runs_loop jobs none (by simp [ran, comp_def])
    · simp [ran, more]
  | @send next _ main more found =>
    simp only [Kept, main] at kept
    refine ⟨more, kept.2.1.send found, .checking next, ?_, nofun⟩
    exact mem_set (List.getElem?_eq_some_iff.mp found).1 _
  | close main =>
    simp only [Kept, main] at kept
    obtain ⟨-, serves, -⟩ := kept
    exact ⟨serves.placed, serves.unskipped, serves.failed, serves.noticed⟩
  | wait main stopped =>
    simp only [Kept, main] at kept
    exact ⟨stopped, kept.runs, kept.answers stopped⟩
  | skip found failed => exact kept.work (.skip found failed) found nofun rfl rfl (.inl nofun)
  | start found clean => exact kept.work (.start found clean) found nofun rfl rfl (.inl nofun)
  | succeed found => exact kept.work (.succeed found) found nofun rfl rfl (.inl nofun)
  | fail found err => exact kept.work (.fail found err) found nofun rfl rfl (.inl nofun)
  | record found => exact kept.work (.record found) found nofun rfl rfl (.inl nofun)
  | stop main found => exact kept.work (.stop main found) found nofun rfl rfl (.inr main)

lemma Kept.can_step (kept : Kept jobs pool) (running : ∀ result, pool.main ≠ .returned result) :
    ∃ pool', Step jobs pool pool' := by
  have work {worker : Nat} {state : Worker E} (found : pool.workers[worker]? = some state)
      (notDone : state ≠ .done) (notReceiving : state ≠ .receiving) :
      ∃ pool', Step jobs pool pool' := by
    cases state with
    | receiving => exact absurd rfl notReceiving
    | checking job =>
      by_cases clean : pool.first = none
      · exact ⟨_, .start found clean⟩
      · exact ⟨_, .skip found clean⟩
    | calling job => exact ⟨_, .succeed found⟩
    | recording job err => exact ⟨_, .record found⟩
    | done => exact absurd rfl notDone
  cases main : pool.main with
  | returned result => exact absurd main (running result)
  | looping next =>
    simp only [Kept, main] at kept
    obtain rfl | more := Nat.eq_or_lt_of_le kept.1
    · exact ⟨_, .leave main⟩
    · exact ⟨_, .call main more⟩
  | sending next =>
    simp only [Kept, main] at kept
    obtain rfl | more := Nat.eq_or_lt_of_le kept.1
    · exact ⟨_, .close main⟩
    obtain ⟨state, mem, active⟩ := kept.2.2
    obtain ⟨worker, found⟩ := mem_iff_getElem?.mp mem
    by_cases receiving : state = .receiving
    · exact ⟨_, .send main more (receiving ▸ found)⟩
    · exact work found active receiving
  | waiting =>
    by_cases stopped : ∀ worker ∈ pool.workers, worker = .done
    · exact ⟨_, .wait main stopped⟩
    push Not at stopped
    obtain ⟨state, mem, active⟩ := stopped
    obtain ⟨worker, found⟩ := mem_iff_getElem?.mp mem
    by_cases receiving : state = .receiving
    · exact ⟨_, .stop main (receiving ▸ found)⟩
    · exact work found active receiving

lemma kept_parallelize (n : Int) (jobs : Nat) : Kept jobs (parallelize n jobs : Pool E) := by
  simp only [parallelize]
  generalize (if n > writeConcurrencyCap then writeConcurrencyCap else n) = n
  split
  · exact ⟨Nat.zero_le _, rfl, rfl⟩
  next several =>
    refine ⟨Nat.zero_le _, ⟨fun job => ?_, fun _ => rfl, nofun, nofun⟩, .receiving, ?_, nofun⟩
    · have unheld : total (Worker.holds job) (List.replicate n.toNat (.receiving : Worker E)) = 0 :=
        total_eq_zero _ fun worker mem => by rw [eq_of_mem_replicate mem]; rfl
      simp [Pool.places, unheld]
    · exact mem_replicate.mpr ⟨by omega, rfl⟩

lemma Run.kept {n : Int} (run : Run jobs (parallelize n jobs) steps pool) :
    Kept jobs pool ∧ pool.rest jobs + steps ≤ (parallelize n jobs : Pool E).rest jobs := by
  induction run with
  | none => exact ⟨kept_parallelize n jobs, Nat.le_refl _⟩
  | more run step ih =>
    have fewer := step.rest
    exact ⟨ih.1.step step, by omega⟩

/-- Whatever the order of the steps: there are not too many and always one more until the return, a
job is run once at most, and the answer is nil exactly when all have run and none has failed. -/
theorem parallelize_completes (n : Int) (jobs : Nat) {steps : Nat} {pool : Pool E}
    (run : Run jobs (parallelize n jobs) steps pool) :
    steps ≤ (parallelize n jobs : Pool E).rest jobs ∧
      ((∃ result, pool.main = .returned result) ∨ ∃ pool', Step jobs pool pool') ∧
      (∀ job, pool.runs job ≤ 1) ∧
      ∀ result, pool.main = .returned result → Answers jobs pool result := by
  obtain ⟨kept, bound⟩ := run.kept
  refine ⟨by omega, ?_, ?_, fun result main => ?_⟩
  · rw [or_iff_not_imp_left, not_exists]
    exact kept.can_step
  · rw [Kept] at kept
    split at kept
    next next _ => exact runs_loop next kept.2.1 (by simp [kept.2.2, comp_def])
    · exact kept.2.1.runs
    · exact kept.runs
    · exact kept.2.1
  · simp only [Kept, main] at kept
    exact kept.2.2

lemma Run.skips {start : Pool E} {steps next : Nat} {err : E} {ran : List (Nat × Option E)}
    {skipped : List Nat} (more : next ≤ jobs) (run : Run jobs start steps
      ⟨.sending next, [.receiving, .receiving], some err, ran, skipped⟩) :
    ∃ steps skipped, Run jobs start steps
      ⟨.sending jobs, [.receiving, .receiving], some err, ran, skipped⟩ := by
  induction more using Nat.decreasingInduction generalizing steps skipped with
  | self => exact ⟨steps, skipped, run⟩
  | of_succ next more ih =>
    have sent := run.more (@Step.send _ _ _ next 0 rfl more rfl)
    exact ih (sent.more (@Step.skip _ _ _ 0 next rfl (by simp [Pool.become])))

/-- Both workers have taken a job when the first one fails. The second job fails as well, and the
other jobs are skipped. -/
theorem parallelize_completes_failing : ∃ steps, ∃ pool : Pool Bool,
    Run 16 (parallelize 2 16) steps pool ∧ pool.main = .returned (some false) ∧
      pool.ran = [(0, some false), (1, some true)] ∧ Answers 16 pool (some false) := by
  have sent : Run 16 (parallelize 2 16 : Pool Bool) 2
      ⟨.sending 2, [.checking 0, .checking 1], none, [], []⟩ :=
    (Run.none.more (@Step.send _ _ _ 0 0 rfl (by decide) rfl)).more
      (@Step.send _ _ _ 1 1 rfl (by decide) rfl)
  have called : Run 16 (parallelize 2 16 : Pool Bool) 6
      ⟨.sending 2, [.recording 0 false, .recording 1 true], none, [], []⟩ :=
    (((sent.more (@Step.start _ _ _ 0 0 rfl rfl)).more (@Step.start _ _ _ 1 1 rfl rfl)).more
      (@Step.fail _ _ _ 0 0 rfl false)).more (@Step.fail _ _ _ 1 1 rfl true)
  have recorded := (called.more (@Step.record _ _ _ 0 0 _ rfl)).more
    (@Step.record _ _ _ 1 1 _ rfl)
  obtain ⟨steps, skipped, skips⟩ := Run.skips (by decide) recorded
  have stopped := ((skips.more (.close rfl)).more (@Step.stop _ _ _ 0 rfl rfl)).more
    (@Step.stop _ _ _ 1 rfl rfl)
  have run := stopped.more (.wait rfl (by simp [Pool.become]))
  exact ⟨_, _, run, rfl, rfl, (parallelize_completes 2 16 run).2.2.2 _ rfl⟩

end Rotor.Compile.Parallel
