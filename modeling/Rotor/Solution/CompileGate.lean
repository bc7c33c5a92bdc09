import Mathlib.Data.List.Basic

/-!
The compile gate of a watch (`cmd/rotor/solution_watch.go`).

Triggers and drains are called from anywhere; a burst of triggers has one goroutine, which goes on
as long as something is pending. What is done under the lock is one step.
-/

namespace Rotor.Solution.CompileGate

inductive Runner where
  | starting | executing | finishing
  deriving DecidableEq

/-- A call of `Drain` looks at the gate, or waits for a channel. -/
inductive Drainer where
  | looking
  | waiting (done : Nat)
  deriving DecidableEq

structure Gate where
  running : Bool
  pending : Bool
  /-- The number of the last channel. -/
  done : Nat
  closed : List Nat
  runners : List Runner
  drainers : List Drainer
  deriving DecidableEq

def newCompileGate : Gate := ⟨false, false, 0, [], [], []⟩

inductive Event where
  | trigger
  | start (runner : Nat)
  | finish (runner : Nat)
  | proceed (runner : Nat)
  | drain
  | look (drainer : Nat)
  | wake (drainer : Nat)
  deriving DecidableEq

namespace Event

def isStart : Event → Bool
  | .start _ => true
  | _ => false

def isRunner : Event → Bool
  | .start _ | .finish _ | .proceed _ => true
  | _ => false

end Event

def step (g : Gate) : Event → Option Gate
  | .trigger =>
    if g.running then some { g with pending := true }
    else some { g with running := true, done := g.done + 1, runners := g.runners ++ [.starting] }
  | .start runner =>
    if g.runners[runner]? = some .starting then
      some { g with runners := g.runners.set runner .executing }
    else none
  | .finish runner =>
    if g.runners[runner]? = some .executing then
      some { g with runners := g.runners.set runner .finishing }
    else none
  | .proceed runner =>
    if g.runners[runner]? = some .finishing then
      if g.pending then some { g with pending := false, runners := g.runners.set runner .starting }
      else some { g with
        running := false, closed := g.done :: g.closed, runners := g.runners.eraseIdx runner }
    else none
  | .drain => some { g with drainers := g.drainers ++ [.looking] }
  | .look drainer =>
    if g.drainers[drainer]? = some .looking then
      if g.running then some { g with drainers := g.drainers.set drainer (.waiting g.done) }
      else some { g with drainers := g.drainers.eraseIdx drainer }
    else none
  | .wake drainer =>
    match g.drainers[drainer]? with
    | some (.waiting done) =>
      if done ∈ g.closed then some { g with drainers := g.drainers.set drainer .looking } else none
    | _ => none

def run (g : Gate) (events : List Event) : Option Gate := events.foldlM step g

/-- What the gate promises after some events. -/
structure Coalesces (events : List Event) (g : Gate) : Prop where
  /-- At most one run executes. -/
  alone : g.runners.count .executing ≤ 1
  /-- A run starts behind a trigger, after less than three other steps of a goroutine that can
  take them. -/
  followed : ∀ before later, events = before ++ .trigger :: later → later.any Event.isStart ∨
      later.countP Event.isRunner < 3 ∧ ∃ event, event.isRunner ∧ (step g event).isSome
  /-- Without another trigger, at most one run starts besides the one that is about to. -/
  queued : ∀ later, (run g later).isSome → .trigger ∉ later →
    later.countP Event.isStart ≤ g.runners.count .starting + 1
  /-- A drain returns while nothing runs or is pending. -/
  drained : ∀ drainer g', step g (.look drainer) = some g' →
    g'.drainers.length < g.drainers.length → g.runners = [] ∧ g.pending = false

/-! ### Phases -/

inductive Phase where
  | idle
  | busy (runner : Runner) (pending : Bool)

namespace Phase

def Of (g : Gate) : Phase → Prop
  | .idle => g.running = false ∧ g.pending = false ∧ g.runners = []
  | .busy runner pending => g.running = true ∧ g.pending = pending ∧ g.runners = [runner]

/-- The runs that start without another trigger. -/
def queue : Phase → Nat
  | .idle => 0
  | .busy .starting pending => pending.toNat + 1
  | .busy _ pending => pending.toNat

/-- A trigger has not been followed by a run, but by some steps of the goroutine. -/
def Owes (steps : Nat) : Phase → Prop
  | .idle => False
  | .busy .starting _ => steps ≤ 2
  | .busy .executing pending => pending = true ∧ steps = 0
  | .busy .finishing pending => pending = true ∧ steps ≤ 1

end Phase

inductive Moves : Phase → Event → Phase → Prop where
  | opened : Moves .idle .trigger (.busy .starting false)
  | joined {runner : Runner} {pending : Bool} :
      Moves (.busy runner pending) .trigger (.busy runner true)
  | started {pending : Bool} : Moves (.busy .starting pending) (.start 0) (.busy .executing pending)
  | finished {pending : Bool} :
      Moves (.busy .executing pending) (.finish 0) (.busy .finishing pending)
  | again : Moves (.busy .finishing true) (.proceed 0) (.busy .starting false)
  | stopped : Moves (.busy .finishing false) (.proceed 0) .idle
  | drained {phase : Phase} {event : Event} (other : event ≠ .trigger)
      (quiet : event.isRunner = false) : Moves phase event phase

variable {g g' : Gate} {event : Event} {events later : List Event} {phase phase' : Phase}
  {steps : Nat}

lemma Phase.Of.at_runner {idx : Nat} {runner : Runner} (of : phase.Of g)
    (found : g.runners[idx]? = some runner) : idx = 0 ∧ phase = .busy runner g.pending := by
  cases phase with
  | idle => rw [of.2.2] at found; nomatch found
  | busy other pending =>
    rw [of.2.2] at found
    cases idx with
    | zero => exact ⟨rfl, congrArg₂ _ (Option.some.inj found) of.2.1.symm⟩
    | succ idx => nomatch found

lemma Phase.Of.same (of : phase.Of g) (running : g'.running = g.running)
    (pending : g'.pending = g.pending) (runners : g'.runners = g.runners) : phase.Of g' := by
  cases phase <;> simpa only [Phase.Of, running, pending, runners] using of

lemma step_moves (of : phase.Of g) (stepped : step g event = some g') :
    ∃ phase', Moves phase event phase' ∧ phase'.Of g' := by
  cases event with
  | drain =>
    cases stepped
    exact ⟨phase, .drained nofun rfl, of.same rfl rfl rfl⟩
  | look drainer =>
    rw [step] at stepped
    split at stepped
    · split at stepped <;> cases stepped <;>
        exact ⟨phase, .drained nofun rfl, of.same rfl rfl rfl⟩
    · nomatch stepped
  | wake drainer =>
    rw [step] at stepped
    split at stepped
    · split at stepped
      · cases stepped
        exact ⟨phase, .drained nofun rfl, of.same rfl rfl rfl⟩
      · nomatch stepped
    · nomatch stepped
  | trigger =>
    cases phase with
    | idle =>
      simp only [step, of.1, of.2.2, Bool.false_eq_true, if_false] at stepped
      cases stepped
      exact ⟨_, .opened, rfl, of.2.1, rfl⟩
    | busy runner pending =>
      rw [step, if_pos of.1] at stepped
      cases stepped
      exact ⟨_, .joined, of.1, rfl, of.2.2⟩
  | start idx =>
    rw [step] at stepped
    split at stepped
    · next found =>
      obtain ⟨rfl, rfl⟩ := of.at_runner found
      cases stepped
      exact ⟨_, .started, of.1, rfl, congrArg (·.set 0 .executing) of.2.2⟩
    · nomatch stepped
  | finish idx =>
    rw [step] at stepped
    split at stepped
    · next found =>
      obtain ⟨rfl, rfl⟩ := of.at_runner found
      cases stepped
      exact ⟨_, .finished, of.1, rfl, congrArg (·.set 0 .finishing) of.2.2⟩
    · nomatch stepped
  | proceed idx =>
    rw [step] at stepped
    split at stepped
    · next found =>
      obtain ⟨rfl, rfl⟩ := of.at_runner found
      cases pending : g.pending with
      | true =>
        rw [pending, if_pos rfl] at stepped
        cases stepped
        exact ⟨_, .again, of.1, rfl, congrArg (·.set 0 .starting) of.2.2⟩
      | false =>
        rw [pending, if_neg Bool.false_ne_true] at stepped
        cases stepped
        exact ⟨_, .stopped, rfl, rfl, congrArg (·.eraseIdx 0) of.2.2⟩
    · nomatch stepped

lemma Moves.owes (moves : Moves phase event phase') (owes : phase.Owes steps) :
    event.isStart ∨ phase'.Owes (steps + if event.isRunner then 1 else 0) := by
  cases moves with
  | opened => exact owes.elim
  | @joined runner pending =>
    cases runner
    · exact .inr owes
    · exact .inr ⟨rfl, owes.2⟩
    · exact .inr ⟨rfl, owes.2⟩
  | started => exact .inl rfl
  | finished => exact .inr ⟨owes.1, Nat.succ_le_of_lt (by rw [owes.2]; decide)⟩
  | again => exact .inr (Nat.succ_le_succ owes.2)
  | stopped => nomatch owes.1
  | drained other quiet =>
    rw [quiet]
    exact .inr owes

lemma Moves.queue (moves : Moves phase event phase') (other : event ≠ .trigger) :
    phase'.queue + (if event.isStart then 1 else 0) = phase.queue := by
  cases moves with
  | opened => exact absurd rfl other
  | joined => exact absurd rfl other
  | drained _ quiet =>
    cases event with
    | start => nomatch quiet
    | _ => rfl
  | _ => rfl

lemma run_phase (of : phase.Of g) (ran : run g events = some g') :
    ∃ phase' : Phase, phase'.Of g' := by
  induction events generalizing g phase with
  | nil =>
    cases ran
    exact ⟨phase, of⟩
  | cons event events ih =>
    obtain ⟨middle, stepped, rest⟩ := Option.bind_eq_some_iff.mp ran
    obtain ⟨phase', -, of'⟩ := step_moves of stepped
    exact ih of' rest

lemma run_owes (of : phase.Of g) (owes : phase.Owes steps) (ran : run g later = some g') :
    later.any Event.isStart ∨
      ∃ phase' : Phase, phase'.Of g' ∧ phase'.Owes (steps + later.countP Event.isRunner) := by
  induction later generalizing g phase steps with
  | nil =>
    cases ran
    exact .inr ⟨phase, of, owes⟩
  | cons event later ih =>
    obtain ⟨middle, stepped, rest⟩ := Option.bind_eq_some_iff.mp ran
    obtain ⟨phase', moves, of'⟩ := step_moves of stepped
    rw [List.any_cons, List.countP_cons, ← Nat.add_assoc, Nat.add_right_comm, Bool.or_eq_true]
    rcases moves.owes owes with starts | owes'
    · exact .inl (.inl starts)
    · exact (ih of' owes' rest).imp_left .inr

lemma run_queue (of : phase.Of g) (ran : run g later = some g') (other : .trigger ∉ later) :
    later.countP Event.isStart ≤ phase.queue := by
  induction later generalizing g phase with
  | nil => exact Nat.zero_le _
  | cons event later ih =>
    rw [List.mem_cons, not_or] at other
    obtain ⟨middle, stepped, rest⟩ := Option.bind_eq_some_iff.mp ran
    obtain ⟨phase', moves, of'⟩ := step_moves of stepped
    have fewer := ih of' rest other.2
    have spent := moves.queue (Ne.symm other.1)
    rw [List.countP_cons]
    omega

lemma Phase.Owes.can_step (owes : phase.Owes steps) (of : phase.Of g) :
    steps < 3 ∧ ∃ event, event.isRunner ∧ (step g event).isSome := by
  cases phase with
  | idle => exact owes.elim
  | busy runner pending =>
    cases runner with
    | starting => exact ⟨Nat.lt_succ_of_le owes, .start 0, rfl, by simp [step, of.2.2]⟩
    | executing => exact ⟨by rw [owes.2]; decide, .finish 0, rfl, by simp [step, of.2.2]⟩
    | finishing =>
      refine ⟨Nat.lt_succ_of_lt (Nat.lt_succ_of_le owes.2), .proceed 0, rfl, ?_⟩
      simp [step, of.2.2, of.2.1.trans owes.1]

/-- The gate loses no trigger, for any interleaving of its callers with the goroutine. -/
theorem compileGate_coalesces (events : List Event) {g : Gate}
    (ran : run newCompileGate events = some g) : Coalesces events g := by
  have first : Phase.idle.Of newCompileGate := ⟨rfl, rfl, rfl⟩
  obtain ⟨phase, of⟩ := run_phase first ran
  refine ⟨?_, ?_, fun later ends other => ?_, fun drainer g' looked returned => ?_⟩
  · cases phase with
    | idle => simp [of.2.2]
    | busy runner pending => rw [of.2.2]; exact List.count_le_length
  · rintro before later rfl
    rw [run, List.foldlM_append] at ran
    obtain ⟨middle, ran, rest⟩ := Option.bind_eq_some_iff.mp ran
    obtain ⟨triggered, stepped, rest⟩ := Option.bind_eq_some_iff.mp rest
    obtain ⟨phase, of⟩ := run_phase first ran
    obtain ⟨phase', moves, of'⟩ := step_moves of stepped
    have owes : phase'.Owes 0 := by
      cases moves with
      | opened => exact Nat.zero_le 2
      | @joined runner => cases runner <;> simp [Phase.Owes]
      | drained other => exact absurd rfl other
    refine (run_owes of' owes rest).imp_right fun ⟨last, of, owes⟩ => ?_
    rw [Nat.zero_add] at owes
    exact owes.can_step of
  · obtain ⟨last, ran⟩ := Option.isSome_iff_exists.mp ends
    refine Nat.le_trans (run_queue of ran other) ?_
    cases phase with
    | idle => exact Nat.zero_le _
    | busy runner pending => rw [of.2.2]; cases runner <;> cases pending <;> decide
  · cases phase with
    | idle => exact ⟨of.2.2, of.2.1⟩
    | busy runner pending =>
      rw [step, of.1] at looked
      split at looked
      · cases looked
        simp at returned
      · nomatch looked

theorem compileGate_coalesces_burst : ∃ g,
    run newCompileGate [.trigger, .start 0, .trigger, .finish 0, .trigger, .proceed 0] = some g ∧
      Coalesces [.trigger, .start 0, .trigger, .finish 0, .trigger, .proceed 0] g :=
  ⟨_, rfl, compileGate_coalesces _ rfl⟩

end Rotor.Solution.CompileGate
