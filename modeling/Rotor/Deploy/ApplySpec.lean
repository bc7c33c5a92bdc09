import Rotor.Deploy.Apply

/-!
What one step and a whole run of `Apply` do to the recorded state.
-/

namespace Rotor.Deploy

open List

variable {I W E : Type} {opts : ApplyOptions I W E} {run run' : Run I W E} {step : Step I}

/-- The outputs that are recorded: those of the call before those of the entry it had. -/
def mergedOutputs (prior : Option StateEntry) (outputs : Outputs) : Outputs :=
  match prior with
  | some entry => outputs ∪ entry.outputs
  | none => outputs

def Saves (opts : ApplyOptions I W E) (st : State) (world world' : W) : Prop :=
  match opts.saveState with
  | none => world' = world
  | some save => save st world = (.ok (), world')

/-- What a step that `Apply` gets through does. -/
inductive Outcome (opts : ApplyOptions I W E) (run run' : Run I W E)
    (step : Step I) : StepStatus → Prop
  | unchanged : step.op = .noop → run'.state = run.state → run'.world = run.world →
      Outcome opts run run' step .unchanged
  | changed {provider resource outputs world} : step.op = .create ∨ step.op = .update →
      opts.providers step.ref.kind = some provider → step.resource = some resource →
      (if step.op = .create then provider.create else provider.update) run.state resource.inputs
        (run.state.lookup step.ref.key) run.world = (.ok outputs, world) →
      run'.state = run.state.insert step.ref.key
        ⟨step.inputsHash, mergedOutputs (run.state.lookup step.ref.key) outputs⟩ →
      Saves opts run'.state world run'.world → Outcome opts run run' step .applied
  | forgotten : step.op = .delete → opts.providers step.ref.kind = none →
      run'.state = run.state.erase step.ref.key → Saves opts run'.state run.world run'.world →
      Outcome opts run run' step .applied
  | deleted {provider world} : step.op = .delete → opts.providers step.ref.kind = some provider →
      provider.delete run.state (run.state.lookup step.ref.key) run.world = (.ok (), world) →
      run'.state = run.state.erase step.ref.key → Saves opts run'.state world run'.world →
      Outcome opts run run' step .applied
  | skipped : step.op = .create ∨ step.op = .update → run'.state = run.state →
      Outcome opts run run' step .skipped
  | failed : step.op = .create ∨ step.op = .update ∨ step.op = .delete →
      run'.state = run.state → Outcome opts run run' step .failed

structure Recorded (before after : ApplyResult I E) (step : Step I)
    (status : StepStatus) : Prop where
  results : ∃ error, after.results = before.results ++ [⟨step, status, error⟩]
  failed : after.failed = before.failed + if status = .failed then 1 else 0
  skipped : after.skipped = before.skipped + if status = .skipped then 1 else 0

lemma save_ok {counted : ApplyResult I E → ApplyResult I E}
    (saved : Run.save opts run step counted = .ok run')
    (same : ∀ res, (counted res).results = res.results ∧
      (counted res).failed = res.failed ∧ (counted res).skipped = res.skipped) :
    run'.state = run.state ∧ Saves opts run.state run.world run'.world ∧
      Recorded run.result run'.result step .applied := by
  have recorded (world : W) (after : { run with
      world := world, result := counted (run.result.record step .applied none) } = run') :
      Recorded run.result run'.result step .applied := by
    subst after
    obtain ⟨results, failed, skipped⟩ := same (run.result.record step .applied none)
    exact ⟨⟨none, results⟩, failed, skipped⟩
  rw [Run.save] at saved
  cases saver : opts.saveState with
  | none =>
    simp only [saver, Except.ok.injEq] at saved
    refine ⟨by rw [← saved], ?_, recorded _ saved⟩
    simp [Saves, saver, ← saved]
  | some save =>
    simp only [saver] at saved
    split at saved
    · simp at saved
    · next called =>
        simp only [Except.ok.injEq] at saved
        refine ⟨by rw [← saved], ?_, recorded _ saved⟩
        simp [Saves, saver, ← saved, called]

lemma applyChange_ok (isCreate : Bool) (op : step.op = if isCreate then .create else .update)
    (applied : applyChange opts run step isCreate = .ok run') :
    ∃ status, Outcome opts run run' step status ∧ Recorded run.result run'.result step status := by
  have changes : step.op = .create ∨ step.op = .update := by
    cases isCreate
    · exact .inr op
    · exact .inl op
  rw [applyChange] at applied
  split at applied
  · obtain rfl := Except.ok.inj applied
    exact ⟨.skipped, .skipped changes rfl, ⟨⟨_, rfl⟩, rfl, rfl⟩⟩
  · split at applied
    · simp at applied
    · simp at applied
    · next provider resource known present =>
        dsimp only at applied
        split at applied
        · obtain rfl := Except.ok.inj applied
          exact ⟨.failed, .failed (by tauto) rfl, ⟨⟨_, rfl⟩, rfl, rfl⟩⟩
        · next outputs world called =>
            obtain ⟨state, saves, recorded⟩ := save_ok applied fun res => by
              cases isCreate <;> exact ⟨rfl, rfl, rfl⟩
            refine ⟨.applied, .changed changes known present ?_ state (state ▸ saves), recorded⟩
            cases isCreate <;> simpa [op] using called

lemma applyDelete_ok (op : step.op = .delete) (applied : applyDelete opts run step = .ok run') :
    ∃ status, Outcome opts run run' step status ∧ Recorded run.result run'.result step status := by
  rw [applyDelete] at applied
  split at applied
  · obtain rfl := Except.ok.inj applied
    exact ⟨.failed, .failed (.inr (.inr op)) rfl, ⟨⟨_, rfl⟩, rfl, rfl⟩⟩
  · next world called =>
      obtain ⟨state, saves, recorded⟩ := save_ok applied fun _ => ⟨rfl, rfl, rfl⟩
      cases known : opts.providers step.ref.kind with
      | none =>
        simp only [known, Prod.mk.injEq] at called
        obtain ⟨-, rfl⟩ := called
        exact ⟨.applied, .forgotten op known state (state ▸ saves), recorded⟩
      | some provider =>
        simp only [known] at called
        exact ⟨.applied, .deleted op known called state (state ▸ saves), recorded⟩

/-- Every step that does not stop `Apply` has one of these outcomes. -/
theorem applyStep_ok (applied : applyStep opts run step = .ok run') :
    ∃ status, Outcome opts run run' step status ∧ Recorded run.result run'.result step status := by
  cases op : step.op with
  | noop =>
    simp only [applyStep, op, Except.ok.injEq] at applied
    subst applied
    exact ⟨.unchanged, .unchanged op rfl rfl, ⟨⟨_, rfl⟩, rfl, rfl⟩⟩
  | create =>
    simp only [applyStep, op] at applied
    exact applyChange_ok true op applied
  | update =>
    simp only [applyStep, op] at applied
    exact applyChange_ok false op applied
  | delete =>
    simp only [applyStep, op] at applied
    exact applyDelete_ok op applied
  | blockedDelete => simp [applyStep, op] at applied

/-! ### Whole runs -/

inductive Applies (opts : ApplyOptions I W E) : Run I W E → List (StepResult I E) → Run I W E → Prop
  | nil {first : Run I W E} : Applies opts first [] first
  | cons {first middle final : Run I W E} {result results} :
      Outcome opts first middle result.step result.status →
      Applies opts middle results final → Applies opts first (result :: results) final

lemma applySteps_ok {steps : List (Step I)} (applied : applySteps opts run steps = .ok run') :
    ∃ results : List (StepResult I E), results.map StepResult.step = steps ∧
      run'.result.results = run.result.results ++ results ∧
      run'.result.failed = run.result.failed + results.countP (fun res => res.status = .failed) ∧
      run'.result.skipped = run.result.skipped + results.countP (fun res => res.status = .skipped) ∧
      Applies opts run results run' := by
  induction steps generalizing run with
  | nil =>
    obtain rfl := Except.ok.inj applied
    exact ⟨[], rfl, by simp, rfl, rfl, .nil⟩
  | cons step steps ih =>
    rw [applySteps] at applied
    cases first : applyStep opts run step with
    | error error => simp [first] at applied
    | ok middle =>
      simp only [first] at applied
      obtain ⟨status, outcome, ⟨error, recorded⟩, failed, skipped⟩ := applyStep_ok first
      obtain ⟨results, steps, recorded', failed', skipped', applies⟩ := ih applied
      refine ⟨⟨step, status, error⟩ :: results, by simp [steps], ?_, ?_, ?_, .cons outcome applies⟩
      · rw [recorded', recorded, append_assoc]
        rfl
      · rw [failed', failed, countP_cons]
        simp only [decide_eq_true_eq]
        omega
      · rw [skipped', skipped, countP_cons]
        simp only [decide_eq_true_eq]
        omega

lemma Outcome.lookup_ne {status : StepStatus} (outcome : Outcome opts run run' step status)
    {key : Bytes} (other : key ≠ step.ref.key) : run'.state.lookup key = run.state.lookup key := by
  cases outcome with
  | unchanged _ same => rw [same]
  | changed _ _ _ _ same => rw [same, AList.lookup_insert_ne other]
  | forgotten _ _ same => rw [same, AList.lookup_erase_ne other]
  | deleted _ _ _ same => rw [same, AList.lookup_erase_ne other]
  | skipped _ same => rw [same]
  | failed _ same => rw [same]

def resultKeys (results : List (StepResult I E)) : List Bytes :=
  results.map fun result => result.step.ref.key

lemma Applies.lookup_of_not_mem {results : List (StepResult I E)}
    (applies : Applies opts run results run') {key : Bytes} (absent : key ∉ resultKeys results) :
    run'.state.lookup key = run.state.lookup key := by
  induction applies with
  | nil => rfl
  | cons outcome _ ih =>
    obtain ⟨here, later⟩ := not_or.mp (mt mem_cons.mpr absent)
    rw [ih later, outcome.lookup_ne here]

lemma Applies.split {front back : List (StepResult I E)} {res : StepResult I E}
    (applies : Applies opts run (front ++ res :: back) run') :
    ∃ before after, Applies opts run front before ∧
      Outcome opts before after res.step res.status ∧ Applies opts after back run' := by
  induction front generalizing run with
  | nil =>
    cases applies with
    | cons outcome rest => exact ⟨_, _, .nil, outcome, rest⟩
  | cons first front ih =>
    cases applies with
    | cons outcome rest =>
      obtain ⟨before, after, applied, outcome', applied'⟩ := ih rest
      exact ⟨before, after, .cons outcome applied, outcome', applied'⟩

lemma Applies.lookup {results : List (StepResult I E)}
    (applies : Applies opts run results run') (nodup : (resultKeys results).Nodup)
    {res : StepResult I E} (mem : res ∈ results) :
    ∃ before after, Outcome opts before after res.step res.status ∧
      before.state.lookup res.step.ref.key = run.state.lookup res.step.ref.key ∧
      run'.state.lookup res.step.ref.key = after.state.lookup res.step.ref.key := by
  obtain ⟨front, back, rfl⟩ := append_of_mem mem
  obtain ⟨before, after, applied, outcome, applied'⟩ := applies.split
  simp only [resultKeys, map_append, map_cons, nodup_append, nodup_cons, mem_cons] at nodup
  obtain ⟨-, ⟨behind, -⟩, ahead⟩ := nodup
  exact ⟨before, after, outcome,
    applied.lookup_of_not_mem fun inside => ahead _ inside _ (.inl rfl) rfl,
    applied'.lookup_of_not_mem behind⟩

end Rotor.Deploy
