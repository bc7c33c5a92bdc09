import Rotor.Deploy.ApplySpec
import Rotor.Deploy.PlanSpec

/-!
Deploying converges: a new plan against the state that `Apply` leaves has work to do
exactly for the steps that failed or were skipped.
-/

namespace Rotor.Deploy

open List

variable {I W E : Type} {hashInputs : I → Except E Bytes}

/-! ### The steps of a plan -/

section Plan

variable {st : State} {ordered : List (Resource I)} {hashes : List Bytes}

/-- The steps that `BuildPlan` makes from an order and the hashes along it. -/
def planSteps (st : State) (ordered : List (Resource I)) (hashes : List Bytes) : List (Step I) :=
  List.zipWith (liveStep st) ordered hashes ++ (goneKeys st ordered).map (deleteStep true)

lemma mem_liveSteps {step : Step I} : step ∈ List.zipWith (liveStep st) ordered hashes ↔
      ∃ pair ∈ ordered.zip hashes, liveStep st pair.1 pair.2 = step := by
  rw [← map_uncurry_zip_eq_zipWith]
  exact mem_map

lemma map_key_liveSteps (length : ordered.length = hashes.length) :
    (List.zipWith (liveStep st) ordered hashes).map (fun step => step.ref.key) =
      ordered.map Resource.key := by
  induction ordered generalizing hashes with
  | nil => rfl
  | cons resource ordered ih =>
    cases hashes with
    | nil => simp at length
    | cons hash hashes =>
      rw [zipWith_cons_cons, map_cons, map_cons, ih (by simpa using length)]
      rfl

lemma map_key_deleteSteps {gone : List Bytes} (slashes : ∀ key ∈ gone, 47 ∈ key) :
    (gone.map (deleteStep true : Bytes → Step I)).map (fun step => step.ref.key) = gone := by
  rw [map_map]
  conv_rhs => rw [← map_id gone]
  apply map_congr_left
  intro key mem
  exact key_parseStateKey (slashes key mem)

lemma map_key_planSteps (length : ordered.length = hashes.length) (slashes : ∀ key ∈ st, 47 ∈ key) :
    ((planSteps st ordered hashes).map fun step => step.ref.key) =
      ordered.map Resource.key ++ goneKeys st ordered := by
  rw [planSteps, map_append, map_key_liveSteps length,
    map_key_deleteSteps fun key mem => slashes key (mem_goneKeys.mp mem).1]

lemma mem_planSteps {step : Step I} : step ∈ planSteps st ordered hashes ↔
      (∃ pair ∈ ordered.zip hashes, liveStep st pair.1 pair.2 = step) ∨
        ∃ key ∈ goneKeys st ordered, deleteStep true key = step := by
  rw [planSteps, mem_append, mem_liveSteps, mem_map]

end Plan

/-! ### The operations of the next plan -/

section Next

variable {opts : ApplyOptions I W E} {before after : Run I W E}
  {status : StepStatus} {st next : State}

def Op.isChange (op : Op) : Prop := op = .create ∨ op = .update

def StepStatus.isOpen (status : StepStatus) : Prop := status = .failed ∨ status = .skipped

lemma planOp_cases (st : State) (key hash : Bytes) :
    (planOp st key hash = .noop ∧ ∃ entry, st.lookup key = some entry ∧ entry.inputsHash = hash) ∨
      (planOp st key hash).isChange := by
  rw [planOp]
  split
  · next entry found =>
      split
      · next same => exact .inl ⟨rfl, entry, found, same⟩
      · exact .inr (.inr rfl)
  · exact .inr (.inl rfl)

lemma planOp_noop {key hash : Bytes} {entry : StateEntry} (found : st.lookup key = some entry)
    (same : entry.inputsHash = hash) : planOp st key hash = .noop := by
  simp [planOp, found, same]

lemma not_isChange_noop : ¬Op.noop.isChange := by
  simp [Op.isChange]

lemma planOp_ne_delete (st : State) (key hash : Bytes) : planOp st key hash ≠ .delete := by
  rcases planOp_cases st key hash with ⟨noop, -⟩ | create | update
  · simp [noop]
  · simp [create]
  · simp [update]

lemma isChange_next {resource : Resource I} {hash : Bytes}
    (outcome : Outcome opts before after (liveStep st resource hash) status)
    (first : before.state.lookup resource.key = st.lookup resource.key)
    (last : next.lookup resource.key = after.state.lookup resource.key) :
    (planOp next resource.key hash).isChange ↔
      (planOp st resource.key hash).isChange ∧ status.isOpen := by
  -- When the step changes nothing, the next plan has the operation of this one.
  have kept (same : after.state = before.state) :
      planOp next resource.key hash = planOp st resource.key hash := by
    rw [planOp, planOp, last, same, first]
  cases outcome with
  | unchanged noop same =>
    rw [kept same, show planOp st resource.key hash = .noop from noop]
    simp [not_isChange_noop]
  | @changed _ _ outputs _ _ _ _ _ same =>
    have found : next.lookup resource.key = some ⟨hash, mergedOutputs
        (before.state.lookup resource.key) outputs⟩ := by
      rw [last, same]
      exact AList.lookup_insert _
    rw [planOp_noop found rfl]
    simp [not_isChange_noop, StepStatus.isOpen]
  | forgotten delete | deleted delete => exact absurd delete (planOp_ne_delete _ _ _)
  | skipped _ same =>
    rw [kept same]
    simp [StepStatus.isOpen]
  | failed _ same =>
    rw [kept same]
    simp [StepStatus.isOpen]

lemma mem_next_of_delete {key : Bytes} (recorded : key ∈ st) (slash : 47 ∈ key)
    (outcome : Outcome opts before after (deleteStep true key) status)
    (first : before.state.lookup key = st.lookup key)
    (last : next.lookup key = after.state.lookup key) : key ∈ next ↔ status = .failed := by
  have isKey : (deleteStep true key : Step I).ref.key = key := key_parseStateKey slash
  have isDelete : (deleteStep true key : Step I).op = .delete := rfl
  rw [← AList.lookup_isSome, last]
  cases outcome with
  | unchanged noop => simp [isDelete] at noop
  | changed change => simp [isDelete] at change
  | skipped change => simp [isDelete] at change
  | forgotten _ _ same => simp [same, isKey]
  | deleted _ _ _ same => simp [same, isKey]
  | failed _ same => simp [same, first, AList.lookup_isSome, recorded]

end Next

/-! ### Convergence -/

structure Carried (opts : ApplyOptions I W E) (ordered : List (Resource I))
    (hashes : List Bytes) (run run' : Run I W E)
    (results : List (StepResult I E)) : Prop where
  applies : Applies opts run results run'
  steps : results.map StepResult.step = planSteps run.state ordered hashes
  keys : (ordered.map Resource.key).Nodup
  length : ordered.length = hashes.length
  slashes : ∀ key ∈ run.state, 47 ∈ key

section Converge

variable {opts : ApplyOptions I W E} {run run' : Run I W E}
  {ordered : List (Resource I)} {hashes : List Bytes}
  {results : List (StepResult I E)} (carried : Carried opts ordered hashes run run' results)

include carried

lemma Carried.resultKeys_eq :
    resultKeys results = ordered.map Resource.key ++ goneKeys run.state ordered := by
  rw [← map_key_planSteps carried.length carried.slashes, ← carried.steps, map_map]
  rfl

lemma Carried.nodup : (resultKeys results).Nodup := by
  rw [carried.resultKeys_eq]
  apply carried.keys.append (goneKeys_nodup ordered)
  intro key inside gone
  exact (mem_goneKeys.mp gone).2 inside

lemma exists_result {step : Step I} (mem : step ∈ planSteps run.state ordered hashes) :
    ∃ res ∈ results, res.step = step ∧ ∃ before after, Outcome opts before after step res.status ∧
      before.state.lookup step.ref.key = run.state.lookup step.ref.key ∧
      run'.state.lookup step.ref.key = after.state.lookup step.ref.key := by
  rw [← carried.steps] at mem
  obtain ⟨res, inside, rfl⟩ := mem_map.mp mem
  exact ⟨res, inside, rfl, carried.applies.lookup carried.nodup inside⟩

lemma result_unique {res res' : StepResult I E} (mem : res ∈ results)
    (mem' : res' ∈ results) (same : res.step.ref.key = res'.step.ref.key) : res = res' :=
  inj_on_of_nodup_map carried.nodup mem mem' same

lemma change_next_iff (ref : ResourceRef) :
    (∃ step ∈ planSteps run'.state ordered hashes, step.ref = ref ∧ step.op.isChange) ↔
      ∃ res ∈ results, res.step.ref = ref ∧ res.step.op.isChange ∧
        res.status.isOpen := by
  constructor
  · rintro ⟨step, mem, rfl, change⟩
    rcases mem_planSteps.mp mem with ⟨pair, inside, rfl⟩ | ⟨key, -, rfl⟩
    · obtain ⟨res, recorded, same, before, after, outcome, first, last⟩ :=
        exists_result carried (mem_planSteps.mpr (.inl ⟨pair, inside, rfl⟩))
      obtain ⟨change, isOpen⟩ := (isChange_next outcome first last).mp change
      exact ⟨res, recorded, by rw [same]; rfl, by rw [same]; exact change, isOpen⟩
    · simp [deleteStep, Op.isChange] at change
  · rintro ⟨res, recorded, rfl, change, isOpen⟩
    have planned : res.step ∈ planSteps run.state ordered hashes :=
      carried.steps ▸ mem_map_of_mem recorded
    obtain ⟨res', recorded', same, before, after, outcome, first, last⟩ :=
      exists_result carried planned
    obtain rfl := result_unique carried recorded' recorded (by rw [same])
    rcases mem_planSteps.mp planned with ⟨pair, inside, live⟩ | ⟨key, -, delete⟩
    · rw [← live] at outcome first last change ⊢
      exact ⟨liveStep run'.state pair.1 pair.2, mem_planSteps.mpr (.inl ⟨pair, inside, rfl⟩), rfl,
        (isChange_next outcome first last).mpr ⟨change, isOpen⟩⟩
    · simp [← delete, deleteStep, Op.isChange] at change

lemma goneKeys_subset {key : Bytes} (gone : key ∈ goneKeys run'.state ordered) :
    key ∈ goneKeys run.state ordered := by
  obtain ⟨recorded, absent⟩ := mem_goneKeys.mp gone
  refine mem_goneKeys.mpr ⟨?_, absent⟩
  by_contra unrecorded
  have outside : key ∉ resultKeys results := by
    rw [carried.resultKeys_eq, mem_append, not_or]
    exact ⟨absent, fun inside => unrecorded (mem_goneKeys.mp inside).1⟩
  rw [← AList.lookup_isSome, carried.applies.lookup_of_not_mem outside,
    AList.lookup_isSome] at recorded
  exact unrecorded recorded

lemma delete_next_iff (ref : ResourceRef) :
    (∃ step ∈ planSteps run'.state ordered hashes, step.ref = ref ∧ step.op = .delete) ↔
      ∃ res ∈ results, res.step.ref = ref ∧ res.step.op = .delete ∧
        res.status = .failed := by
  have live (st : State) (pair : Resource I × Bytes) :
      (liveStep st pair.1 pair.2).op ≠ .delete := planOp_ne_delete _ _ _
  -- The delete of one key, in both directions.
  have decides {key : Bytes} (gone : key ∈ goneKeys run.state ordered) :
      ∃ res ∈ results, res.step = deleteStep true key ∧
        (key ∈ run'.state ↔ res.status = .failed) := by
    obtain ⟨res, recorded, same, before, after, outcome, first, last⟩ :=
      exists_result carried (mem_planSteps.mpr (.inr ⟨key, gone, rfl⟩))
    have inside := (mem_goneKeys.mp gone).1
    have isKey : (deleteStep true key : Step I).ref.key = key :=
      key_parseStateKey (carried.slashes key inside)
    rw [isKey] at first last
    exact ⟨res, recorded, same,
      mem_next_of_delete inside (carried.slashes key inside) outcome first last⟩
  constructor
  · rintro ⟨step, mem, rfl, delete⟩
    rcases mem_planSteps.mp mem with ⟨pair, -, rfl⟩ | ⟨key, gone, rfl⟩
    · exact absurd delete (live _ pair)
    · obtain ⟨res, recorded, same, failed⟩ := decides (goneKeys_subset carried gone)
      exact ⟨res, recorded, by rw [same], by rw [same]; rfl, failed.mp (mem_goneKeys.mp gone).1⟩
  · rintro ⟨res, recorded, rfl, delete, failed⟩
    have planned : res.step ∈ planSteps run.state ordered hashes :=
      carried.steps ▸ mem_map_of_mem recorded
    rcases mem_planSteps.mp planned with ⟨pair, -, step⟩ | ⟨key, gone, step⟩
    · exact absurd delete (step ▸ live _ pair)
    · obtain ⟨res', recorded', same, decided⟩ := decides gone
      obtain rfl := result_unique carried recorded' recorded (by rw [same, step])
      refine ⟨deleteStep true key, mem_planSteps.mpr (.inr ⟨key, ?_, rfl⟩), by rw [step], rfl⟩
      exact mem_goneKeys.mpr ⟨decided.mpr failed, (mem_goneKeys.mp gone).2⟩

omit carried in
lemma not_isOpen_of_counts (failed : results.countP (fun res => res.status = .failed) = 0)
    (skipped : results.countP (fun res => res.status = .skipped) = 0) :
    ∀ res ∈ results, ¬res.status.isOpen := by
  rintro res inside (isFailed | isSkipped)
  · exact countP_eq_zero.mp failed res inside (by simpa using isFailed)
  · exact countP_eq_zero.mp skipped res inside (by simpa using isSkipped)

end Converge

/-- After any `Apply` the same resources can be planned again.  When nothing failed or was
skipped the new plan has nothing to do; in general it creates or updates exactly the
resources whose steps failed or were skipped and deletes exactly what could not be
deleted. -/
theorem apply_converges {rs : List (Resource I)} {st : State} {plan : Plan I}
    {opts : ApplyOptions I W E} {world : W} {run : Run I W E}
    (planned : buildPlan hashInputs rs st true = .ok plan)
    (slashes : ∀ key ∈ st, 47 ∈ key) (applied : apply plan opts st world = .ok run) :
    ∃ next, buildPlan hashInputs rs run.state true = .ok next ∧
      (run.result.failed = 0 → run.result.skipped = 0 → ∀ step ∈ next.steps, step.op = .noop) ∧
      (∀ ref, (∃ step ∈ next.steps, step.ref = ref ∧ step.op.isChange) ↔
        ∃ result ∈ run.result.results, result.step.ref = ref ∧ result.step.op.isChange ∧
          result.status.isOpen) ∧
      ∀ ref, (∃ step ∈ next.steps, step.ref = ref ∧ step.op = .delete) ↔
        ∃ result ∈ run.result.results, result.step.ref = ref ∧ result.step.op = .delete ∧
          result.status = .failed := by
  obtain ⟨ordered, hashes, sorted, hashing, steps, unblocked, plans⟩ := buildPlan_ok planned
  obtain ⟨next, replanned, nextSteps⟩ := plans run.state
  have length := hashing.length_eq
  obtain ⟨nodup, perm, -⟩ := topoSort_ok sorted
  rw [apply, if_neg (by omega)] at applied
  obtain ⟨results, resultSteps, recorded, failed, skipped, applies⟩ := applySteps_ok applied
  rw [steps] at resultSteps
  have carried : Carried opts ordered hashes _ run results :=
    ⟨applies, resultSteps, (perm.map Resource.key).nodup_iff.mpr nodup, length, slashes⟩
  have changes := change_next_iff carried
  have deletes := delete_next_iff carried
  have isResults : run.result.results = results := recorded
  refine ⟨next, replanned, ?_⟩
  rw [isResults, nextSteps]
  refine ⟨?_, changes, deletes⟩
  intro noneFailed noneSkipped step member
  simp only [Run.start] at failed skipped
  have closed : ∀ result ∈ results, ¬result.status.isOpen :=
    not_isOpen_of_counts (by omega) (by omega)
  have noChange : ¬step.op.isChange := fun change => by
    obtain ⟨result, inside, -, -, isOpen⟩ := (changes step.ref).mp ⟨step, member, rfl, change⟩
    exact closed result inside isOpen
  have noDelete : step.op ≠ .delete := fun delete => by
    obtain ⟨result, inside, -, -, isFailed⟩ := (deletes step.ref).mp ⟨step, member, rfl, delete⟩
    exact closed result inside (.inl isFailed)
  rcases mem_planSteps.mp member with ⟨pair, -, rfl⟩ | ⟨key, -, rfl⟩
  · rcases planOp_cases run.state pair.1.key pair.2 with ⟨noop, -⟩ | change
    · exact noop
    · exact absurd change noChange
  · exact absurd rfl noDelete

/-- A provider that can only update. -/
def updating : Provider Bytes Unit Unit where
  create _ _ _ world := (.error (), world)
  update _ _ _ world := (.ok ∅, world)
  delete _ _ world := (.error (), world)

def game : Resource Bytes := ⟨str "game", str "g", [], str "new"⟩

def badge : Resource Bytes := ⟨str "badge", str "b", [game.ref], str "b"⟩

def badgeIcon : Resource Bytes := ⟨str "icon", str "i", [badge.ref], str "i"⟩

/-- What an earlier run has left: the game with other inputs, and a pass that is gone. -/
def recordedBefore : State :=
  AList.insert game.key ⟨str "old", ∅⟩ (AList.insert (str "pass/p") ⟨str "p", ∅⟩ ∅)

def plainHash : Bytes → Except Unit Bytes := .ok

lemma badge_planned : buildPlan plainHash [badgeIcon, badge, game] recordedBefore true = .ok
    ⟨[⟨.update, game.ref, some game, str "new"⟩, ⟨.create, badge.ref, some badge, str "b"⟩,
      ⟨.create, badgeIcon.ref, some badgeIcon, str "i"⟩,
      ⟨.delete, ⟨str "pass", str "p"⟩, none, []⟩], 2, 1, 1, 0, 0⟩ := rfl

/-- The game is updated, its badge is refused and the icon of the badge is skipped, and the pass
cannot be deleted. -/
theorem apply_converges_refused : ∃ plan run next,
    buildPlan plainHash [badgeIcon, badge, game] recordedBefore true = .ok plan ∧
      apply plan ⟨fun _ => some updating, none⟩ recordedBefore () = .ok run ∧
      buildPlan plainHash [badgeIcon, badge, game] run.state true = .ok next ∧
      (∀ changed ∈ [badge, badgeIcon],
        ∃ step ∈ next.steps, step.ref = changed.ref ∧ step.op.isChange) ∧
      (¬∃ step ∈ next.steps, step.ref = game.ref ∧ step.op.isChange) ∧
      ∃ step ∈ next.steps, step.ref = ⟨str "pass", str "p"⟩ ∧ step.op = .delete := by
  obtain ⟨next, replanned, -, changes, deletes⟩ := apply_converges badge_planned (by decide)
    (show apply _ ⟨fun _ => some updating, none⟩ recordedBefore () = .ok _ from rfl)
  refine ⟨_, _, next, badge_planned, rfl, replanned, ?_, ?_, ?_⟩
  · intro changed member
    rw [changes]
    obtain rfl | rfl : changed = badge ∨ changed = badgeIcon := by simpa using member
    · exact ⟨_, .tail _ (.head _), rfl, .inl rfl, .inl rfl⟩
    · exact ⟨_, .tail _ (.tail _ (.head _)), rfl, .inl rfl, .inr rfl⟩
  · rw [changes]
    rintro ⟨result, member, same, _, isOpen⟩
    rcases member with _ | ⟨_, _ | ⟨_, _ | ⟨_, _ | ⟨_, member⟩⟩⟩⟩
    · obtain failed | skipped := isOpen
      · cases failed
      · cases skipped
    · exact absurd same (by decide)
    · exact absurd same (by decide)
    · exact absurd same (by decide)
    · cases member
  · rw [deletes]
    exact ⟨_, .tail _ (.tail _ (.tail _ (.head _))), rfl, rfl, rfl⟩

end Rotor.Deploy
