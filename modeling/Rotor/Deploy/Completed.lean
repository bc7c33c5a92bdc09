import Rotor.Deploy.Converge

/-!
A run in which every step goes through: what becomes of the resources of the configuration
and of everything else that was recorded.
-/

namespace Rotor.Deploy

open List

variable {I W E HashErr : Type} {hashInputs : I → Except HashErr Bytes}
  {opts : ApplyOptions I W E} {rs ordered : List (Resource I)}
  {hashes : List Bytes} {st : State} {run run' : Run I W E}
  {results : List (StepResult I E)}

lemma buildPlan_unblocked {allowDeletes : Bool} {plan : Plan I}
    (planned : buildPlan hashInputs rs st allowDeletes = .ok plan)
    (unblocked : plan.blockedDeletes = 0) :
    ∃ plan', buildPlan hashInputs rs st true = .ok plan' ∧ plan'.steps = plan.steps := by
  cases allowDeletes with
  | true => exact ⟨plan, planned, rfl⟩
  | false =>
    rw [buildPlan] at planned ⊢
    cases sorted : topoSort rs with
    | error error => simp [sorted] at planned
    | ok ordered =>
      cases hashing : liveSteps hashInputs st ordered with
      | error error => simp [sorted, hashing] at planned
      | ok live =>
        simp only [sorted, hashing, Except.ok.injEq] at planned ⊢
        subst planned
        refine ⟨_, rfl, ?_⟩
        have none : goneKeys st ordered = [] := by simpa using unblocked
        simp [none]

/-- What a run without failures does with a resource of the configuration.  When the
provider is called, the outputs of the resource's dependencies are final. -/
inductive Live (opts : ApplyOptions I W E) (st : State) (run : Run I W E)
    (resource : Resource I) (hash : Bytes) : Prop
  | kept : planOp st resource.key hash = .noop →
      run.state.lookup resource.key = st.lookup resource.key → Live opts st run resource hash
  | renewed {before : Run I W E} {provider outputs world} :
      (planOp st resource.key hash).isChange → opts.providers resource.kind = some provider →
      (if planOp st resource.key hash = .create then provider.create else provider.update)
        before.state resource.inputs (st.lookup resource.key) before.world = (.ok outputs, world) →
      run.state.lookup resource.key = some ⟨hash, mergedOutputs (st.lookup resource.key) outputs⟩ →
      (∀ dep ∈ resource.dependsOn, before.state.lookup dep.key = run.state.lookup dep.key) →
      Live opts st run resource hash

lemma resultKeys_front {front back : List (StepResult I E)}
    {res : StepResult I E} {ahead behind : List (Resource I)}
    {resource : Resource I} {gone : List Bytes}
    (keys : resultKeys (front ++ res :: back) =
      (ahead ++ resource :: behind).map Resource.key ++ gone)
    (nodup : (resultKeys (front ++ res :: back)).Nodup)
    (same : res.step.ref.key = resource.key) :
    resultKeys front = ahead.map Resource.key := by
  have keys' : resultKeys front ++ resource.key :: resultKeys back =
      ahead.map Resource.key ++ resource.key :: (behind.map Resource.key ++ gone) := by
    simpa [resultKeys, same] using keys
  rw [resultKeys, map_append, map_cons, nodup_append] at nodup
  obtain ⟨-, behind, apart⟩ := nodup
  rw [same, nodup_cons] at behind
  refine ((append_cons_inj_of_notMem ?_ behind.1).mp keys').1
  intro inside
  exact apart _ inside _ (by simp [same]) rfl

lemma live_of_carried (carried : Carried opts ordered hashes run run' results)
    (sorted : topoSort rs = .ok ordered) (closed : ∀ res ∈ results, ¬res.status.isOpen)
    {resource : Resource I} {hash : Bytes} (mem : (resource, hash) ∈ ordered.zip hashes) :
    Live opts run.state run' resource hash := by
  have keys := carried.resultKeys_eq
  have nodupKeys := carried.nodup
  have planned : liveStep run.state resource hash ∈ results.map StepResult.step :=
    carried.steps ▸ mem_planSteps.mpr (.inl ⟨(resource, hash), mem, rfl⟩)
  obtain ⟨res, inside, isStep⟩ := mem_map.mp planned
  obtain ⟨front, back, rfl⟩ := append_of_mem inside
  obtain ⟨before, after, applied, outcome, applied'⟩ := carried.applies.split
  have isKey : res.step.ref.key = resource.key := by
    rw [isStep]
    rfl
  have apart := nodupKeys
  simp only [resultKeys, map_append, map_cons, nodup_append, nodup_cons, mem_cons] at apart
  obtain ⟨-, ⟨behind, -⟩, ahead⟩ := apart
  have first : before.state.lookup resource.key = run.state.lookup resource.key :=
    applied.lookup_of_not_mem fun inside => ahead _ inside _ (.inl rfl) isKey.symm
  have last : run'.state.lookup resource.key = after.state.lookup resource.key :=
    applied'.lookup_of_not_mem (isKey ▸ behind)
  have final : ∀ dep ∈ resource.dependsOn,
      before.state.lookup dep.key = run'.state.lookup dep.key := by
    intro dep depends
    obtain ⟨front', back', isOrdered⟩ := append_of_mem (of_mem_zip mem).1
    have inFront : dep.key ∈ resultKeys front := by
      rw [resultKeys_front (isOrdered ▸ keys) nodupKeys isKey]
      exact (topoSort_ok sorted).2.2 front' resource back' isOrdered dep depends
    refine ((Applies.cons outcome applied').lookup_of_not_mem fun behind => ?_).symm
    exact ahead _ inFront _ (mem_cons.mp behind) rfl
  have notOpen := closed res (by simp)
  rw [isStep] at outcome
  generalize res.status = status at outcome notOpen
  cases outcome with
  | unchanged noop same => exact .kept noop (by rw [last, same, first])
  | @changed provider _ outputs world change known isResource called same =>
    obtain rfl := Option.some.inj isResource
    refine @Live.renewed _ _ _ _ _ _ _ _ before provider outputs world change known ?_ ?_ final
    · rw [← first]
      exact called
    · rw [last, same, ← first]
      exact AList.lookup_insert _
  | forgotten delete | deleted delete => exact absurd delete (planOp_ne_delete _ _ _)
  | skipped => exact absurd (.inr rfl) notOpen
  | failed => exact absurd (.inl rfl) notOpen

lemma lookup_eq_none_of_carried (carried : Carried opts ordered hashes run run' results)
    (closed : ∀ res ∈ results, ¬res.status.isOpen)
    {key : Bytes} (absent : key ∉ ordered.map Resource.key) : run'.state.lookup key = none := by
  rw [AList.lookup_eq_none]
  intro left
  have gone : key ∈ goneKeys run.state ordered :=
    goneKeys_subset carried (mem_goneKeys.mpr ⟨left, absent⟩)
  obtain ⟨inside, -⟩ := mem_goneKeys.mp gone
  obtain ⟨res, recorded, -, before, after, outcome, first, last⟩ :=
    exists_result carried (mem_planSteps.mpr (.inr ⟨key, gone, rfl⟩))
  have isKey : (deleteStep true key : Step I).ref.key = key :=
    key_parseStateKey (carried.slashes key inside)
  rw [isKey] at first last
  have failed := (mem_next_of_delete inside (carried.slashes key inside) outcome first last).mp left
  exact closed res recorded (.inl failed)

structure Completed (hashInputs : I → Except HashErr Bytes)
    (opts : ApplyOptions I W E) (rs : List (Resource I)) (st : State)
    (world : W) (run : Run I W E) (results : List (StepResult I E)) :
    Prop where
  applies : Applies opts (Run.start st world) results run
  nodup : (resultKeys results).Nodup
  closed : ∀ result ∈ results, ¬result.status.isOpen
  keys : (rs.map Resource.key).Nodup
  /-- The steps that change a resource are those of the configuration. -/
  change : ∀ result ∈ results, result.step.op.isChange → ∃ resource ∈ rs,
    ∃ hash, hashInputs resource.inputs = .ok hash ∧ result.step = liveStep st resource hash
  live : ∀ resource ∈ rs, ∃ hash, hashInputs resource.inputs = .ok hash ∧
    Live opts st run resource hash ∧ ∃ result ∈ results, result.step = liveStep st resource hash
  gone : ∀ key, key ∉ rs.map Resource.key → run.state.lookup key = none
  dependencies : ∀ resource ∈ rs, ∀ dep ∈ resource.dependsOn, dep.key ∈ rs.map Resource.key

lemma completed_of_apply {allowDeletes : Bool} {plan : Plan I} {world : W}
    (planned : buildPlan hashInputs rs st allowDeletes = .ok plan)
    (slashes : ∀ key ∈ st, 47 ∈ key) (applied : apply plan opts st world = .ok run)
    (noneFailed : run.result.failed = 0) (noneSkipped : run.result.skipped = 0) :
    ∃ results, Completed hashInputs opts rs st world run results := by
  rw [apply] at applied
  split at applied
  · cases applied
  · next unblocked =>
      obtain ⟨plan', planned', sameSteps⟩ := buildPlan_unblocked planned (by omega)
      obtain ⟨ordered, hashes, sorted, hashing, steps, -, -⟩ := buildPlan_ok planned'
      have length := hashing.length_eq
      obtain ⟨keys, perm, deps⟩ := topoSort_ok sorted
      obtain ⟨results, resultSteps, recorded, failed, skipped, applies⟩ := applySteps_ok applied
      have planSteps' : results.map StepResult.step = planSteps st ordered hashes := by
        rw [resultSteps, ← sameSteps, steps, planSteps]
      have carried : Carried opts ordered hashes _ run results :=
        ⟨applies, planSteps', (perm.map Resource.key).nodup_iff.mpr keys, length, slashes⟩
      have hashed : ∀ pair ∈ ordered.zip hashes, hashInputs pair.1.inputs = .ok pair.2 :=
        fun pair mem => (List.forall₂_iff_zip.mp hashing).2 mem
      simp only [Run.start] at failed skipped
      have closed : ∀ res ∈ results, ¬res.status.isOpen :=
        not_isOpen_of_counts (by omega) (by omega)
      have inOrder (key : Bytes) : key ∈ ordered.map Resource.key ↔ key ∈ rs.map Resource.key :=
        (perm.map Resource.key).mem_iff
      refine ⟨results, applies, carried.nodup, closed, keys, ?_, ?_, ?_, ?_⟩
      · intro res inside change
        have isPlanned : res.step ∈ planSteps st ordered hashes :=
          planSteps' ▸ mem_map_of_mem inside
        rcases mem_planSteps.mp isPlanned with ⟨pair, mem, isStep⟩ | ⟨key, -, isStep⟩
        · exact ⟨pair.1, perm.mem_iff.mp (of_mem_zip mem).1, pair.2, hashed pair mem, isStep.symm⟩
        · simp [← isStep, deleteStep, Op.isChange] at change
      · intro resource inside
        have inZip : resource ∈ (ordered.zip hashes).map Prod.fst := by
          rw [map_fst_zip length.le]
          exact perm.mem_iff.mpr inside
        obtain ⟨⟨resource, hash⟩, mem, rfl⟩ := mem_map.mp inZip
        have isPlanned : liveStep st resource hash ∈ results.map StepResult.step :=
          planSteps' ▸ mem_planSteps.mpr (.inl ⟨_, mem, rfl⟩)
        obtain ⟨res, recorded, isStep⟩ := mem_map.mp isPlanned
        exact ⟨hash, hashed _ mem, live_of_carried carried sorted closed mem, res, recorded, isStep⟩
      · intro key absent
        exact lookup_eq_none_of_carried carried closed (mt (inOrder key).mp absent)
      · intro resource inside dep depends
        obtain ⟨front, back, isOrdered⟩ := append_of_mem (perm.mem_iff.mpr inside)
        have ahead := deps front resource back isOrdered dep depends
        rw [← inOrder, isOrdered, map_append]
        exact mem_append_left _ ahead

end Rotor.Deploy
