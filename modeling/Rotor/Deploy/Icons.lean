import Rotor.Deploy.Uploads

/-!
The icons of badges and game passes after a sequence of deployments.

An upload has a new id.  So the id that a badge or a game pass has recorded is the right
one exactly when the upload it was copied from is the icon's last one.
-/

namespace Rotor.Deploy

variable {W E : Type}

/-! ### New ids -/

section Fresh

variable {hashInputs : Inputs → Except E Bytes} {c : Ctx W E}
  {opts : ApplyOptions Inputs W (CallError E)} {issued : W → Set Int}
  {before after first final : Run Inputs W (CallError E)}
  {step : Step Inputs} {status : StepStatus}
  {results : List (StepResult Inputs (CallError E))}

def SavesGrow (opts : ApplyOptions Inputs W (CallError E)) (issued : W → Set Int) :
    Prop := ∀ save ∈ opts.saveState, ∀ st world, Grows issued world (save st world).2

lemma Saves.grows (grow : SavesGrow opts issued) {st : State} {world world' : W}
    (saves : Saves opts st world world') : Grows issued world world' := by
  rw [Saves] at saves
  split at saves
  · subst saves
    exact refl _
  · next save isSave =>
      have grown := grow save isSave st world
      rwa [saves] at grown

lemma providerKeeps_of_known (fresh : FreshCloud c.cloud issued)
    (providers : ∀ kind, opts.providers kind = (defaultProviders c).lookup kind) {kind : Bytes}
    {provider : Provider Inputs W (CallError E)} (known : opts.providers kind = some provider) :
    ProviderKeeps (Grows issued) provider := by
  rw [providers, List.lookup_eq_some_iff] at known
  obtain ⟨front, back, whole, -⟩ := known
  refine defaultProviders_keep fresh.call (kind, provider) ?_
  rw [whole]
  simp

lemma Outcome.grows (fresh : FreshCloud c.cloud issued) (grow : SavesGrow opts issued)
    (providers : ∀ kind, opts.providers kind = (defaultProviders c).lookup kind)
    (outcome : Outcome opts before after step status) (notOpen : ¬status.isOpen) :
    Grows issued before.world after.world := by
  cases outcome with
  | unchanged _ _ same => rw [same]; exact refl _
  | @changed _ resource _ _ _ known _ called _ saves =>
    have keeps := providerKeeps_of_known fresh providers known
    refine trans_of (Grows issued) ?_ (saves.grows grow)
    split at called
    · have kept := keeps.create before.state resource.inputs
        (before.state.lookup step.ref.key) before.world
      rwa [called] at kept
    · have kept := keeps.update before.state resource.inputs
        (before.state.lookup step.ref.key) before.world
      rwa [called] at kept
  | forgotten _ _ _ saves => exact saves.grows grow
  | deleted _ known called _ saves =>
    have keeps := (providerKeeps_of_known fresh providers known).delete before.state
      (before.state.lookup step.ref.key) before.world
    rw [called] at keeps
    exact trans_of (Grows issued) keeps (saves.grows grow)
  | skipped => exact absurd (.inr rfl) notOpen
  | failed => exact absurd (.inl rfl) notOpen

variable (fresh : FreshCloud c.cloud issued) (grow : SavesGrow opts issued)
  (providers : ∀ kind, opts.providers kind = (defaultProviders c).lookup kind)

include fresh grow providers

lemma Applies.grows (applies : Applies opts first results final)
    (closed : ∀ res ∈ results, ¬res.status.isOpen) :
    Grows issued first.world final.world := by
  induction applies with
  | nil => exact refl _
  | cons outcome _ ih =>
    exact trans_of (Grows issued) (outcome.grows fresh grow providers (closed _ (.head _)))
      (ih fun res mem => closed res (.tail _ mem))

structure IsUpload (step : Step Inputs) : Prop where
  change : step.op.isChange
  asset : ∃ resource, step.resource = some resource ∧ step.ref = resource.ref ∧
    Wired resource ∧ resource.kind = kindAsset

lemma Outcome.assetID_new (outcome : Outcome opts before after step status)
    (notOpen : ¬status.isOpen) (upload : IsUpload step) :
    assetID after.state step.ref.name ∉ issued before.world ∧
      assetID after.state step.ref.name ∈ issued after.world := by
  obtain ⟨resource, isResource, isRef, wired, kind⟩ := upload.asset
  cases outcome with
  | unchanged noop => exact absurd (noop ▸ upload.change) not_isChange_noop
  | @changed _ _ outputs _ _ known isResource' called same saves =>
    obtain rfl : resource = _ := Option.some.inj (isResource.symm.trans isResource')
    have isKind : step.ref.kind = resource.kind := congrArg ResourceRef.kind isRef
    rw [isKind, providers] at known
    obtain ⟨id, rfl, isFresh⟩ := asset_call_ok wired kind known _ called
    have isID : assetID after.state step.ref.name = id := by
      have entry : after.state.lookup step.ref.key =
          some ⟨step.inputsHash, mergedOutputs (before.state.lookup step.ref.key)
            (oneOutput (str "assetId") (.int id))⟩ := by
        rw [same]
        exact AList.lookup_insert _
      have isAsset : (⟨kindAsset, step.ref.name⟩ : ResourceRef) = step.ref := by
        rw [← kind, ← isKind]
      rw [assetID, isAsset, output_renewed entry, lookup_oneOutput]
      rfl
    obtain ⟨new, given⟩ := isFresh issued fresh
    rw [isID]
    exact ⟨new, saves.grows grow given⟩
  | forgotten delete | deleted delete =>
    have change := upload.change
    simp [delete, Op.isChange] at change
  | skipped => exact absurd (.inr rfl) notOpen
  | failed => exact absurd (.inl rfl) notOpen

/-- The ids of the uploads of a run are new, and no two of them are the same. -/
theorem Applies.assetID_new (applies : Applies opts first results final)
    (nodup : (resultKeys results).Nodup) (closed : ∀ res ∈ results, ¬res.status.isOpen) :
    (∀ res ∈ results, IsUpload res.step →
      assetID final.state res.step.ref.name ∉ issued first.world ∧
        assetID final.state res.step.ref.name ∈ issued final.world) ∧
    ∀ res ∈ results, ∀ res' ∈ results, IsUpload res.step → IsUpload res'.step →
      assetID final.state res.step.ref.name = assetID final.state res'.step.ref.name →
      res = res' := by
  induction applies with
  | nil => simp
  | @cons first middle final res results outcome rest ih =>
    obtain ⟨behind, nodup⟩ := List.nodup_cons.mp nodup
    have closed' := fun res mem => closed res (.tail _ mem)
    obtain ⟨new, distinct⟩ := ih nodup closed'
    have grows := outcome.grows fresh grow providers (closed res (.head _))
    have grows' := rest.grows fresh grow providers closed'
    -- The id of the first step's icon is not touched by the others.
    have head (upload : IsUpload res.step) :
        assetID final.state res.step.ref.name ∉ issued first.world ∧
          assetID final.state res.step.ref.name ∈ issued middle.world := by
      have same : assetID final.state res.step.ref.name =
          assetID middle.state res.step.ref.name := by
        obtain ⟨resource, -, isRef, -, kind⟩ := upload.asset
        have isAsset : (⟨kindAsset, res.step.ref.name⟩ : ResourceRef) = res.step.ref := by
          rw [← kind, show resource.kind = res.step.ref.kind from
            congrArg ResourceRef.kind isRef.symm]
        rw [assetID, assetID, isAsset, output_eq_of_lookup_eq (rest.lookup_of_not_mem behind)]
      rw [same]
      exact outcome.assetID_new fresh grow providers (closed res (.head _)) upload
    refine ⟨?_, ?_⟩
    · intro other mem upload
      rcases List.mem_cons.mp mem with rfl | inside
      · exact ⟨(head upload).1, grows' (head upload).2⟩
      · exact ⟨fun old => (new other inside upload).1 (grows old), (new other inside upload).2⟩
    · intro one mem two mem' upload upload' same
      rcases List.mem_cons.mp mem with rfl | inside
      · rcases List.mem_cons.mp mem' with rfl | inside'
        · rfl
        · exact absurd (same ▸ (head upload).2) (new two inside' upload').1
      · rcases List.mem_cons.mp mem' with rfl | inside'
        · exact absurd (same ▸ (head upload').2) (new one inside upload).1
        · exact distinct one inside two inside' upload upload' same

/-- The uploads so far have ids that were given out, each one its own. -/
structure Distinct (hashInputs : Inputs → Except E Bytes)
    (past : List (List (Resource Inputs))) (ids : Bytes × Nat → Int) (given : Set Int) :
    Prop where
  given : ∀ upload, Uploaded hashInputs past upload → ids upload ∈ given
  injective : ∀ upload upload', Uploaded hashInputs past upload →
    Uploaded hashInputs past upload' → ids upload = ids upload' → upload = upload'

lemma Distinct.next {past : List (List (Resource Inputs))} {rs : List (Resource Inputs)}
    {st : State} {world : W} {ids : Bytes × Nat → Int} (wired : AllWired rs)
    (completed : Completed hashInputs opts rs st world final results)
    (tracks : Tracks hashInputs past st ids)
    (distinct : Distinct hashInputs past ids (issued world)) :
    Distinct hashInputs (rs :: past) (extendIds ids past.length final.state)
      (issued final.world) := by
  have grows := completed.applies.grows fresh grow providers completed.closed
  obtain ⟨new, apart⟩ :=
    completed.applies.assetID_new fresh grow providers completed.nodup completed.closed
  -- An upload of this deployment is a step of it.
  have step {icon : Bytes} {asset : Resource Inputs} (found : byKey rs (assetKey icon) = some asset)
      (renewed : changed hashInputs past asset) :
      ∃ res ∈ results, IsUpload res.step ∧ res.step.ref = ⟨kindAsset, icon⟩ := by
    obtain ⟨inside, -⟩ := byKey_eq_some found
    have isRef := ref_of_assetKey wired found
    obtain ⟨hash, hashed, -, res, recorded, isStep⟩ := completed.live asset inside
    have change : (planOp st asset.key hash).isChange := by
      rcases planOp_cases st asset.key hash with ⟨noop, -⟩ | change
      · rw [(tracks.planOp_eq_noop_iff hashed).mp noop] at renewed
        cases renewed
      · exact change
    refine ⟨res, recorded, ?_, by rw [isStep, ← isRef]; rfl⟩
    rw [isStep]
    exact ⟨change, asset, rfl, rfl, wired asset inside, congrArg ResourceRef.kind isRef⟩
  have isNew {upload : Bytes × Nat} {asset : Resource Inputs} (now : upload.2 = past.length)
      (found : byKey rs (assetKey upload.1) = some asset)
      (renewed : changed hashInputs past asset) :
      extendIds ids past.length final.state upload ∉ issued world ∧
        extendIds ids past.length final.state upload ∈ issued final.world := by
    obtain ⟨res, inside, isUpload, isRef⟩ := step found renewed
    have isNew := new res inside isUpload
    rw [isRef] at isNew
    rw [extendIds, if_pos now]
    exact isNew
  have isOld {upload : Bytes × Nat} (uploaded : Uploaded hashInputs past upload) :
      extendIds ids past.length final.state upload ∈ issued world := by
    rw [extendIds_of_uploaded uploaded]
    exact distinct.given upload uploaded
  refine ⟨?_, ?_⟩
  · rintro upload (⟨now, asset, found, renewed⟩ | earlier)
    · exact (isNew now found renewed).2
    · exact grows (isOld earlier)
  · rintro upload upload' (⟨now, asset, found, renewed⟩ | earlier)
      (⟨now', asset', found', renewed'⟩ | earlier') same
    · obtain ⟨res, inside, isUpload, isRef⟩ := step found renewed
      obtain ⟨res', inside', isUpload', isRef'⟩ := step found' renewed'
      rw [extendIds, extendIds, if_pos now, if_pos now'] at same
      obtain rfl := apart res inside res' inside' isUpload isUpload'
        (by rw [isRef, isRef']; exact same)
      have names : upload.1 = upload'.1 := congrArg ResourceRef.name (isRef.symm.trans isRef')
      exact Prod.ext names (now.trans now'.symm)
    · exact absurd (same ▸ isOld earlier') (isNew now found renewed).1
    · exact absurd (same ▸ isOld earlier) (isNew now' found' renewed').1
    · rw [extendIds_of_uploaded earlier, extendIds_of_uploaded earlier'] at same
      exact distinct.injective upload upload' earlier earlier' same

end Fresh

/-! ### Dependents and their icons -/

/-- The recorded icon of a badge or a game pass is that of the asset it declares; without a
declared icon there is none. -/
def IconFollows (st : State) (dep : Resource Inputs) : Prop :=
  if iconOf dep.inputs = [] then output st dep.ref (str "iconAssetId") = none
  else (output st ⟨kindAsset, iconOf dep.inputs⟩ (str "assetId")).isSome ∧
    output st dep.ref (str "iconAssetId") = output st ⟨kindAsset, iconOf dep.inputs⟩ (str "assetId")

instance (st : State) (dep : Resource Inputs) : Decidable (IconFollows st dep) :=
  inferInstanceAs (Decidable (if iconOf dep.inputs = [] then _ else _ ∧ _))

/-- The upload that was copied last is the last upload of the icon; without a declared icon
none was ever copied. -/
def IconCurrent (hashInputs : Inputs → Except E Bytes)
    (past : List (List (Resource Inputs))) (dep : Resource Inputs) : Prop :=
  iconSource hashInputs past dep.key =
    if iconOf dep.inputs = [] then none
    else lastUpload hashInputs past (iconOf dep.inputs)

/-- Neither calls nor saving take ids back, and uploads get new ones. -/
structure Fresh (target : Target W E) (issued : W → Set Int) : Prop where
  cloud : FreshCloud target.cloud issued
  save : ∀ save ∈ target.saveState, ∀ st world, Grows issued world (save st world).2

lemma Target.deploy_eq_some {target : Target W E} {deployment : Deployment E} {st : State}
    {world : W} {rs : List (Resource Inputs)} {run : Run Inputs W (CallError E)}
    (slashes : ∀ key ∈ st, 47 ∈ key)
    (deployed : target.deploy deployment st world = some (rs, run)) :
    AllWired rs ∧ ∃ universeID results, Completed target.hashInputs
      (target.options deployment universeID) rs st world run results := by
  rw [Target.deploy] at deployed
  split at deployed
  · cases deployed
  · next universeID built =>
      split at deployed
      · cases deployed
      · next planned =>
          split at deployed
          · cases deployed
          · next applied =>
              split at deployed
              · next counts =>
                  cases deployed
                  exact ⟨buildResources_wired built, universeID,
                    completed_of_apply planned slashes applied counts.1 counts.2⟩
              · cases deployed

lemma Target.tracks_of_deployAll {target : Target W E} {start : W}
    {deployments : List (Deployment E)} {past : List (List (Resource Inputs))} {st : State}
    {world : W} (deployed : target.deployAll start deployments = some (past, st, world)) :
    ∃ ids, Tracks target.hashInputs past st ids ∧
      (∀ issued, Fresh target issued → Distinct target.hashInputs past ids (issued world)) ∧
      ∀ dep ∈ latest past, iconOf dep.inputs ≠ [] →
        ∃ asset, byKey (latest past) (assetKey (iconOf dep.inputs)) = some asset := by
  induction deployments generalizing past st world with
  | nil =>
    cases deployed
    refine ⟨fun _ => 0, ⟨?_, ?_, ?_, ?_⟩, ?_, ?_⟩
    · simp [AllWired, latest]
    · intro key
      rfl
    · rintro icon asset ⟨⟩
    · rintro resource ⟨⟩
    · exact fun issued fresh => ⟨fun upload => False.elim, fun upload upload' => False.elim⟩
    · rintro resource ⟨⟩
  | cons deployment earlier ih =>
    rw [Target.deployAll] at deployed
    split at deployed
    · cases deployed
    · next before =>
        obtain ⟨ids, tracks, distinct, -⟩ := ih before
        split at deployed
        · cases deployed
        · next now =>
            cases deployed
            obtain ⟨wired, universeID, results, completed⟩ :=
              Target.deploy_eq_some tracks.slashes now
            refine ⟨_, Tracks.next (fun _ => rfl) wired completed tracks, ?_, ?_⟩
            · intro issued fresh
              have saves : SavesGrow (target.options deployment universeID) issued := fresh.save
              exact Distinct.next fresh.cloud saves (fun _ => rfl) wired completed tracks
                (distinct issued fresh)
            · intro dep inside icon
              obtain ⟨-, asset, found⟩ := completed.asset_of_icon (wired dep inside) inside icon
              exact ⟨asset, found⟩

/-- After any sequence of deployments, a badge or a game pass has the right icon if it copied
the icon's last upload, and, as uploads get new ids, only then. -/
theorem iconFollows_iff {target : Target W E} {start : W} {deployments : List (Deployment E)}
    {past : List (List (Resource Inputs))} {st : State} {world : W}
    (deployed : target.deployAll start deployments = some (past, st, world)) {dep : Resource Inputs}
    (inside : dep ∈ latest past) (kind : isDependentKind dep.kind) :
    (IconCurrent target.hashInputs past dep → IconFollows st dep) ∧
    ∀ issued, Fresh target issued →
      (IconFollows st dep ↔ IconCurrent target.hashInputs past dep) := by
  obtain ⟨ids, tracks, distinct, assets⟩ := Target.tracks_of_deployAll deployed
  have recorded := tracks.icon dep inside kind
  rw [IconFollows, IconCurrent]
  by_cases icon : iconOf dep.inputs = []
  · rw [if_pos icon, if_pos icon, recorded, Option.map_eq_none_iff]
    exact ⟨id, fun _ _ => Iff.rfl⟩
  · rw [if_neg icon, if_neg icon]
    obtain ⟨asset, found⟩ := assets dep inside icon
    obtain ⟨upload, isLast, isID⟩ := tracks.asset _ asset found
    rw [isLast, isID, recorded]
    simp only [Option.isSome_some, true_and, Option.map_eq_some_iff, Value.int.injEq]
    refine ⟨fun current => ⟨upload, current, rfl⟩, fun issued fresh =>
      ⟨?_, fun current => ⟨upload, current, rfl⟩⟩⟩
    rintro ⟨source, isSource, sameID⟩
    rw [isSource, (distinct issued fresh).injective source upload (uploaded_of_iconSource isSource)
      (uploaded_of_lastUpload isLast) sameID]

/-! ### A badge whose icon changes -/

def countingCloud (request : Request) (next : Int) : Except Unit request.Response × Int :=
  match request with
  | .pollOperation _ => (.ok next, next + 1)
  | .createAsset .. => (.ok ([] : Bytes), next)
  | .publishPlaceVersion .. | .createBadge .. | .createGamePass .. | .uploadUniverseIcon ..
  | .uploadUniverseThumbnail .. | .createDeveloperProduct .. | .createSocialLink .. =>
    (.ok (0 : Int), next)
  | .updateUniverse .. | .updatePlace .. | .updateBadge .. | .updateGamePass ..
  | .setUniverseThumbnailOrder .. | .deleteUniverseThumbnail .. | .updateDeveloperProduct ..
  | .updateSocialLink .. | .deleteSocialLink .. => (.ok (), next)

def countingTarget : Target Int Unit where
  cloud := countingCloud
  saveState := none
  hashInputs
    | .asset inputs => .ok (inputs.file ++ str "," ++ inputs.fileHash)
    | .badge inputs => .ok (inputs.name ++ str "," ++ inputs.icon)
    | _ => .ok []

/-- A configuration with one badge, and files that have this hash. -/
def badgeDeployment (icon fileHash : Bytes) : Deployment Unit where
  projectDir := str "/p"
  config :=
    { creator := some ⟨str "user", 1⟩
      environments := some ((∅ : AList fun _ : Bytes => Environment).insert (str "prod")
        { universeID := 1
          badges := (∅ : AList fun _ : Bytes => Badge).insert (str "b") ⟨str "B", [], icon⟩ }) }
  envName := str "prod"
  hashFile _ := .ok fileHash
  readFile _ := .ok []
  allowDeletes := true

lemma countingFresh : Fresh countingTarget fun next => {id | id < next} where
  cloud := by
    refine ⟨?_, ?_⟩
    · intro request next
      cases request
      case pollOperation path =>
        intro id given
        exact Int.lt_trans given (Int.lt_succ next)
      all_goals exact subset_rfl
    · intro request fileName body world path world' id world'' created polled
      cases created
      cases polled
      exact ⟨Int.lt_irrefl _, Int.lt_succ _⟩
  save := by
    rintro save ⟨⟩

def badgeAfter (deployments : List (Deployment Unit))
    (check : State → Resource Inputs → Bool) : Bool :=
  (countingTarget.deployAll 100 deployments).any fun (past, st, _) =>
    (latest past).any fun resource => resource.kind == kindBadge && check st resource

lemma exists_of_badgeAfter {deployments : List (Deployment Unit)}
    {check : State → Resource Inputs → Bool} (checked : badgeAfter deployments check) :
    ∃ past st world, countingTarget.deployAll 100 deployments = some (past, st, world) ∧
      ∃ badge ∈ latest past, isDependentKind badge.kind ∧ check st badge := by
  rw [badgeAfter] at checked
  cases deployed : countingTarget.deployAll 100 deployments with
  | none => simp [deployed] at checked
  | some res =>
    rw [deployed, Option.any_some] at checked
    obtain ⟨badge, inside, checked⟩ := List.any_eq_true.mp checked
    rw [Bool.and_eq_true, beq_iff_eq] at checked
    exact ⟨res.1, res.2.1, res.2.2, rfl, badge, inside, .inl checked.1, checked.2⟩

theorem iconFollows_unedited : ∃ past st world,
    countingTarget.deployAll 100 [badgeDeployment (str "i.png") (str "1"),
      badgeDeployment (str "i.png") (str "1")] = some (past, st, world) ∧
    ∃ badge ∈ latest past, IconFollows st badge ∧
      IconCurrent countingTarget.hashInputs past badge := by
  have evaluated : badgeAfter [badgeDeployment (str "i.png") (str "1"),
      badgeDeployment (str "i.png") (str "1")]
      (fun st badge => decide (IconFollows st badge)) = true := by decide +kernel
  obtain ⟨past, st, world, deployed, badge, inside, kind, checked⟩ := exists_of_badgeAfter evaluated
  have follows := of_decide_eq_true checked
  exact ⟨past, st, world, deployed, badge, inside, follows,
    ((iconFollows_iff deployed inside kind).2 _ countingFresh).mp follows⟩

def IconStale (deployments : List (Deployment Unit)) : Prop :=
  ∃ past st world, countingTarget.deployAll 100 deployments = some (past, st, world) ∧
    ∃ badge ∈ latest past, isDependentKind badge.kind ∧ ¬IconFollows st badge

lemma iconStale_of_badgeAfter {deployments : List (Deployment Unit)}
    (checked : badgeAfter deployments (fun st badge => !decide (IconFollows st badge)) = true) :
    IconStale deployments := by
  obtain ⟨past, st, world, deployed, badge, inside, kind, checked⟩ := exists_of_badgeAfter checked
  exact ⟨past, st, world, deployed, badge, inside, kind, by simpa using checked⟩

/-- When the icon file is edited, and when the icon is removed, the badge keeps the id of the
first upload. -/
theorem iconFollows_fails :
    IconStale [badgeDeployment (str "i.png") (str "2"), badgeDeployment (str "i.png") (str "1")] ∧
      IconStale [badgeDeployment [] (str "1"), badgeDeployment (str "i.png") (str "1")] :=
  ⟨iconStale_of_badgeAfter (by decide +kernel), iconStale_of_badgeAfter (by decide +kernel)⟩

end Rotor.Deploy
