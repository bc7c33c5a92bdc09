import Rotor.Deploy.Completed
import Rotor.Deploy.ProvidersSpec

/-!
Sequences of deployments and the uploads of icons in them.

An icon is uploaded again when its file changes.  A badge or a game pass copies the id of
the upload when the provider is called for it, which is the case when its own inputs
change; these have the name of the icon but not its content.  What it copied before stays
recorded otherwise, also when it no longer declares an icon.
-/

namespace Rotor.Deploy

variable {res : Resource Inputs} {hash : Bytes} {upload : Bytes × Nat} {ref : ResourceRef}

variable {W E : Type}

/-! ### Deployments -/

/-- One deployment: the configuration and the files as they are at that time. -/
structure Deployment (E : Type) where
  projectDir : Bytes
  config : Config
  envName : Bytes
  hashFile : Bytes → Except E Bytes
  readFile : Bytes → Except E Bytes
  allowDeletes : Bool

structure Target (W E : Type) where
  cloud : (request : Request) → W → Except E request.Response × W
  saveState : Option (State → W → Except (CallError E) Unit × W)
  hashInputs : Inputs → Except E Bytes

def Target.options (target : Target W E) (deployment : Deployment E) (universeID : Int) :
    ApplyOptions Inputs W (CallError E) where
  providers kind := (defaultProviders
    ⟨target.cloud, deployment.readFile, universeID, deployment.projectDir⟩).lookup kind
  saveState := target.saveState

/-- Build the resources, plan and apply; nothing may fail. -/
def Target.deploy (target : Target W E) (deployment : Deployment E) (st : State)
    (world : W) : Option (List (Resource Inputs) × Run Inputs W (CallError E)) :=
  match buildResources deployment.hashFile deployment.projectDir deployment.config
      deployment.envName with
  | .error _ => none
  | .ok (rs, universeID) =>
    match buildPlan target.hashInputs rs st deployment.allowDeletes with
    | .error _ => none
    | .ok plan =>
      match apply plan (target.options deployment universeID) st world with
      | .error _ => none
      | .ok run =>
        if run.result.failed = 0 ∧ run.result.skipped = 0 then some (rs, run) else none

/-- Deployments from an empty state, the last one first: the resources of each, and the
state and the world in the end. -/
def Target.deployAll (target : Target W E) (start : W) :
    List (Deployment E) → Option (List (List (Resource Inputs)) × State × W)
  | [] => some ([], ∅, start)
  | deployment :: earlier =>
    match target.deployAll start earlier with
    | none => none
    | some (past, st, world) =>
      match target.deploy deployment st world with
      | none => none
      | some (rs, run) => some (rs :: past, run.state, run.world)

/-! ### Uploads -/

section Uploads

variable (hashInputs : Inputs → Except E Bytes)

def latest : List (List (Resource Inputs)) → List (Resource Inputs)
  | [] => []
  | rs :: _ => rs

/-- The resource is new, or its inputs are not those of the deployment before. -/
def changed (past : List (List (Resource Inputs))) (res : Resource Inputs) : Bool :=
  match byKey (latest past) res.key with
  | some prior => (hashInputs prior.inputs).toOption != (hashInputs res.inputs).toOption
  | none => true

def assetKey (icon : Bytes) : Bytes := (⟨kindAsset, icon⟩ : ResourceRef).key

/-- The last upload of an icon: its name and the number of the deployment. -/
def lastUpload : List (List (Resource Inputs)) → Bytes → Option (Bytes × Nat)
  | [], _ => none
  | rs :: past, icon =>
    match byKey rs (assetKey icon) with
    | none => none
    | some asset =>
      if changed hashInputs past asset then some (icon, past.length)
      else lastUpload past icon

def iconSource : List (List (Resource Inputs)) → Bytes → Option (Bytes × Nat)
  | [], _ => none
  | rs :: past, key =>
    match byKey rs key with
    | none => none
    | some dep =>
      if changed hashInputs past dep ∧ iconOf dep.inputs ≠ [] then
        lastUpload hashInputs (rs :: past) (iconOf dep.inputs)
      else iconSource past key

def Uploaded : List (List (Resource Inputs)) → Bytes × Nat → Prop
  | [], _ => False
  | rs :: past, upload =>
    (upload.2 = past.length ∧ ∃ asset, byKey rs (assetKey upload.1) = some asset ∧
      changed hashInputs past asset) ∨ Uploaded past upload

variable {hashInputs} {past : List (List (Resource Inputs))}

lemma Uploaded.lt (uploaded : Uploaded hashInputs past upload) : upload.2 < past.length := by
  induction past with
  | nil => exact uploaded.elim
  | cons rs past ih =>
    rw [List.length_cons]
    rcases uploaded with ⟨now, -⟩ | earlier
    · omega
    · have := ih earlier
      omega

lemma uploaded_of_lastUpload {icon : Bytes} (last : lastUpload hashInputs past icon = some upload) :
    Uploaded hashInputs past upload := by
  induction past with
  | nil => cases last
  | cons rs past ih =>
    rw [lastUpload] at last
    split at last
    · cases last
    · next asset found =>
        split at last
        · next renewed =>
            cases last
            exact .inl ⟨rfl, asset, found, renewed⟩
        · exact .inr (ih last)

lemma uploaded_of_iconSource {key : Bytes} (source : iconSource hashInputs past key = some upload) :
    Uploaded hashInputs past upload := by
  induction past with
  | nil => cases source
  | cons rs past ih =>
    rw [iconSource] at source
    split at source
    · cases source
    · split at source
      · exact uploaded_of_lastUpload source
      · exact .inr (ih source)

lemma iconSource_eq_none {key : Bytes} (absent : byKey (latest past) key = none) :
    iconSource hashInputs past key = none := by
  cases past with
  | nil => rfl
  | cons rs past =>
    have absent' : byKey rs key = none := absent
    rw [iconSource, absent']

end Uploads

/-! ### Keys -/

lemma parseStateKey_key (kind : 47 ∉ ref.kind) : parseStateKey ref.key = ref := by
  have notSlash : ∀ c ∈ ref.kind, (c != 47) := by
    intro c mem
    have other : c ≠ 47 := fun slash => kind (slash ▸ mem)
    simpa using other
  have isKey : ref.key = ref.kind ++ 47 :: ref.name := by
    rw [ResourceRef.key, List.append_assoc]
    rfl
  rw [isKey, parseStateKey, List.takeWhile_append_of_pos notSlash,
    List.dropWhile_append_of_pos notSlash]
  simp

lemma Wired.slash_not_mem (wired : Wired res) : 47 ∉ res.kind :=
  wired.kind ▸ slash_not_mem_kindOf _

lemma Wired.ref_eq (wired : Wired res) (kind : 47 ∉ ref.kind) (same : res.key = ref.key) :
    res.ref = ref := by
  have parsed := congrArg parseStateKey same
  rwa [Resource.key, parseStateKey_key wired.slash_not_mem, parseStateKey_key kind] at parsed

lemma ref_of_assetKey {rs : List (Resource Inputs)} (wired : AllWired rs)
    {icon : Bytes} {asset : Resource Inputs} (found : byKey rs (assetKey icon) = some asset) :
    asset.ref = ⟨kindAsset, icon⟩ := by
  obtain ⟨mem, same⟩ := byKey_eq_some found
  exact (wired asset mem).ref_eq (show 47 ∉ kindAsset by decide) same

/-! ### Outputs -/

lemma lookup_mergedOutputs (prior : Option StateEntry) (outputs : Outputs) (key : Bytes) :
    (mergedOutputs prior outputs).lookup key =
      (outputs.lookup key).or (prior.bind fun entry => entry.outputs.lookup key) := by
  cases prior with
  | none => simp [mergedOutputs]
  | some entry =>
    rw [mergedOutputs]
    by_cases mem : key ∈ outputs
    · obtain ⟨val, found⟩ := Option.isSome_iff_exists.mp (AList.lookup_isSome.mpr mem)
      rw [AList.lookup_union_left mem, found]
      rfl
    · rw [AList.lookup_union_right mem, AList.lookup_eq_none.mpr mem]
      rfl

lemma planOp_eq_noop_iff {st : State} {key : Bytes} :
    planOp st key hash = .noop ↔ (st.lookup key).map StateEntry.inputsHash = some hash := by
  rw [planOp]
  cases st.lookup key with
  | none => simp
  | some entry =>
    by_cases same : entry.inputsHash = hash
    · simp [same]
    · simp [same]

lemma changed_eq_false_iff {hashInputs : Inputs → Except E Bytes}
    {past : List (List (Resource Inputs))} (hashed : hashInputs res.inputs = .ok hash) :
    changed hashInputs past res = false ↔ ((byKey (latest past) res.key).bind fun prior =>
        (hashInputs prior.inputs).toOption) = some hash := by
  rw [changed, hashed]
  cases byKey (latest past) res.key with
  | none => simp
  | some prior => simp [Except.toOption]

/-! ### The recorded state of a sequence of deployments -/

/-- The state holds the resources of the last deployment, and the recorded ids are those of
the uploads that they come from. -/
structure Tracks (hashInputs : Inputs → Except E Bytes)
    (past : List (List (Resource Inputs))) (st : State) (ids : Bytes × Nat → Int) : Prop where
  wired : AllWired (latest past)
  recorded : ∀ key, (st.lookup key).map StateEntry.inputsHash =
    (byKey (latest past) key).bind fun res => (hashInputs res.inputs).toOption
  asset : ∀ icon asset, byKey (latest past) (assetKey icon) = some asset →
    ∃ upload, lastUpload hashInputs past icon = some upload ∧
      output st ⟨kindAsset, icon⟩ (str "assetId") = some (.int (ids upload))
  icon : ∀ res ∈ latest past, isDependentKind res.kind → output st res.ref (str "iconAssetId") =
      (iconSource hashInputs past res.key).map fun upload => .int (ids upload)

section Step

variable {hashInputs : Inputs → Except E Bytes} {past : List (List (Resource Inputs))}
  {st : State} {ids : Bytes × Nat → Int} {c : Ctx W E}
  {opts : ApplyOptions Inputs W (CallError E)} {rs : List (Resource Inputs)}
  {world : W} {run : Run Inputs W (CallError E)}
  {results : List (StepResult Inputs (CallError E))}

lemma Tracks.slashes (tracks : Tracks hashInputs past st ids) : ∀ key ∈ st, 47 ∈ key := by
  intro key mem
  obtain ⟨entry, found⟩ := Option.isSome_iff_exists.mp (AList.lookup_isSome.mpr mem)
  have recorded := tracks.recorded key
  rw [found] at recorded
  cases known : byKey (latest past) key with
  | none => simp [known] at recorded
  | some res =>
    obtain ⟨-, rfl⟩ := byKey_eq_some known
    simp [Resource.key, ResourceRef.key, str]

lemma Tracks.planOp_eq_noop_iff (tracks : Tracks hashInputs past st ids)
    (hashed : hashInputs res.inputs = .ok hash) :
    planOp st res.key hash = .noop ↔ changed hashInputs past res = false := by
  rw [Deploy.planOp_eq_noop_iff, changed_eq_false_iff hashed, tracks.recorded]

lemma Tracks.changed_of_isChange (tracks : Tracks hashInputs past st ids)
    (hashed : hashInputs res.inputs = .ok hash) (change : (planOp st res.key hash).isChange) :
    changed hashInputs past res := by
  cases same : changed hashInputs past res with
  | true => rfl
  | false =>
    rw [(tracks.planOp_eq_noop_iff hashed).mpr same] at change
    exact absurd change not_isChange_noop

def assetID (st : State) (icon : Bytes) : Int :=
  ((output st ⟨kindAsset, icon⟩ (str "assetId")).bind outputInt64).getD 0

/-- The ids of the uploads of one more deployment are in the state that it leads to. -/
def extendIds (ids : Bytes × Nat → Int) (count : Nat) (st : State) (upload : Bytes × Nat) : Int :=
  if upload.2 = count then assetID st upload.1 else ids upload

lemma extendIds_of_uploaded (uploaded : Uploaded hashInputs past upload) :
    extendIds ids past.length st upload = ids upload := by
  rw [extendIds, if_neg uploaded.lt.ne]

lemma Completed.recorded (completed : Completed hashInputs opts rs st world run results)
    (key : Bytes) :
    (run.state.lookup key).map StateEntry.inputsHash =
      (byKey rs key).bind fun res => (hashInputs res.inputs).toOption := by
  cases known : byKey rs key with
  | none =>
    have absent : key ∉ rs.map Resource.key := by
      intro mem
      obtain ⟨res, inside, rfl⟩ := List.mem_map.mp mem
      rw [byKey_key completed.keys inside] at known
      cases known
    rw [completed.gone key absent]
    rfl
  | some res =>
    obtain ⟨inside, rfl⟩ := byKey_eq_some known
    obtain ⟨hash, hashed, live, -⟩ := completed.live res inside
    rw [Option.bind_some, hashed]
    cases live with
    | kept noop same =>
      rw [same]
      exact Deploy.planOp_eq_noop_iff.mp noop
    | renewed _ _ _ entry => rw [entry]; rfl

lemma Completed.asset_of_icon (completed : Completed hashInputs opts rs st world run results)
    {dep : Resource Inputs} (wired : Wired dep) (inside : dep ∈ rs)
    (icon : iconOf dep.inputs ≠ []) :
    ⟨kindAsset, iconOf dep.inputs⟩ ∈ dep.dependsOn ∧
      ∃ asset, byKey rs (assetKey (iconOf dep.inputs)) = some asset := by
  have depends : ⟨kindAsset, iconOf dep.inputs⟩ ∈ dep.dependsOn := by
    rw [wired.icon icon]
    exact List.mem_singleton_self _
  obtain ⟨asset, isAsset, sameKey⟩ := List.mem_map.mp (completed.dependencies dep inside _ depends)
  refine ⟨depends, asset, ?_⟩
  rw [assetKey, ← sameKey]
  exact byKey_key completed.keys isAsset

lemma output_eq_of_lookup_eq {st st' : State} (same : st.lookup ref.key = st'.lookup ref.key)
    (key : Bytes) :
    output st ref key = output st' ref key := by
  rw [output, output, same]

lemma output_renewed {st : State} {prior : Option StateEntry} {outputs : Outputs}
    (entry : st.lookup ref.key = some ⟨hash, mergedOutputs prior outputs⟩) (key : Bytes) :
    output st ref key =
      (outputs.lookup key).or (prior.bind fun entry => entry.outputs.lookup key) := by
  rw [output, entry, Option.bind_some, lookup_mergedOutputs]

variable (providers : ∀ kind, opts.providers kind = (defaultProviders c).lookup kind)
  (wired : AllWired rs)
  (completed : Completed hashInputs opts rs st world run results)
  (tracks : Tracks hashInputs past st ids)

include providers wired completed tracks

lemma Tracks.asset_next {icon : Bytes} {asset : Resource Inputs}
    (found : byKey rs (assetKey icon) = some asset) :
    ∃ upload, lastUpload hashInputs (rs :: past) icon = some upload ∧
      output run.state ⟨kindAsset, icon⟩ (str "assetId") =
        some (.int (extendIds ids past.length run.state upload)) := by
  obtain ⟨inside, isKey⟩ := byKey_eq_some found
  obtain ⟨hash, hashed, live, -⟩ := completed.live asset inside
  have isRef := ref_of_assetKey wired found
  rw [lastUpload, found, ← isRef]
  cases live with
  | kept noop same =>
    have unchanged := (tracks.planOp_eq_noop_iff hashed).mp noop
    have before : ∃ prior, byKey (latest past) (assetKey icon) = some prior := by
      rw [changed_eq_false_iff hashed, isKey] at unchanged
      obtain ⟨prior, known, -⟩ := Option.bind_eq_some_iff.mp unchanged
      exact ⟨prior, known⟩
    obtain ⟨prior, known⟩ := before
    obtain ⟨upload, isLast, id⟩ := tracks.asset icon prior known
    refine ⟨upload, by simpa [unchanged] using isLast, ?_⟩
    rw [extendIds_of_uploaded (uploaded_of_lastUpload isLast), ← id, ← isRef]
    exact output_eq_of_lookup_eq same _
  | renewed change known called entry =>
    obtain ⟨id, rfl, -⟩ := asset_call_ok (wired asset inside)
      (congrArg ResourceRef.kind isRef) (providers _ ▸ known) _ called
    have isID : output run.state asset.ref (str "assetId") = some (.int id) := by
      rw [output_renewed entry, lookup_oneOutput]
      rfl
    refine ⟨(icon, past.length), by simp [tracks.changed_of_isChange hashed change], ?_⟩
    rw [isID, extendIds, if_pos rfl, assetID, ← isRef, isID]
    rfl

omit providers completed in
lemma Tracks.icon_before (inside : res ∈ rs) (dep : isDependentKind res.kind) (next : State) :
    output st res.ref (str "iconAssetId") = (iconSource hashInputs past res.key).map fun upload =>
        .int (extendIds ids past.length next upload) := by
  have recorded := tracks.recorded res.key
  cases known : byKey (latest past) res.key with
  | none =>
    have absent : st.lookup res.key = none := by simpa [known] using recorded
    have unrecorded : output st res.ref (str "iconAssetId") = none := by
      rw [output, show st.lookup res.ref.key = none from absent, Option.bind_none]
    rw [unrecorded, iconSource_eq_none known, Option.map_none]
  | some prior =>
    obtain ⟨mem, same⟩ := byKey_eq_some known
    have isRef := (tracks.wired prior mem).ref_eq (wired res inside).slash_not_mem same
    have kind : isDependentKind prior.kind := by
      rw [show prior.kind = res.kind from congrArg ResourceRef.kind isRef]
      exact dep
    rw [← isRef, tracks.icon prior mem kind, same]
    cases source : iconSource hashInputs past res.key with
    | none => rfl
    | some upload =>
      rw [Option.map_some, Option.map_some, extendIds_of_uploaded (uploaded_of_iconSource source)]

lemma Tracks.icon_next (inside : res ∈ rs) (dep : isDependentKind res.kind) :
    output run.state res.ref (str "iconAssetId") =
      (iconSource hashInputs (rs :: past) res.key).map fun upload =>
        .int (extendIds ids past.length run.state upload) := by
  obtain ⟨hash, hashed, live, -⟩ := completed.live res inside
  have before := tracks.icon_before wired inside dep run.state
  rw [iconSource, byKey_key completed.keys inside]
  cases live with
  | kept noop same =>
    rw [output_eq_of_lookup_eq same, before]
    simp [(tracks.planOp_eq_noop_iff hashed).mp noop]
  | renewed change known called entry final =>
    have renewed := tracks.changed_of_isChange hashed change
    rw [output_renewed entry,
      dependent_call_ok (wired res inside) dep (providers _ ▸ known) _ called, iconValue]
    by_cases icon : iconOf res.inputs = []
    · -- The provider says nothing about the icon, so that the earlier id is kept.
      rw [if_pos icon, Option.none_or]
      refine before.trans ?_
      simp [icon]
    · obtain ⟨depends, asset, found⟩ := completed.asset_of_icon (wired res inside) inside icon
      obtain ⟨upload, isLast, id⟩ := Tracks.asset_next providers wired completed tracks found
      rw [if_neg icon, output_eq_of_lookup_eq (final _ depends), id]
      simp [renewed, icon, isLast, outputInt64]

lemma Tracks.next :
    Tracks hashInputs (rs :: past) run.state (extendIds ids past.length run.state) where
  wired := wired
  recorded := completed.recorded
  asset _ _ := Tracks.asset_next providers wired completed tracks
  icon _ := Tracks.icon_next providers wired completed tracks

end Step

end Rotor.Deploy
