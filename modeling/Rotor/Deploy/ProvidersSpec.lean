import Rotor.Deploy.Providers
import Rotor.Deploy.ResourcesSpec

/-!
What the calls of the providers leave behind: the id of a new asset, the icon of a badge or
a game pass, and the ids that the cloud has given out so far.
-/

namespace Rotor.Deploy

open Lib.Action

variable {W E : Type} {c : Ctx W E}

lemma call_ok {request : Request} {wrap : E → CallError E} {response : request.Response}
    {world world' : W} (ok : c.call request wrap world = (.ok response, world')) :
    c.cloud request world = (.ok response, world') := by
  rw [Ctx.call] at ok
  split at ok
  · cases ok
  · next called =>
      cases ok
      exact called

/-! ### Ids that were given out -/

def Grows (issued : W → Set Int) (before after : W) : Prop := issued before ⊆ issued after

instance (issued : W → Set Int) : Std.Refl (Grows issued) := ⟨fun _ => subset_rfl⟩

instance (issued : W → Set Int) : IsTrans W (Grows issued) := ⟨fun _ _ _ => Set.Subset.trans⟩

structure ProviderKeeps (rel : W → W → Prop)
    (provider : Provider Inputs W (CallError E)) : Prop where
  create : ∀ st inputs prior, Keeps rel (ε := CallError E) (provider.create st inputs prior)
  update : ∀ st inputs prior, Keeps rel (ε := CallError E) (provider.update st inputs prior)
  delete : ∀ st prior, Keeps rel (ε := CallError E) (provider.delete st prior)

section Keeps

variable {rel : W → W → Prop} [Std.Refl rel]

lemma makeProvider_keeps {α : Type} {decode : Inputs → Option α}
    {create update : State → α → Option StateEntry → Action W E Outputs}
    {delete : Option StateEntry → Action W E Unit}
    (created : ∀ st inputs prior, Keeps rel (create st inputs prior))
    (updated : ∀ st inputs prior, Keeps rel (update st inputs prior))
    (deleted : ∀ prior, Keeps rel (delete prior)) :
    ProviderKeeps rel (makeProvider decode create update delete) where
  create st inputs prior := by
    simp only [makeProvider]
    split
    · exact created st _ prior
    · exact Keeps.throw _
  update st inputs prior := by
    simp only [makeProvider]
    split
    · exact updated st _ prior
    · exact Keeps.throw _
  delete _ prior := deleted prior

lemma read_keeps (what file : Bytes) : Keeps rel (c.read what file) := by
  rw [Ctx.read]
  split
  · exact Keeps.throw _
  · exact Keeps.pure _

lemma requireID_keeps (prior : Option StateEntry) (what key : Bytes) :
    Keeps rel (requireID prior what key : Action W E Int) := by
  rw [requireID]
  split
  · exact Keeps.pure _
  · exact Keeps.throw _

lemma withID_keeps {prior : Option StateEntry} {key : Bytes}
    {delete : Int → Action W E Unit} (deleted : ∀ id, Keeps rel (delete id)) :
    Keeps rel (withID prior key delete) := by
  rw [withID]
  split
  · exact deleted _
  · exact Keeps.pure _

lemma stateOnly_keeps (prior : Option StateEntry) :
    Keeps rel (stateOnly prior : Action W E Unit) := Keeps.pure _

lemma socialLinkRequest_keeps (inputs : SocialLinkInputs) :
    Keeps rel (socialLinkRequest inputs : Action W E SocialLinkRequest) := by
  rw [socialLinkRequest]
  split
  · exact Keeps.pure _
  · exact Keeps.throw _

lemma assetCreator_keeps (inputs : AssetInputs) :
    Keeps rel (assetCreator inputs : Action W E (Int × Int)) :=
  .ite (.pure _) (.ite (.pure _) (.ite (.throw _) (.throw _)))

lemma call_keeps {rel : W → W → Prop} (kept : ∀ request world, rel world (c.cloud request world).2)
    (request : Request) (wrap : E → CallError E) : Keeps rel (c.call request wrap) := by
  intro world
  have after := kept request world
  rw [Ctx.call]
  split
  · next called => rwa [called] at after
  · next called => rwa [called] at after

variable [IsTrans W rel] (kept : ∀ request world, rel world (c.cloud request world).2)

include kept

lemma callThen_keeps {α : Type} {request : Request} {wrap : E → CallError E}
    {f : request.Response → α} :
    Keeps rel (do return f (← c.call request wrap) : Action W E α) :=
  (call_keeps kept _ _).bind fun _ => .pure _

lemma publishPlace_keeps (inputs : PlaceFileInputs) : Keeps rel (publishPlace c inputs) :=
  (read_keeps _ _).bind fun ⟨_, _⟩ => callThen_keeps kept

lemma patchPlace_keeps (inputs : PlaceConfigInputs) : Keeps rel (patchPlace c inputs) :=
  Keeps.ite (.pure _) (callThen_keeps kept)

lemma patchUniverse_keeps (inputs : ExperienceInputs) : Keeps rel (patchUniverse c inputs) := by
  have visibility : Keeps rel (visibilityOf inputs : Action W E Bytes) := by
    refine Keeps.ite (Keeps.pure _) ?_
    split
    · exact Keeps.pure _
    · exact Keeps.throw _
  exact visibility.bind fun _ => .ite (.pure _) (callThen_keeps kept)

lemma uploadAsset_keeps (inputs : AssetInputs) : Keeps rel (uploadAsset c inputs) :=
  (assetCreator_keeps inputs).bind fun ⟨_, _⟩ => (read_keeps _ _).bind fun ⟨_, _⟩ =>
    (call_keeps kept _ _).bind fun _ => callThen_keeps kept

lemma deletes_keep (wrap : Int → E → CallError E) (ids : List Int) : Keeps rel (ids.mapM fun id =>
      c.call (.deleteUniverseThumbnail c.universeID id) (wrap id) : Action W E (List Unit)) := by
  have each (id : Int) : Keeps rel
      (c.call (.deleteUniverseThumbnail c.universeID id) (wrap id) : Action W E Unit) :=
    call_keeps kept _ _
  exact .mapM each ids

lemma replaceThumbnails_keeps (inputs : ExperienceThumbnailsInputs) (stale : List Int) :
    Keeps rel (replaceThumbnails c inputs stale) := by
  have upload (file : Bytes) : Keeps rel (do
      let read ← c.read (str "thumbnail") file
      c.call (.uploadUniverseThumbnail c.universeID read.1 read.2) (.uploadingThumbnail file) :
      Action W E Int) := (read_keeps _ _).bind fun _ => call_keeps kept _ _
  have deletes := deletes_keep kept CallError.deletingThumbnail stale
  exact (Keeps.mapM upload _).bind fun _ => .ite
    ((call_keeps kept _ _).bind fun _ => deletes.bind fun _ => .pure _)
    (deletes.bind fun _ => .pure _)

/-- Whatever every call to the cloud keeps, the providers keep. -/
theorem defaultProviders_keep : ∀ entry ∈ defaultProviders c, ProviderKeeps rel entry.2 := by
  intro entry mem
  simp only [defaultProviders, List.mem_cons, List.not_mem_nil, or_false] at mem
  rcases mem with rfl | rfl | rfl | rfl | rfl | rfl | rfl | rfl | rfl | rfl
  · exact makeProvider_keeps (fun _ _ _ => publishPlace_keeps kept _)
      (fun _ _ _ => publishPlace_keeps kept _) stateOnly_keeps
  · exact makeProvider_keeps (fun _ _ _ => patchPlace_keeps kept _)
      (fun _ _ _ => patchPlace_keeps kept _) stateOnly_keeps
  · exact makeProvider_keeps (fun _ _ _ => patchUniverse_keeps kept _)
      (fun _ _ _ => patchUniverse_keeps kept _) stateOnly_keeps
  · exact makeProvider_keeps (fun _ _ _ => callThen_keeps kept)
      (fun _ _ _ => (requireID_keeps _ _ _).bind fun _ => callThen_keeps kept)
      (fun _ => withID_keeps fun _ => callThen_keeps kept)
  · exact makeProvider_keeps (fun _ _ _ => uploadAsset_keeps kept _)
      (fun _ _ _ => uploadAsset_keeps kept _) stateOnly_keeps
  · exact makeProvider_keeps (fun _ _ _ => callThen_keeps kept)
      (fun _ _ _ => (requireID_keeps _ _ _).bind fun _ => callThen_keeps kept)
      (fun _ => withID_keeps fun _ => callThen_keeps kept)
  · exact makeProvider_keeps (fun _ _ _ => (read_keeps _ _).bind fun ⟨_, _⟩ => callThen_keeps kept)
      (fun _ _ _ => (read_keeps _ _).bind fun ⟨_, _⟩ => callThen_keeps kept)
      stateOnly_keeps
  · exact makeProvider_keeps (fun _ _ _ => replaceThumbnails_keeps kept _ _)
      (fun _ _ _ => replaceThumbnails_keeps kept _ _)
      (fun _ => (deletes_keep kept _ _).bind fun _ => .pure _)
  · exact makeProvider_keeps (fun _ _ _ => callThen_keeps kept)
      (fun _ _ _ => (requireID_keeps _ _ _).bind fun _ => callThen_keeps kept)
      stateOnly_keeps
  · exact makeProvider_keeps
      (fun _ _ _ => (socialLinkRequest_keeps _).bind fun _ => callThen_keeps kept)
      (fun _ _ _ => (socialLinkRequest_keeps _).bind fun _ => (requireID_keeps _ _ _).bind fun _ =>
        callThen_keeps kept)
      (fun _ => withID_keeps fun _ => callThen_keeps kept)

end Keeps

/-- An upload gives the new asset an id that was not given out before. -/
structure FreshCloud (cloud : (request : Request) → W → Except E request.Response × W)
    (issued : W → Set Int) : Prop where
  call : ∀ request world, Grows issued world (cloud request world).2
  upload : ∀ {request fileName body world path world' id world''},
    cloud (.createAsset request fileName body) world = (.ok path, world') →
    cloud (.pollOperation path) world' = (.ok id, world'') →
    id ∉ issued world ∧ id ∈ issued world''

/-! ### Outputs -/

section Outputs

variable {st : State} {prior : Option StateEntry} {outputs : Outputs} {world world' : W}

def iconValue (st : State) (icon : Bytes) : Option Value :=
  if icon = [] then none
  else ((output st ⟨kindAsset, icon⟩ (str "assetId")).bind outputInt64).map .int

lemma lookup_addIcon {icon : Bytes} (absent : outputs.lookup (str "iconAssetId") = none) :
    (addIcon st icon outputs).lookup (str "iconAssetId") = iconValue st icon := by
  rw [addIcon, iconValue]
  split
  · exact absent
  · split
    · next id found =>
        rw [found, AList.lookup_insert]
        rfl
    · next missing =>
        rw [missing, absent]
        rfl

lemma lookup_oneOutput_ne {key other : Bytes} {val : Value} (ne : other ≠ key) :
    (oneOutput key val).lookup other = none := by
  rw [oneOutput, AList.lookup_insert_ne ne]
  exact AList.lookup_empty other

lemma lookup_oneOutput (key : Bytes) (val : Value) : (oneOutput key val).lookup key = some val :=
  AList.lookup_insert _

lemma uploadAsset_ok {inputs : AssetInputs}
    (ok : uploadAsset c inputs world = (.ok outputs, world')) :
    ∃ id, outputs = oneOutput (str "assetId") (.int id) ∧
      ∀ issued, FreshCloud c.cloud issued → id ∉ issued world ∧ id ∈ issued world' := by
  obtain ⟨⟨userID, groupID⟩, first, isFirst, ok⟩ := run_bind_eq_ok.mp ok
  obtain ⟨⟨fileName, data⟩, second, isSecond, ok⟩ := run_bind_eq_ok.mp ok
  obtain ⟨path, third, created, ok⟩ := run_bind_eq_ok.mp ok
  obtain ⟨id, fourth, polled, ok⟩ := run_bind_eq_ok.mp ok
  cases ok
  refine ⟨id, rfl, fun issued fresh => ?_⟩
  obtain ⟨new, given⟩ := fresh.upload (call_ok created) (call_ok polled)
  have grown : Grows issued world first := by
    have kept : Keeps (Grows issued) (assetCreator inputs : Action W E (Int × Int)) :=
      assetCreator_keeps inputs
    simpa only [isFirst] using kept world
  have grown' : Grows issued first second := by
    have kept : Keeps (Grows issued) (c.read (str "asset") inputs.file) := read_keeps _ _
    simpa only [isSecond] using kept first
  exact ⟨fun old => new (grown' (grown old)), given⟩

lemma bind_records {α : Type} {p : Action W E α} {f : α → Action W E Outputs} {P : Outputs → Prop}
    (each : ∀ a world outputs world', f a world = (.ok outputs, world') → P outputs)
    (ok : (p >>= f) world = (.ok outputs, world')) : P outputs := by
  obtain ⟨a, middle, -, ok⟩ := run_bind_eq_ok.mp ok
  exact each a middle _ _ ok

lemma addIcon_records {icon key : Bytes} {val : Value} (ne : str "iconAssetId" ≠ key)
    (world : W) (outputs : Outputs) (world' : W)
    (ok : (pure (addIcon st icon (oneOutput key val)) : Action W E Outputs) world =
      (.ok outputs, world')) :
    outputs.lookup (str "iconAssetId") = iconValue st icon := by
  cases ok
  exact lookup_addIcon (lookup_oneOutput_ne ne)

def isDependentKind (kind : Bytes) : Prop := kind = kindBadge ∨ kind = kindGamePass

/-- A badge or a game pass records the icon that it declares, and nothing without one. -/
theorem dependent_call_ok {res : Resource Inputs} (wired : Wired res)
    (dependent : isDependentKind res.kind) {provider : Provider Inputs W (CallError E)}
    (known : (defaultProviders c).lookup res.kind = some provider) (isCreate : Prop)
    [Decidable isCreate]
    (ok : (if isCreate then provider.create else provider.update) st res.inputs prior world =
      (.ok outputs, world')) :
    outputs.lookup (str "iconAssetId") = iconValue st (iconOf res.inputs) := by
  have kind := wired.kind
  rcases dependent with badge | gamePass
  · rw [badge] at known kind
    obtain ⟨inputs, isInputs⟩ := kindOf_eq_badge kind.symm
    obtain rfl : badgeProvider c = provider := Option.some.inj known
    rw [isInputs] at ok ⊢
    split at ok
    · exact bind_records (fun _ => addIcon_records (by decide)) ok
    · exact bind_records (fun _ _ _ _ => bind_records fun _ => addIcon_records (by decide)) ok
  · rw [gamePass] at known kind
    obtain ⟨inputs, isInputs⟩ := kindOf_eq_gamePass kind.symm
    obtain rfl : gamePassProvider c = provider := Option.some.inj known
    rw [isInputs] at ok ⊢
    split at ok
    · exact bind_records (fun _ => addIcon_records (by decide)) ok
    · exact bind_records (fun _ _ _ _ => bind_records fun _ => addIcon_records (by decide)) ok

lemma asset_call_ok {res : Resource Inputs} (wired : Wired res)
    (asset : res.kind = kindAsset) {provider : Provider Inputs W (CallError E)}
    (known : (defaultProviders c).lookup res.kind = some provider) (isCreate : Prop)
    [Decidable isCreate]
    (ok : (if isCreate then provider.create else provider.update) st res.inputs prior world =
      (.ok outputs, world')) :
    ∃ id, outputs = oneOutput (str "assetId") (.int id) ∧
      ∀ issued, FreshCloud c.cloud issued → id ∉ issued world ∧ id ∈ issued world' := by
  have kind := wired.kind
  rw [asset] at known kind
  obtain ⟨inputs, isInputs⟩ := kindOf_eq_asset kind.symm
  obtain rfl : assetProvider c = provider := Option.some.inj known
  rw [isInputs] at ok
  split at ok
  · exact uploadAsset_ok ok
  · exact uploadAsset_ok ok

end Outputs

end Rotor.Deploy
