import Rotor.Deploy.Apply
import Rotor.Deploy.Resources

/-!
The resource kinds (`deploy/providers.go`): what is asked of the cloud to create, update
and delete a resource, and which outputs are recorded.

A call is a request with a response of its own type; what it answers, and whether it
fails, is a function of the world.  Of a response only what the providers read is kept.
-/

namespace Rotor.Deploy

/-! ### Requests -/

structure Universe where
  displayName : Bytes := []
  description : Bytes := []
  visibility : Bytes := []
  privateServerPriceRobux : Int := 0
  deriving DecidableEq

structure Place where
  displayName : Bytes := []
  description : Bytes := []
  serverSize : Int := 0
  deriving DecidableEq

structure UpdateBadgeRequest where
  name : Bytes := []
  description : Bytes := []
  enabled : Option Bool := none
  deriving DecidableEq

structure CreateAssetRequest where
  assetType : Bytes
  displayName : Bytes
  userID : Int
  groupID : Int
  deriving DecidableEq

structure UpdateGamePassRequest where
  name : Bytes := []
  description : Bytes := []
  price : Option Int := none
  isForSale : Option Bool := none
  deriving DecidableEq

structure SocialLinkRequest where
  title : Bytes
  url : Bytes
  type : Bytes
  deriving DecidableEq

inductive Request where
  | updateUniverse (universeID : Int) (settings : Universe) (updateMask : List Bytes)
  | updatePlace (universeID placeID : Int) (place : Place) (updateMask : List Bytes)
  | publishPlaceVersion (universeID placeID : Int) (versionType body : Bytes)
  | createBadge (universeID : Int) (name description : Bytes)
  | updateBadge (badgeID : Int) (request : UpdateBadgeRequest)
  | createAsset (request : CreateAssetRequest) (fileName body : Bytes)
  | pollOperation (path : Bytes)
  | createGamePass (universeID : Int) (name description : Bytes) (price : Option Int)
  | updateGamePass (gamePassID : Int) (request : UpdateGamePassRequest)
  | uploadUniverseIcon (universeID : Int) (fileName body : Bytes)
  | uploadUniverseThumbnail (universeID : Int) (fileName body : Bytes)
  | setUniverseThumbnailOrder (universeID : Int) (thumbnailIDs : List Int)
  | deleteUniverseThumbnail (universeID thumbnailID : Int)
  | createDeveloperProduct (universeID : Int) (name description : Bytes) (priceInRobux : Int)
  | updateDeveloperProduct (universeID productID : Int) (name description : Bytes)
      (priceInRobux : Int)
  | createSocialLink (universeID : Int) (request : SocialLinkRequest)
  | updateSocialLink (universeID linkID : Int) (request : SocialLinkRequest)
  | deleteSocialLink (universeID linkID : Int)
  deriving DecidableEq

/-- An upload answers with the path of an operation, whose response is the new asset's id;
the other calls that make something answer with its id or version. -/
def Request.Response : Request → Type
  | .createAsset .. => Bytes
  | .publishPlaceVersion .. | .createBadge .. | .pollOperation .. | .createGamePass ..
  | .uploadUniverseIcon .. | .uploadUniverseThumbnail .. | .createDeveloperProduct ..
  | .createSocialLink .. => Int
  | _ => Unit

inductive CallError (E : Type) where
  | cloud (error : E)
  /-- The inputs are of another kind; `BuildResources` makes no such resource. -/
  | inputs
  /-- "reading place file: %w", "reading asset file: %w", "reading icon file: %w" or
  "reading thumbnail file: %w" -/
  | reading (what : Bytes) (error : E)
  /-- "invalid playability %q" -/
  | playability (value : Bytes)
  /-- "%s state has no %s; delete the state entry to recreate it" -/
  | noID (what output : Bytes)
  /-- "uploading %s needs an asset creator; set assets.creator { type, id } in
  rotor.config.ts" -/
  | noCreator (file : Bytes)
  /-- "invalid assets.creator.type %q (want \"user\" or \"group\")" -/
  | creatorType (type : Bytes)
  /-- "uploading thumbnail %s: %w" -/
  | uploadingThumbnail (file : Bytes) (error : E)
  /-- "ordering thumbnails: %w" -/
  | orderingThumbnails (error : E)
  /-- "deleting stale thumbnail %d: %w" -/
  | deletingThumbnail (id : Int) (error : E)
  /-- "invalid social link type %q" -/
  | socialLinkType (type : Bytes)

/-- What a provider is given besides its inputs (`Ctx`); `Output` reads the recorded state. -/
structure Ctx (W E : Type) where
  cloud : (request : Request) → W → Except E request.Response × W
  readFile : Bytes → Except E Bytes
  universeID : Int
  projectDir : Bytes

variable {W E : Type}

abbrev Action (W E α : Type) := ExceptT (CallError E) (StateM W) α

def Ctx.call (c : Ctx W E) (request : Request) (wrap : E → CallError E := .cloud) :
    Action W E request.Response :=
  fun world =>
    match c.cloud request world with
    | (.error error, world) => (.error (wrap error), world)
    | (.ok response, world) => (.ok response, world)

def Ctx.read (c : Ctx W E) (what file : Bytes) : Action W E (Bytes × Bytes) :=
  let path := resolvePath c.projectDir file
  match c.readFile path with
  | .error error => throw (.reading what error)
  | .ok data => pure (Path.base path, data)

/-! ### Outputs -/

def outputInt64 : Value → Option Int
  | .int number => some number
  | _ => none

def outputInt64Slice : Value → Option (List Int)
  | .ints numbers => some numbers
  | _ => none

def priorInt64 (prior : Option StateEntry) (key : Bytes) : Option Int :=
  prior.bind fun entry => (entry.outputs.lookup key).bind outputInt64

def output (st : State) (ref : ResourceRef) (key : Bytes) : Option Value :=
  (st.lookup ref.key).bind fun entry => entry.outputs.lookup key

def oneOutput (key : Bytes) (value : Value) : Outputs := (∅ : Outputs).insert key value

/-- `addBadgeIcon`, `addPassIcon`: the id of the icon's asset goes into the outputs. -/
def addIcon (st : State) (icon : Bytes) (outputs : Outputs) : Outputs :=
  if icon = [] then outputs
  else
    match (output st ⟨kindAsset, icon⟩ (str "assetId")).bind outputInt64 with
    | some id => outputs.insert (str "iconAssetId") (.int id)
    | none => outputs

/-! ### Providers -/

variable (c : Ctx W E)

def makeProvider {α : Type} (decode : Inputs → Option α)
    (create update : State → α → Option StateEntry → Action W E Outputs)
    (delete : Option StateEntry → Action W E Unit) :
    Provider Inputs W (CallError E) where
  create st inputs prior := match decode inputs with
    | some inputs => create st inputs prior
    | none => (throw .inputs : Action W E Outputs)
  update st inputs prior := match decode inputs with
    | some inputs => update st inputs prior
    | none => (throw .inputs : Action W E Outputs)
  delete _ prior := delete prior

def stateOnly : Option StateEntry → Action W E Unit := fun _ => pure ()

def publishPlace (inputs : PlaceFileInputs) : Action W E Outputs := do
  let (_, data) ← c.read (str "place") inputs.file
  let version ← c.call (.publishPlaceVersion c.universeID inputs.placeID inputs.versionType data)
  return (oneOutput (str "placeId") (.int inputs.placeID)).insert (str "versionNumber")
    (.int version)

def placeFileProvider : Provider Inputs W (CallError E) :=
  makeProvider (fun | .placeFile inputs => some inputs | _ => none)
    (fun _ inputs _ => publishPlace c inputs) (fun _ inputs _ => publishPlace c inputs) stateOnly

/-- A field is in the mask of a PATCH when it is set. -/
def patchPlace (inputs : PlaceConfigInputs) : Action W E Outputs := do
  let mask := (if inputs.name ≠ [] then [str "displayName"] else []) ++
    (if inputs.description ≠ [] then [str "description"] else []) ++
    (if 0 < inputs.serverSize then [str "serverSize"] else [])
  let outputs := oneOutput (str "placeId") (.int inputs.placeID)
  if mask = [] then return outputs
  let place : Place := ⟨inputs.name, inputs.description,
    if 0 < inputs.serverSize then inputs.serverSize else 0⟩
  let _ ← c.call (.updatePlace c.universeID inputs.placeID place mask)
  return outputs

def placeConfigProvider : Provider Inputs W (CallError E) :=
  makeProvider (fun | .placeConfig inputs => some inputs | _ => none)
    (fun _ inputs _ => patchPlace c inputs) (fun _ inputs _ => patchPlace c inputs) stateOnly

def visibilityFor (playability : Bytes) : Option Bytes :=
  if playability = str "public" then some (str "PUBLIC")
  else if playability = str "private" ∨ playability = str "friends" then some (str "PRIVATE")
  else none

def visibilityOf (inputs : ExperienceInputs) : Action W E Bytes :=
  if inputs.playability = [] then pure []
  else
    match visibilityFor inputs.playability with
    | some visibility => pure visibility
    | none => throw (.playability inputs.playability)

/-- `Payments` is part of the inputs only, so that a change of it is seen. -/
def patchUniverse (inputs : ExperienceInputs) : Action W E Outputs := do
  let visibility ← visibilityOf inputs
  let mask := (if inputs.name ≠ [] then [str "displayName"] else []) ++
    (if inputs.description ≠ [] then [str "description"] else []) ++
    (if inputs.playability ≠ [] then [str "visibility"] else []) ++
    (if inputs.privateServerPrice.isSome then [str "privateServerPriceRobux"] else [])
  let outputs := oneOutput (str "universeId") (.int c.universeID)
  if mask = [] then return outputs
  let settings : Universe := ⟨inputs.name, inputs.description, visibility,
    inputs.privateServerPrice.getD 0⟩
  let _ ← c.call (.updateUniverse c.universeID settings mask)
  return outputs

def experienceProvider : Provider Inputs W (CallError E) :=
  makeProvider (fun | .experience inputs => some inputs | _ => none)
    (fun _ inputs _ => patchUniverse c inputs) (fun _ inputs _ => patchUniverse c inputs) stateOnly

def requireID (prior : Option StateEntry) (what key : Bytes) : Action W E Int :=
  match priorInt64 prior key with
  | some id => pure id
  | none => throw (.noID what key)

/-- Without an id the resource was never created. -/
def withID (prior : Option StateEntry) (key : Bytes) (delete : Int → Action W E Unit) :
    Action W E Unit :=
  match priorInt64 prior key with
  | some id => delete id
  | none => pure ()

def createBadge (st : State) (inputs : BadgeInputs) : Action W E Outputs := do
  let badgeID ← c.call (.createBadge c.universeID inputs.name inputs.description)
  return addIcon st inputs.icon (oneOutput (str "badgeId") (.int badgeID))

def updateBadge (st : State) (inputs : BadgeInputs) (prior : Option StateEntry) :
    Action W E Outputs := do
  let badgeID ← requireID prior (str "badge") (str "badgeId")
  let _ ← c.call (.updateBadge badgeID ⟨inputs.name, inputs.description, none⟩)
  return addIcon st inputs.icon (oneOutput (str "badgeId") (.int badgeID))

/-- A badge cannot be deleted, but disabled. -/
def deleteBadge (prior : Option StateEntry) : Action W E Unit :=
  withID prior (str "badgeId") fun badgeID => do
    let _ ← c.call (.updateBadge badgeID ⟨[], [], some false⟩)

def badgeProvider : Provider Inputs W (CallError E) :=
  makeProvider (fun | .badge inputs => some inputs | _ => none)
    (fun st inputs _ => createBadge c st inputs) (updateBadge c) (deleteBadge c)

/-- The user and the group that an asset is created for; one of them is set. -/
def assetCreator (inputs : AssetInputs) : Action W E (Int × Int) :=
  if inputs.creatorType = str "user" then pure (inputs.creatorID, 0)
  else if inputs.creatorType = str "group" then pure (0, inputs.creatorID)
  else if inputs.creatorType = [] then throw (.noCreator inputs.file)
  else throw (.creatorType inputs.creatorType)

/-- An upload makes a new asset, with a new id, also for an update. -/
def uploadAsset (inputs : AssetInputs) : Action W E Outputs := do
  let (userID, groupID) ← assetCreator inputs
  let (fileName, data) ← c.read (str "asset") inputs.file
  let path ← c.call
    (.createAsset ⟨inputs.assetType, inputs.displayName, userID, groupID⟩ fileName data)
  let assetID ← c.call (.pollOperation path)
  return oneOutput (str "assetId") (.int assetID)

def assetProvider : Provider Inputs W (CallError E) :=
  makeProvider (fun | .asset inputs => some inputs | _ => none)
    (fun _ inputs _ => uploadAsset c inputs) (fun _ inputs _ => uploadAsset c inputs) stateOnly

def createGamePass (st : State) (inputs : GamePassInputs) : Action W E Outputs := do
  let passID ← c.call (.createGamePass c.universeID inputs.name inputs.description inputs.price)
  return addIcon st inputs.icon (oneOutput (str "gamePassId") (.int passID))

def updateGamePass (st : State) (inputs : GamePassInputs) (prior : Option StateEntry) :
    Action W E Outputs := do
  let passID ← requireID prior (str "game pass") (str "gamePassId")
  let _ ← c.call (.updateGamePass passID
    ⟨inputs.name, inputs.description, inputs.price, some inputs.price.isSome⟩)
  return addIcon st inputs.icon (oneOutput (str "gamePassId") (.int passID))

/-- A pass cannot be deleted, but taken off sale. -/
def deleteGamePass (prior : Option StateEntry) : Action W E Unit :=
  withID prior (str "gamePassId") fun passID => do
    let _ ← c.call (.updateGamePass passID ⟨[], [], none, some false⟩)

def gamePassProvider : Provider Inputs W (CallError E) :=
  makeProvider (fun | .gamePass inputs => some inputs | _ => none)
    (fun st inputs _ => createGamePass c st inputs) (updateGamePass c) (deleteGamePass c)

def uploadExperienceIcon (inputs : ExperienceIconInputs) : Action W E Outputs := do
  let (fileName, data) ← c.read (str "icon") inputs.file
  let id ← c.call (.uploadUniverseIcon c.universeID fileName data)
  return oneOutput (str "iconAssetId") (.int id)

def experienceIconProvider : Provider Inputs W (CallError E) :=
  makeProvider (fun | .experienceIcon inputs => some inputs | _ => none)
    (fun _ inputs _ => uploadExperienceIcon c inputs)
    (fun _ inputs _ => uploadExperienceIcon c inputs) stateOnly

/-- Upload the set in order, apply the order, then delete what was there before. -/
def replaceThumbnails (inputs : ExperienceThumbnailsInputs) (stale : List Int) :
    Action W E Outputs := do
  let ids ← inputs.files.mapM fun file => do
    let (fileName, data) ← c.read (str "thumbnail") file
    c.call (.uploadUniverseThumbnail c.universeID fileName data) (.uploadingThumbnail file)
  if ids ≠ [] then
    let _ ← c.call (.setUniverseThumbnailOrder c.universeID ids) .orderingThumbnails
  let _ ← stale.mapM fun id =>
    c.call (.deleteUniverseThumbnail c.universeID id) (.deletingThumbnail id)
  return oneOutput (str "thumbnailIds") (.ints ids)

def priorThumbnailIDs (prior : Option StateEntry) : List Int :=
  (prior.bind fun entry =>
    (entry.outputs.lookup (str "thumbnailIds")).bind outputInt64Slice).getD []

def deleteThumbnails (prior : Option StateEntry) : Action W E Unit := do
  let _ ← (priorThumbnailIDs prior).mapM fun id =>
    c.call (.deleteUniverseThumbnail c.universeID id)

def experienceThumbnailsProvider : Provider Inputs W (CallError E) :=
  makeProvider (fun | .experienceThumbnails inputs => some inputs | _ => none)
    (fun _ inputs _ => replaceThumbnails c inputs [])
    (fun _ inputs prior => replaceThumbnails c inputs (priorThumbnailIDs prior))
    (deleteThumbnails c)

def createDeveloperProduct (inputs : DeveloperProductInputs) : Action W E Outputs := do
  let productID ← c.call
    (.createDeveloperProduct c.universeID inputs.name inputs.description inputs.price)
  return oneOutput (str "productId") (.int productID)

def updateDeveloperProduct (inputs : DeveloperProductInputs) (prior : Option StateEntry) :
    Action W E Outputs := do
  let productID ← requireID prior (str "developer product") (str "productId")
  let _ ← c.call (.updateDeveloperProduct c.universeID productID inputs.name inputs.description
    inputs.price)
  return oneOutput (str "productId") (.int productID)

def developerProductProvider : Provider Inputs W (CallError E) :=
  makeProvider (fun | .developerProduct inputs => some inputs | _ => none)
    (fun _ inputs _ => createDeveloperProduct c inputs)
    (fun _ inputs prior => updateDeveloperProduct c inputs prior) stateOnly

def socialLinkAPITypes : List (Bytes × Bytes) :=
  [(str "facebook", str "Facebook"), (str "twitter", str "Twitter"),
    (str "youtube", str "YouTube"), (str "twitch", str "Twitch"), (str "discord", str "Discord"),
    (str "github", str "GitHub"), (str "guilded", str "Guilded")]

def socialLinkRequest (inputs : SocialLinkInputs) : Action W E SocialLinkRequest :=
  match socialLinkAPITypes.lookup inputs.type with
  | some apiType => pure ⟨inputs.title, inputs.url, apiType⟩
  | none => throw (.socialLinkType inputs.type)

def createSocialLink (inputs : SocialLinkInputs) : Action W E Outputs := do
  let request ← socialLinkRequest inputs
  let linkID ← c.call (.createSocialLink c.universeID request)
  return oneOutput (str "socialLinkId") (.int linkID)

def updateSocialLink (inputs : SocialLinkInputs) (prior : Option StateEntry) :
    Action W E Outputs := do
  let request ← socialLinkRequest inputs
  let linkID ← requireID prior (str "social link") (str "socialLinkId")
  let _ ← c.call (.updateSocialLink c.universeID linkID request)
  return oneOutput (str "socialLinkId") (.int linkID)

def deleteSocialLink (prior : Option StateEntry) : Action W E Unit :=
  withID prior (str "socialLinkId") fun linkID => do
    let _ ← c.call (.deleteSocialLink c.universeID linkID)

def socialLinkProvider : Provider Inputs W (CallError E) :=
  makeProvider (fun | .socialLink inputs => some inputs | _ => none)
    (fun _ inputs _ => createSocialLink c inputs)
    (fun _ inputs prior => updateSocialLink c inputs prior) (deleteSocialLink c)

def defaultProviders : List (Bytes × Provider Inputs W (CallError E)) :=
  [(kindPlaceFile, placeFileProvider c), (kindPlaceConfig, placeConfigProvider c),
    (kindExperience, experienceProvider c), (kindBadge, badgeProvider c),
    (kindAsset, assetProvider c), (kindGamePass, gamePassProvider c),
    (kindExperienceIcon, experienceIconProvider c),
    (kindExperienceThumbnails, experienceThumbnailsProvider c),
    (kindDeveloperProduct, developerProductProvider c), (kindSocialLink, socialLinkProvider c)]

end Rotor.Deploy
