import Rotor.Deploy.Plan
import Rotor.Path

/-!
The desired resources of one environment of the configuration (`config/config.go`,
`deploy/graph.go`).

The content hash of a file is a parameter, and so is what goes wrong when it cannot be
read.  Only the fields of the configuration that the graph is built from are kept.
-/

namespace Rotor.Deploy

/-! ### Configuration -/

structure PlaceDeploy where
  file : Bytes
  placeID : Int
  name : Bytes
  description : Bytes
  maxPlayers : Int
  versionType : Bytes
  deriving DecidableEq

/-- The price of a private server; without one it is free. -/
structure PrivateServers where
  price : Option Int
  deriving DecidableEq

structure ExperienceConfig where
  name : Bytes
  description : Bytes
  playability : Bytes
  privateServers : Option PrivateServers
  deriving DecidableEq

structure Badge where
  name : Bytes
  description : Bytes
  icon : Bytes
  deriving DecidableEq

/-- A pass without a price is not for sale. -/
structure GamePass where
  name : Bytes
  description : Bytes
  price : Option Int
  icon : Bytes
  deriving DecidableEq

structure Product where
  name : Bytes
  description : Bytes
  price : Int
  deriving DecidableEq

structure SocialLink where
  title : Bytes
  url : Bytes
  type : Bytes
  deriving DecidableEq

structure Environment where
  universeID : Int
  places : AList fun _ : Bytes => PlaceDeploy := ∅
  experience : Option ExperienceConfig := none
  payments : Bytes := []
  badges : AList fun _ : Bytes => Badge := ∅
  gamePasses : AList fun _ : Bytes => GamePass := ∅
  icon : Bytes := []
  thumbnails : List Bytes := []
  products : AList fun _ : Bytes => Product := ∅
  socialLinks : AList fun _ : Bytes => SocialLink := ∅

structure Creator where
  type : Bytes
  id : Int
  deriving DecidableEq

/-- `Config`; of the assets section only the creator is read here. -/
structure Config where
  creator : Option Creator
  environments : Option (AList fun _ : Bytes => Environment)

/-! ### Inputs -/

structure PlaceFileInputs where
  placeID : Int
  file : Bytes
  fileHash : Bytes
  versionType : Bytes
  deriving DecidableEq

structure PlaceConfigInputs where
  placeID : Int
  name : Bytes
  description : Bytes
  serverSize : Int
  deriving DecidableEq

structure ExperienceInputs where
  name : Bytes
  description : Bytes
  playability : Bytes
  payments : Bytes
  privateServerPrice : Option Int
  deriving DecidableEq

/-- The icon is the name of the asset that uploads it. -/
structure BadgeInputs where
  name : Bytes
  description : Bytes
  icon : Bytes
  deriving DecidableEq

structure AssetInputs where
  file : Bytes
  fileHash : Bytes
  assetType : Bytes
  displayName : Bytes
  creatorType : Bytes
  creatorID : Int
  deriving DecidableEq

structure GamePassInputs where
  name : Bytes
  description : Bytes
  price : Option Int
  icon : Bytes
  deriving DecidableEq

structure ExperienceIconInputs where
  file : Bytes
  fileHash : Bytes
  deriving DecidableEq

structure ExperienceThumbnailsInputs where
  files : List Bytes
  fileHashes : List Bytes
  deriving DecidableEq

structure DeveloperProductInputs where
  name : Bytes
  description : Bytes
  price : Int
  deriving DecidableEq

structure SocialLinkInputs where
  title : Bytes
  url : Bytes
  type : Bytes
  deriving DecidableEq

inductive Inputs where
  | placeFile (inputs : PlaceFileInputs)
  | placeConfig (inputs : PlaceConfigInputs)
  | experience (inputs : ExperienceInputs)
  | badge (inputs : BadgeInputs)
  | asset (inputs : AssetInputs)
  | gamePass (inputs : GamePassInputs)
  | experienceIcon (inputs : ExperienceIconInputs)
  | experienceThumbnails (inputs : ExperienceThumbnailsInputs)
  | developerProduct (inputs : DeveloperProductInputs)
  | socialLink (inputs : SocialLinkInputs)
  deriving DecidableEq

def kindPlaceFile : Bytes := str "place_file"
def kindPlaceConfig : Bytes := str "place_config"
def kindExperience : Bytes := str "experience"
def kindBadge : Bytes := str "badge"
def kindAsset : Bytes := str "asset"
def kindGamePass : Bytes := str "game_pass"
def kindExperienceIcon : Bytes := str "experience_icon"
def kindExperienceThumbnails : Bytes := str "experience_thumbnails"
def kindDeveloperProduct : Bytes := str "developer_product"
def kindSocialLink : Bytes := str "social_link"

/-! ### The graph -/

/-- Who refers to an icon: "badge %q" or "game pass %q". -/
inductive Owner where
  | badge (name : Bytes)
  | gamePass (name : Bytes)
  deriving DecidableEq

inductive BuildError (E : Type) where
  /-- "deploy: rotor.config.ts has no deploy.environments section" -/
  | noEnvironments
  /-- "deploy: environment %q not found in rotor.config.ts (have: %s)" -/
  | unknownEnvironment (name : Bytes) (names : List Bytes)
  /-- "deploy: environment %q has no universeId" -/
  | noUniverse (name : Bytes)
  /-- "deploy: place %q: hashing %s: %w" -/
  | hashingPlace (name file : Bytes) (error : E)
  /-- "deploy: place %q: invalid versionType %q (want \"saved\" or \"published\")" -/
  | versionType (name type : Bytes)
  /-- "deploy: %s: hashing icon %s: %w" -/
  | hashingIcon (owner : Owner) (icon : Bytes) (error : E)
  /-- "deploy: %s: unsupported asset file type %q (want png/jpg/jpeg/bmp/tga/ogg/mp3)" -/
  | assetType (owner : Owner) (ext : Bytes)
  /-- "deploy: icon: hashing %s: %w" -/
  | hashingExperienceIcon (file : Bytes) (error : E)
  /-- "deploy: thumbnails: hashing %s: %w" -/
  | hashingThumbnail (file : Bytes) (error : E)

def versionTypeFor (type : Bytes) : Option Bytes :=
  if type = [] then some (str "Published")
  else if type = str "saved" then some (str "Saved")
  else if type = str "published" then some (str "Published")
  else none

/-- `strings.ToLower`; no letter outside ASCII has a lower case that occurs in an extension. -/
def toLower (text : Bytes) : Bytes := text.map fun c => if 65 ≤ c ∧ c ≤ 90 then c + 32 else c

def assetTypeForFile (name : Bytes) : Option Bytes :=
  let ext := toLower (Path.ext name)
  if ext ∈ [str ".png", str ".jpg", str ".jpeg", str ".bmp", str ".tga"] then some (str "Decal")
  else if ext ∈ [str ".ogg", str ".mp3"] then some (str "Audio")
  else none

def resolvePath (projectDir path : Bytes) : Bytes :=
  if path = [] ∨ Path.isAbs path then path else Path.join [projectDir, path]

def sortedEntries {α : Type} (map : AList fun _ : Bytes => α) : List (Bytes × α) :=
  (sortStrings map.keys).filterMap fun key => (map.lookup key).map fun value => (key, value)

def collect {α β ε : Type} (make : α → Except ε (List β)) : List α → Except ε (List β)
  | [] => .ok []
  | element :: elements => do
    let first ← make element
    let others ← collect make elements
    return first ++ others

variable {E : Type} (hashFile : Bytes → Except E Bytes) (projectDir : Bytes)

def hashed (file : Bytes) (failure : E → BuildError E) : Except (BuildError E) Bytes :=
  (hashFile (resolvePath projectDir file)).mapError failure

/-- A place is published, and its metadata is managed when the configuration has any. -/
def placeResources (entry : Bytes × PlaceDeploy) :
    Except (BuildError E) (List (Resource Inputs)) := do
  let (name, place) := entry
  let hash ← hashed hashFile projectDir place.file (.hashingPlace name place.file)
  match versionTypeFor place.versionType with
  | none => throw (.versionType name place.versionType)
  | some versionType =>
    let published := ⟨kindPlaceFile, name, [],
      .placeFile ⟨place.placeID, place.file, hash, versionType⟩⟩
    if place.name ≠ [] ∨ place.description ≠ [] ∨ 0 < place.maxPlayers then
      return [published, ⟨kindPlaceConfig, name, [],
        .placeConfig ⟨place.placeID, place.name, place.description, place.maxPlayers⟩⟩]
    else return [published]

def experienceResources (env : Environment) : List (Resource Inputs) :=
  match env.experience with
  | none =>
    if env.payments = [] then []
    else [⟨kindExperience, str "universe", [], .experience ⟨[], [], [], env.payments, none⟩⟩]
  | some experience =>
    [⟨kindExperience, str "universe", [], .experience ⟨experience.name, experience.description,
      experience.playability, env.payments,
      experience.privateServers.map fun servers => servers.price.getD 0⟩⟩]

structure Graph where
  resources : List (Resource Inputs)
  seenIcons : List Bytes

def Graph.add (graph : Graph) (resource : Resource Inputs) : Graph :=
  { graph with resources := graph.resources ++ [resource] }

variable (creator : Option Creator)

/-- The asset of an icon, made when the icon is met for the first time.  Its name is given
back. -/
def iconAsset (graph : Graph) (owner : Owner) (icon : Bytes) :
    Except (BuildError E) (Graph × Bytes) := do
  let iconName := Path.toSlash icon
  if graph.seenIcons.contains iconName then return (graph, iconName)
  let hash ← hashed hashFile projectDir icon (.hashingIcon owner icon)
  match assetTypeForFile icon with
  | none => throw (.assetType owner (Path.ext icon))
  | some assetType =>
    let base := Path.base (resolvePath projectDir icon)
    let displayName := base.take (base.length - (Path.ext base).length)
    let asset : Resource Inputs := ⟨kindAsset, iconName, [],
      .asset ⟨icon, hash, assetType, displayName, creator.elim [] Creator.type,
        creator.elim 0 Creator.id⟩⟩
    return (⟨graph.resources ++ [asset], iconName :: graph.seenIcons⟩, iconName)

/-- Add a resource that may have an icon, behind the asset that it then depends on. -/
def addWithIcon (graph : Graph) (owner : Owner) (icon : Bytes)
    (make : List ResourceRef → Bytes → Resource Inputs) : Except (BuildError E) Graph :=
  if icon = [] then return graph.add (make [] [])
  else do
    let (graph, iconName) ← iconAsset hashFile projectDir creator graph owner icon
    return graph.add (make [⟨kindAsset, iconName⟩] iconName)

def addBadge (graph : Graph) (entry : Bytes × Badge) : Except (BuildError E) Graph :=
  let (name, badge) := entry
  addWithIcon hashFile projectDir creator graph (.badge name) badge.icon fun deps icon =>
    ⟨kindBadge, name, deps, .badge ⟨badge.name, badge.description, icon⟩⟩

def addGamePass (graph : Graph) (entry : Bytes × GamePass) : Except (BuildError E) Graph :=
  let (name, pass) := entry
  addWithIcon hashFile projectDir creator graph (.gamePass name) pass.icon fun deps icon =>
    ⟨kindGamePass, name, deps, .gamePass ⟨pass.name, pass.description, pass.price, icon⟩⟩

def experienceIconResources (icon : Bytes) : Except (BuildError E) (List (Resource Inputs)) :=
  if icon = [] then return []
  else do
    let hash ← hashed hashFile projectDir icon (.hashingExperienceIcon icon)
    return [⟨kindExperienceIcon, str "icon", [], .experienceIcon ⟨icon, hash⟩⟩]

def thumbnailResources (files : List Bytes) : Except (BuildError E) (List (Resource Inputs)) :=
  if files = [] then return []
  else do
    let hashes ← collect (fun file => do
      let hash ← hashed hashFile projectDir file (.hashingThumbnail file)
      return [hash]) files
    return [⟨kindExperienceThumbnails, str "thumbnails", [], .experienceThumbnails ⟨files, hashes⟩⟩]

def productResource (entry : Bytes × Product) : Resource Inputs :=
  ⟨kindDeveloperProduct, entry.1, [],
    .developerProduct ⟨entry.2.name, entry.2.description, entry.2.price⟩⟩

def socialLinkResource (entry : Bytes × SocialLink) : Resource Inputs :=
  ⟨kindSocialLink, entry.1, [], .socialLink ⟨entry.2.title, entry.2.url, entry.2.type⟩⟩

def environmentResources (env : Environment) : Except (BuildError E) (List (Resource Inputs)) := do
  let places ← collect (placeResources hashFile projectDir) (sortedEntries env.places)
  let graph : Graph := ⟨places ++ experienceResources env, []⟩
  let graph ← (sortedEntries env.badges).foldlM (addBadge hashFile projectDir creator) graph
  let graph ← (sortedEntries env.gamePasses).foldlM (addGamePass hashFile projectDir creator) graph
  let icons ← experienceIconResources hashFile projectDir env.icon
  let thumbnails ← thumbnailResources hashFile projectDir env.thumbnails
  return graph.resources ++ icons ++ thumbnails ++
    (sortedEntries env.products).map productResource ++
    (sortedEntries env.socialLinks).map socialLinkResource

/-- `BuildResources`: the resources of the named environment and its universe. -/
def buildResources (config : Config) (envName : Bytes) :
    Except (BuildError E) (List (Resource Inputs) × Int) :=
  match config.environments with
  | none => .error .noEnvironments
  | some environments =>
    if environments.keys = [] then .error .noEnvironments
    else
      match environments.lookup envName with
      | none => .error (.unknownEnvironment envName (sortStrings environments.keys))
      | some env =>
        if env.universeID = 0 then .error (.noUniverse envName)
        else do
          let resources ← environmentResources hashFile projectDir config.creator env
          return (resources, env.universeID)

end Rotor.Deploy
