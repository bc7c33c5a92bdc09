import Rotor.Deploy.Resources
import Rotor.Lib.Action

/-!
What `BuildResources` guarantees: the kind of a resource is the one its inputs are for, and
a resource with an icon depends on the asset of that icon.
-/

namespace Rotor.Deploy

open Lib.Action

variable {resources : List (Resource Inputs)} {graph graph' : Graph}

def kindOf : Inputs → Bytes
  | .placeFile _ => kindPlaceFile
  | .placeConfig _ => kindPlaceConfig
  | .experience _ => kindExperience
  | .badge _ => kindBadge
  | .asset _ => kindAsset
  | .gamePass _ => kindGamePass
  | .experienceIcon _ => kindExperienceIcon
  | .experienceThumbnails _ => kindExperienceThumbnails
  | .developerProduct _ => kindDeveloperProduct
  | .socialLink _ => kindSocialLink

def iconOf : Inputs → Bytes
  | .badge inputs => inputs.icon
  | .gamePass inputs => inputs.icon
  | _ => []

variable {inputs : Inputs}

lemma kindOf_eq_badge (kind : kindOf inputs = kindBadge) :
    ∃ badge, inputs = .badge badge := by
  cases inputs
  case badge badge => exact ⟨badge, rfl⟩
  all_goals
    rw [kindOf] at kind
    exact absurd kind (by decide)

lemma kindOf_eq_gamePass (kind : kindOf inputs = kindGamePass) :
    ∃ pass, inputs = .gamePass pass := by
  cases inputs
  case gamePass pass => exact ⟨pass, rfl⟩
  all_goals
    rw [kindOf] at kind
    exact absurd kind (by decide)

lemma kindOf_eq_asset (kind : kindOf inputs = kindAsset) :
    ∃ asset, inputs = .asset asset := by
  cases inputs
  case asset asset => exact ⟨asset, rfl⟩
  all_goals
    rw [kindOf] at kind
    exact absurd kind (by decide)

lemma slash_not_mem_kindOf (inputs : Inputs) : 47 ∉ kindOf inputs := by
  cases inputs
  all_goals
    rw [kindOf]
    decide

structure Wired (resource : Resource Inputs) : Prop where
  kind : resource.kind = kindOf resource.inputs
  icon : iconOf resource.inputs ≠ [] → resource.dependsOn = [⟨kindAsset, iconOf resource.inputs⟩]

def AllWired (resources : List (Resource Inputs)) : Prop := ∀ resource ∈ resources, Wired resource

lemma AllWired.append {resources' : List (Resource Inputs)} (wired : AllWired resources)
    (wired' : AllWired resources') :
    AllWired (resources ++ resources') := by
  intro resource mem
  rcases List.mem_append.mp mem with inside | inside
  · exact wired resource inside
  · exact wired' resource inside

variable {α : Type}

lemma AllWired.map {make : α → Resource Inputs} (made : ∀ val, Wired (make val))
    (values : List α) : AllWired (values.map make) := by
  intro resource mem
  obtain ⟨val, -, rfl⟩ := List.mem_map.mp mem
  exact made val

lemma Wired.plain {resource : Resource Inputs} (kind : resource.kind = kindOf resource.inputs)
    (icon : iconOf resource.inputs = []) : Wired resource :=
  ⟨kind, fun declared => absurd icon declared⟩

lemma AllWired.singleton {resource : Resource Inputs} (wired : Wired resource) :
    AllWired [resource] := by
  intro other mem
  obtain rfl := List.mem_singleton.mp mem
  exact wired

variable {icon : Bytes}

section

variable {E : Type} {hashFile : Bytes → Except E Bytes} {projectDir : Bytes}
  {creator : Option Creator}

lemma collect_ok {β ε : Type} {make : α → Except ε (List β)} {elements : List α}
    {collected : List β} {good : β → Prop}
    (made : ∀ elem list, make elem = .ok list → ∀ val ∈ list, good val)
    (ok : collect make elements = .ok collected) : ∀ val ∈ collected, good val := by
  induction elements generalizing collected with
  | nil =>
    obtain rfl := Except.ok.inj ok
    simp
  | cons elem elements ih =>
    obtain ⟨first, isFirst, ok⟩ := bind_eq_ok.mp ok
    obtain ⟨others, isOthers, ok⟩ := bind_eq_ok.mp ok
    obtain rfl := Except.ok.inj ok
    intro val mem
    rcases List.mem_append.mp mem with inside | inside
    · exact made elem first isFirst val inside
    · exact ih isOthers val inside

lemma placeResources_wired {entry : Bytes × PlaceDeploy}
    (ok : placeResources hashFile projectDir entry = .ok resources) : AllWired resources := by
  obtain ⟨hash, -, ok⟩ := bind_eq_ok.mp ok
  split at ok
  · cases ok
  · split at ok
    · obtain rfl := Except.ok.inj ok
      exact AllWired.append (.singleton (.plain rfl rfl)) (.singleton (.plain rfl rfl))
    · obtain rfl := Except.ok.inj ok
      exact .singleton (.plain rfl rfl)

lemma experienceResources_wired {env : Environment} : AllWired (experienceResources env) := by
  rw [experienceResources]
  split
  · split
    · simp [AllWired]
    · exact .singleton (.plain rfl rfl)
  · exact .singleton (.plain rfl rfl)

lemma iconAsset_wired {owner : Owner} {iconName : Bytes} (wired : AllWired graph.resources)
    (ok : iconAsset hashFile projectDir creator graph owner icon = .ok (graph', iconName)) :
    AllWired graph'.resources := by
  rw [iconAsset] at ok
  dsimp only at ok
  split at ok
  · obtain ⟨rfl, -⟩ := Prod.mk.inj (Except.ok.inj ok)
    exact wired
  · obtain ⟨hash, -, ok⟩ := bind_eq_ok.mp ok
    split at ok
    · cases ok
    · obtain ⟨rfl, -⟩ := Prod.mk.inj (Except.ok.inj ok)
      exact wired.append (.singleton (.plain rfl rfl))

lemma addWithIcon_wired {owner : Owner}
    {make : List ResourceRef → Bytes → Resource Inputs} (wired : AllWired graph.resources)
    (ok : addWithIcon hashFile projectDir creator graph owner icon make = .ok graph')
    (made : ∀ deps icon, (icon ≠ [] → deps = [⟨kindAsset, icon⟩]) → Wired (make deps icon)) :
    AllWired graph'.resources := by
  rw [addWithIcon] at ok
  split at ok
  · obtain rfl := Except.ok.inj ok
    exact wired.append (.singleton (made _ _ fun icon => absurd rfl icon))
  · obtain ⟨⟨middle, iconName⟩, isMiddle, ok⟩ := bind_eq_ok.mp ok
    obtain rfl := Except.ok.inj ok
    exact (iconAsset_wired wired isMiddle).append (.singleton (made _ _ fun _ => rfl))

lemma addBadge_wired {entry : Bytes × Badge} (wired : AllWired graph.resources)
    (ok : addBadge hashFile projectDir creator graph entry = .ok graph') :
    AllWired graph'.resources := by
  obtain ⟨name, declared⟩ := entry
  rw [addBadge] at ok
  exact addWithIcon_wired wired ok fun _ _ deps => ⟨rfl, deps⟩

lemma addGamePass_wired {entry : Bytes × GamePass} (wired : AllWired graph.resources)
    (ok : addGamePass hashFile projectDir creator graph entry = .ok graph') :
    AllWired graph'.resources := by
  obtain ⟨name, declared⟩ := entry
  rw [addGamePass] at ok
  exact addWithIcon_wired wired ok fun _ _ deps => ⟨rfl, deps⟩

lemma foldlM_wired {add : Graph → α → Except (BuildError E) Graph}
    (step : ∀ {graph graph'} (entry : α), (AllWired graph.resources) →
      add graph entry = .ok graph' → AllWired graph'.resources) {entries : List α}
    (wired : AllWired graph.resources) (ok : entries.foldlM add graph = .ok graph') :
    AllWired graph'.resources := by
  induction entries generalizing graph with
  | nil =>
    obtain rfl := Except.ok.inj ok
    exact wired
  | cons entry entries ih =>
    rw [List.foldlM_cons] at ok
    obtain ⟨middle, isMiddle, ok⟩ := bind_eq_ok.mp ok
    exact ih (step entry wired isMiddle) ok

lemma experienceIconResources_wired
    (ok : experienceIconResources hashFile projectDir icon = .ok resources) :
    AllWired resources := by
  rw [experienceIconResources] at ok
  split at ok
  · obtain rfl := Except.ok.inj ok
    simp [AllWired]
  · obtain ⟨hash, -, ok⟩ := bind_eq_ok.mp ok
    obtain rfl := Except.ok.inj ok
    exact .singleton (.plain rfl rfl)

lemma thumbnailResources_wired {files : List Bytes}
    (ok : thumbnailResources hashFile projectDir files = .ok resources) :
    AllWired resources := by
  rw [thumbnailResources] at ok
  split at ok
  · obtain rfl := Except.ok.inj ok
    simp [AllWired]
  · obtain ⟨hashes, -, ok⟩ := bind_eq_ok.mp ok
    obtain rfl := Except.ok.inj ok
    exact .singleton (.plain rfl rfl)

lemma environmentResources_wired {env : Environment}
    (ok : environmentResources hashFile projectDir creator env = .ok resources) :
    AllWired resources := by
  obtain ⟨places, isPlaces, ok⟩ := bind_eq_ok.mp ok
  obtain ⟨badges, isBadges, ok⟩ := bind_eq_ok.mp ok
  obtain ⟨passes, isPasses, ok⟩ := bind_eq_ok.mp ok
  obtain ⟨icons, isIcons, ok⟩ := bind_eq_ok.mp ok
  obtain ⟨thumbnails, isThumbnails, ok⟩ := bind_eq_ok.mp ok
  obtain rfl := Except.ok.inj ok
  have placesWired : AllWired places := collect_ok (fun _ _ => placeResources_wired) isPlaces
  have badgesWired : AllWired badges.resources :=
    foldlM_wired (fun _ => addBadge_wired) (placesWired.append experienceResources_wired) isBadges
  have passesWired : AllWired passes.resources :=
    foldlM_wired (fun _ => addGamePass_wired) badgesWired isPasses
  exact (((passesWired.append (experienceIconResources_wired isIcons)).append
    (thumbnailResources_wired isThumbnails)).append (.map (fun _ => .plain rfl rfl) _)).append
    (.map (fun _ => .plain rfl rfl) _)

lemma buildResources_wired {config : Config} {envName : Bytes} {universeID : Int}
    (ok : buildResources hashFile projectDir config envName = .ok (resources, universeID)) :
    AllWired resources := by
  rw [buildResources] at ok
  split at ok
  · cases ok
  · split at ok
    · cases ok
    · split at ok
      · cases ok
      · split at ok
        · cases ok
        · obtain ⟨built, isBuilt, ok⟩ := bind_eq_ok.mp ok
          obtain ⟨rfl, -⟩ := Prod.mk.inj (Except.ok.inj ok)
          exact environmentResources_wired isBuilt

end

end Rotor.Deploy
