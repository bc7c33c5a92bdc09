import Rotor.Bytes

/-!
Containers of Roblox paths (`rojo/resolver.go`).

A path is attributed to the first container that agrees with it as far as the shorter of the two
goes.  A path that ends above a container therefore counts as lying in it.
-/

namespace Rotor.Rojo

abbrev RbxPath := List Bytes

inductive FileRelation where
  | outToOut | outToIn | inToOut | inToIn
  deriving DecidableEq

inductive NetworkType where
  | unknown | client | server
  deriving DecidableEq

def defaultIsolatedContainers : List RbxPath :=
  [[str "StarterPack"], [str "StarterGui"], [str "StarterPlayer", str "StarterPlayerScripts"],
    [str "StarterPlayer", str "StarterCharacterScripts"],
    [str "StarterPlayer", str "StarterCharacter"], [str "PluginDebugService"]]

def clientContainers : List RbxPath :=
  [[str "StarterPack"], [str "StarterGui"], [str "StarterPlayer"]]

def serverContainers : List RbxPath := [[str "ServerStorage"], [str "ServerScriptService"]]

/-- What the classification of paths reads of a resolver. -/
structure Containers where
  isolatedContainers : List RbxPath
  isGame : Bool

/-- The loop runs over the indices of the shorter path. -/
def arrayStartsWith : RbxPath → RbxPath → Bool
  | a :: as, b :: bs => a == b && arrayStartsWith as bs
  | _, _ => true

namespace Containers

variable (r : Containers)

def getContainer (containers : List RbxPath) (rbxPath : RbxPath) : Option RbxPath :=
  if r.isGame then containers.find? (arrayStartsWith rbxPath) else none

def getFileRelation (fileRbxPath moduleRbxPath : RbxPath) : FileRelation :=
  match r.getContainer r.isolatedContainers fileRbxPath,
    r.getContainer r.isolatedContainers moduleRbxPath with
  | some fileContainer, some moduleContainer =>
    if fileContainer = moduleContainer then .inToIn else .outToIn
  | some _, none => .inToOut
  | none, some _ => .outToIn
  | none, none => .outToOut

def isIsolated (rbxPath : RbxPath) : Bool := (r.getContainer r.isolatedContainers rbxPath).isSome

def getNetworkType (rbxPath : RbxPath) : NetworkType :=
  if (r.getContainer serverContainers rbxPath).isSome then .server
  else if (r.getContainer clientContainers rbxPath).isSome then .client
  else .unknown

/-! ### Containment -/

/-- The first container that is a front of the path. -/
def enclosing (containers : List RbxPath) (rbxPath : RbxPath) : Option RbxPath :=
  if r.isGame then containers.find? (· <+: rbxPath) else none

def LiesIn (containers : List RbxPath) (rbxPath : RbxPath) : Prop :=
  (r.enclosing containers rbxPath).isSome

/-- A path is attributed to the containers that it lies in. -/
structure Attributed (rbxPath : RbxPath) : Prop where
  container : ∀ container ∈ r.getContainer r.isolatedContainers rbxPath, container <+: rbxPath
  isolated : r.isIsolated rbxPath ↔ r.LiesIn r.isolatedContainers rbxPath
  server : r.getNetworkType rbxPath = .server ↔ r.LiesIn serverContainers rbxPath
  client : r.getNetworkType rbxPath = .client ↔
    r.LiesIn clientContainers rbxPath ∧ ¬ r.LiesIn serverContainers rbxPath

/-- The relation says which of the two paths lie in an isolated container, and whether it is the
same one. -/
structure Related (file target : RbxPath) : Prop where
  outToOut : r.getFileRelation file target = .outToOut ↔
    ¬ r.LiesIn r.isolatedContainers file ∧ ¬ r.LiesIn r.isolatedContainers target
  inToOut : r.getFileRelation file target = .inToOut ↔
    r.LiesIn r.isolatedContainers file ∧ ¬ r.LiesIn r.isolatedContainers target
  outToIn : r.getFileRelation file target = .outToIn ↔ r.LiesIn r.isolatedContainers target ∧
    r.enclosing r.isolatedContainers file ≠ r.enclosing r.isolatedContainers target
  inToIn : r.getFileRelation file target = .inToIn ↔ r.LiesIn r.isolatedContainers target ∧
    r.enclosing r.isolatedContainers file = r.enclosing r.isolatedContainers target

/-- A container that the path ends above is listed behind one that the path lies in. -/
def Settled (containers : List RbxPath) (rbxPath : RbxPath) : Prop :=
  ∀ front container back, containers = front ++ container :: back → rbxPath <+: container →
    container = rbxPath ∨ ∃ outer ∈ front, outer <+: rbxPath

end Containers

lemma arrayStartsWith_iff (path container : RbxPath) :
    arrayStartsWith path container ↔ container <+: path ∨ path <+: container := by
  induction path generalizing container with
  | nil => simp [arrayStartsWith]
  | cons name path ih =>
    cases container with
    | nil => simp [arrayStartsWith]
    | cons other container =>
      simp only [arrayStartsWith, Bool.and_eq_true, beq_iff_eq, ih, List.cons_prefix_cons,
        @eq_comm _ other]
      tauto

namespace Containers

variable {r : Containers} {containers : List RbxPath} {rbxPath : RbxPath}

lemma front_of_settled (settled : Settled containers rbxPath) :
    ∀ container ∈ containers.find? (arrayStartsWith rbxPath), container <+: rbxPath := by
  intro container found
  obtain ⟨agrees, front, back, split, earlier⟩ := List.find?_eq_some_iff_append.mp found
  obtain inside | above := (arrayStartsWith_iff _ _).mp agrees
  · exact inside
  obtain rfl | ⟨outer, mem, inside⟩ := settled front container back split above
  · exact List.prefix_rfl
  · simpa [(arrayStartsWith_iff rbxPath outer).mpr (.inl inside)] using earlier outer mem

lemma settled_of_front (inside : ∀ container ∈ containers.find? (arrayStartsWith rbxPath),
      container <+: rbxPath) : Settled containers rbxPath := by
  rintro front container back rfl above
  cases found : front.find? (arrayStartsWith rbxPath) with
  | some outer =>
    refine .inr ⟨outer, List.mem_of_find?_eq_some found, inside outer ?_⟩
    rw [List.find?_append, found]
    rfl
  | none =>
    have agrees := (arrayStartsWith_iff rbxPath container).mpr (.inr above)
    refine .inl (List.IsPrefix.eq_of_length_le (inside container ?_) above.length_le)
    rw [List.find?_append, found, List.find?_cons_of_pos agrees]
    rfl

lemma getContainer_eq (settled : r.isGame → Settled containers rbxPath) :
    r.getContainer containers rbxPath = r.enclosing containers rbxPath := by
  unfold getContainer enclosing
  split
  next game =>
    have inside := front_of_settled (settled game)
    cases found : containers.find? (arrayStartsWith rbxPath) with
    | none =>
      refine (List.find?_eq_none.mpr fun container mem within => ?_).symm
      have agrees := (arrayStartsWith_iff rbxPath container).mpr (.inl (of_decide_eq_true within))
      exact List.find?_eq_none.mp found container mem agrees
    | some container =>
      obtain ⟨-, front, back, split, earlier⟩ := List.find?_eq_some_iff_append.mp found
      have within : decide (container <+: rbxPath) = true := decide_eq_true (inside container found)
      symm
      rw [List.find?_eq_some_iff_append]
      refine ⟨within, front, back, split, fun outer mem => ?_⟩
      have apart := earlier outer mem
      rw [Bool.not_eq_true', Bool.eq_false_iff, ne_eq, arrayStartsWith_iff, not_or] at apart
      simpa using apart.1
  next => rfl

lemma settled_of_single (single : ∀ container ∈ containers, container.length = 1)
    (nonempty : rbxPath ≠ []) : Settled containers rbxPath := by
  rintro front container back rfl above
  have positive := List.length_pos_iff.mpr nonempty
  exact .inl (above.eq_of_length_le (by rw [single container (by simp)]; exact positive)).symm

lemma attributed_iff : r.Attributed rbxPath ↔
    (r.isGame → rbxPath ≠ [] ∧ Settled r.isolatedContainers rbxPath) := by
  constructor
  · intro attributed game
    constructor
    · rintro rfl
      -- The empty path agrees with the first container for servers.
      have server : r.getNetworkType [] = .server := by
        simp [getNetworkType, getContainer, game, serverContainers, arrayStartsWith]
      have inside := attributed.server.mp server
      simp [LiesIn, enclosing, game, serverContainers] at inside
    · refine settled_of_front fun container found => attributed.container container ?_
      rwa [getContainer, if_pos game]
  · intro holds
    have isolated := getContainer_eq fun game => (holds game).2
    have server : r.getContainer serverContainers rbxPath = _ :=
      getContainer_eq fun game => settled_of_single (by decide) (holds game).1
    have client : r.getContainer clientContainers rbxPath = _ :=
      getContainer_eq fun game => settled_of_single (by decide) (holds game).1
    refine ⟨fun container found => ?_, by rw [isIsolated, isolated, LiesIn], ?_, ?_⟩
    · rw [isolated, enclosing] at found
      split at found
      · simpa using List.find?_some found
      · cases found
    all_goals
      rw [getNetworkType, server, client]
      unfold LiesIn
      split
      next inServer => simp [inServer]
      next => split <;> simp_all

lemma related_of_settled {file target : RbxPath}
    (settledFile : r.isGame → Settled r.isolatedContainers file)
    (settledTarget : r.isGame → Settled r.isolatedContainers target) : r.Related file target := by
  have ofFile := getContainer_eq settledFile
  have ofTarget := getContainer_eq settledTarget
  cases inFile : r.enclosing r.isolatedContainers file <;>
    cases inTarget : r.enclosing r.isolatedContainers target <;>
    rw [inFile] at ofFile <;> rw [inTarget] at ofTarget
  case some.some outer container =>
    by_cases same : outer = container <;>
      constructor <;> simp [getFileRelation, ofFile, ofTarget, LiesIn, inFile, inTarget, same]
  all_goals
    constructor <;> simp [getFileRelation, ofFile, ofTarget, LiesIn, inFile, inTarget]

/-- Containment decides exactly when no path of a game ends above the first container it agrees
with. -/
theorem classified_iff (r : Containers) (file target : RbxPath) :
    (r.Attributed file ∧ r.Attributed target ∧ r.Related file target) ↔
      (r.isGame → (file ≠ [] ∧ Settled r.isolatedContainers file) ∧
        (target ≠ [] ∧ Settled r.isolatedContainers target)) := by
  rw [attributed_iff, attributed_iff]
  constructor
  · rintro ⟨forFile, forTarget, -⟩ game
    exact ⟨forFile game, forTarget game⟩
  · intro holds
    refine ⟨fun game => (holds game).1, fun game => (holds game).2, ?_⟩
    exact related_of_settled (fun game => (holds game).1.2) fun game => (holds game).2.2

/-- A script of `StarterPlayer` itself is taken to lie in `StarterPlayerScripts`, so that it is
imported from there by a relative path. -/
theorem starterPlayer_isolated : ∃ r : Containers, r = ⟨defaultIsolatedContainers, true⟩ ∧
      r.isIsolated [str "StarterPlayer"] ∧
      r.getFileRelation [str "StarterPlayer", str "StarterPlayerScripts", str "main"]
        [str "StarterPlayer"] = .inToIn ∧
      ¬ r.LiesIn r.isolatedContainers [str "StarterPlayer"] ∧
      ¬ r.Attributed [str "StarterPlayer"] := by
  have outside : ¬ LiesIn ⟨defaultIsolatedContainers, true⟩ defaultIsolatedContainers
      [str "StarterPlayer"] := by
    unfold LiesIn
    decide +kernel
  have isolated : isIsolated ⟨defaultIsolatedContainers, true⟩ [str "StarterPlayer"] := by
    decide +kernel
  refine ⟨_, rfl, isolated, by decide +kernel, outside, ?_⟩
  intro attributed
  exact outside (attributed.isolated.mp isolated)

end Containers

end Rotor.Rojo
