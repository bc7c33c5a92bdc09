import Rotor.Deploy.Plan

/-!
What a dependency order and a plan contain.
-/

namespace Rotor.Deploy

open List Lib

variable {I : Type}

/-! ### The dependency order -/

variable {keys : List Bytes} {key : Bytes} {res : Resource I} {rs ordered : List (Resource I)}

lemma firstDuplicate_eq_none {seen : List Bytes} (none : firstDuplicate seen keys = none) :
    keys.Nodup ∧ ∀ key ∈ keys, key ∉ seen := by
  induction keys generalizing seen with
  | nil => simp
  | cons key keys ih =>
    rw [firstDuplicate] at none
    split at none
    · exact absurd none (by simp)
    · next new =>
        obtain ⟨nodup, fresh⟩ := ih none
        refine ⟨nodup_cons.mpr ⟨fun mem => fresh key mem (by simp), nodup⟩, ?_⟩
        intro other mem
        rcases mem_cons.mp mem with rfl | mem
        · simpa using new
        · exact fun old => fresh other mem (.tail _ old)

lemma firstDuplicate_of_nodup {seen : List Bytes} (nodup : keys.Nodup)
    (fresh : ∀ key ∈ keys, key ∉ seen) : firstDuplicate seen keys = none := by
  induction keys generalizing seen with
  | nil => rfl
  | cons key keys ih =>
    obtain ⟨absent, nodup⟩ := nodup_cons.mp nodup
    rw [firstDuplicate, if_neg (by simpa using fresh key (by simp))]
    apply ih nodup
    intro other mem old
    rcases mem_cons.mp old with rfl | old
    · exact absent mem
    · exact fresh other (by simp [mem]) old

def Closed (rs : List (Resource I)) : Prop :=
  ∀ res ∈ rs, ∀ dep ∈ res.dependsOn, dep.key ∈ rs.map Resource.key

lemma unknownDependency_eq_none_iff (rs : List (Resource I)) :
    unknownDependency rs = none ↔ Closed rs := by
  simp [unknownDependency, Closed, byKey, List.findSome?_eq_none_iff]

lemma byKey_eq_some (found : byKey rs key = some res) : res ∈ rs ∧ res.key = key :=
  ⟨mem_of_find?_eq_some found, by simpa using List.find?_some found⟩

lemma byKey_key (nodup : (rs.map Resource.key).Nodup) (mem : res ∈ rs) :
    byKey rs res.key = some res := by
  cases found : byKey rs res.key with
  | none => simpa using List.find?_eq_none.mp found res mem
  | some other =>
    obtain ⟨inside, same⟩ := byKey_eq_some found
    rw [inj_on_of_nodup_map nodup inside mem same]

def depKeys (rs : List (Resource I)) (key : Bytes) : List Bytes :=
  (byKey rs key).elim [] fun res => res.dependsOn.map ResourceRef.key

lemma count_dependents (nodup : (rs.map Resource.key).Nodup) (mem : res ∈ rs) (key : Bytes) :
    (dependents rs key).count res.key =
      (res.dependsOn.map ResourceRef.key).count key := by
  -- Another resource adds nothing: its own key is a different one.
  have own (other : Resource I) : ((other.dependsOn.filter fun dep => dep.key == key).map
      fun _ => other.key).count res.key =
      if other.key = res.key then (other.dependsOn.map ResourceRef.key).count key else 0 := by
    rw [map_const', count_replicate, List.count, countP_map, countP_eq_length_filter]
    simp [Function.comp_def]
  induction rs with
  | nil => simp at mem
  | cons first rs ih =>
    rw [map_cons, nodup_cons] at nodup
    rw [dependents, flatMap_cons, count_append, own]
    rcases mem_cons.mp mem with rfl | mem
    · have nothing : (rs.flatMap fun other => (other.dependsOn.filter fun dep =>
          dep.key == key).map fun _ => other.key).count res.key = 0 := by
        rw [count_eq_zero]
        intro inside
        obtain ⟨other, present, made⟩ := mem_flatMap.mp inside
        obtain ⟨-, -, same⟩ := mem_map.mp made
        exact nodup.1 (same ▸ mem_map_of_mem present)
      rw [if_pos rfl, nothing, Nat.add_zero]
    · have different : first.key ≠ res.key := fun same =>
        nodup.1 (same ▸ mem_map_of_mem mem)
      simpa [different, dependents] using ih nodup.2 mem

lemma dependents_graph (nodup : (rs.map Resource.key).Nodup) :
    Kahn.Graph (rs.map Resource.key) (depKeys rs) (dependents rs) where
  mem := by
    intro key other member
    obtain ⟨res, present, made⟩ := mem_flatMap.mp member
    obtain ⟨-, -, rfl⟩ := mem_map.mp made
    exact mem_map_of_mem present
  count := by
    intro key other member
    obtain ⟨res, present, rfl⟩ := mem_map.mp member
    rw [count_dependents nodup present, depKeys, byKey_key nodup present]
    rfl

lemma initial_invariant (nodup : (rs.map Resource.key).Nodup) :
    Kahn.Invariant (rs.map Resource.key) (depKeys rs) []
      ⟨indegree rs, (rs.map Resource.key).filter fun key =>
        indegree rs key == 0, []⟩ where
  nodup := by simpa using nodup.filter _
  mem := by
    intro key member
    simp only [nil_append] at member
    exact (mem_filter.mp member).1
  degree := by
    intro key _
    cases found : byKey rs key <;> simp [indegree, depKeys, Kahn.missing, found]
  ready := by
    intro key member
    simpa using fun _ => mem_map.mp member
  order := by
    intro front key back empty
    simp at empty

lemma sortStrings_perm (keys : List Bytes) : (sortStrings keys).Perm keys :=
  perm_insertionSort _ keys

lemma map_key_filterMap (known : ∀ key ∈ keys, key ∈ rs.map Resource.key) :
    (keys.filterMap (byKey rs)).map Resource.key = keys := by
  induction keys with
  | nil => rfl
  | cons key keys ih =>
    have later := ih fun other mem => known other (.tail _ mem)
    cases found : byKey rs key with
    | some res => simp [found, later, (byKey_eq_some found).2]
    | none =>
      obtain ⟨res, present, same⟩ := mem_map.mp (known key (.head _))
      exact absurd same (by simpa using List.find?_eq_none.mp found res present)

lemma perm_of_map_perm (nodup : (rs.map Resource.key).Nodup) (inside : ∀ res ∈ ordered, res ∈ rs)
    (perm : (ordered.map Resource.key).Perm (rs.map Resource.key)) :
    ordered.Perm rs := by
  have distinct : ordered.Nodup := (perm.nodup_iff.mpr nodup).of_map
  exact (distinct.subperm inside).perm_of_length_le (by simpa using perm.length_eq.ge)

def finalState (rs : List (Resource I)) : Kahn.State Bytes :=
  Kahn.loop sortStrings (dependents rs) rs.length
    ⟨indegree rs, (rs.map Resource.key).filter fun key =>
      indegree rs key == 0, []⟩

lemma topoSort_of_valid (nodup : (rs.map Resource.key).Nodup) (closed : Closed rs) : topoSort rs =
      if ((finalState rs).ordered.filterMap (byKey rs)).length = rs.length then
        .ok ((finalState rs).ordered.filterMap (byKey rs))
      else .error (.cycle (sortStrings ((rs.map Resource.key).filter fun key =>
        0 < (finalState rs).degree key))) := by
  simp only [topoSort, firstDuplicate_of_nodup nodup fun _ _ => not_mem_nil,
    (unknownDependency_eq_none_iff rs).mpr closed]
  rfl

lemma valid_of_topoSort (sorted : topoSort rs = .ok ordered) :
    (rs.map Resource.key).Nodup ∧ Closed rs := by
  rw [topoSort] at sorted
  split at sorted
  · simp at sorted
  · next noDuplicate =>
      split at sorted
      · simp at sorted
      · next noUnknown =>
          exact ⟨(firstDuplicate_eq_none noDuplicate).1,
            (unknownDependency_eq_none_iff rs).mp noUnknown⟩

section Final

variable {rs : List (Resource I)}

lemma finalState_invariant (nodup : (rs.map Resource.key).Nodup) :
    Kahn.Invariant (rs.map Resource.key) (depKeys rs) [] (finalState rs) :=
  (initial_invariant nodup).loop (dependents_graph nodup) sortStrings_perm _

lemma map_key_finalState (nodup : (rs.map Resource.key).Nodup) :
    ((finalState rs).ordered.filterMap (byKey rs)).map Resource.key =
      (finalState rs).ordered :=
  map_key_filterMap fun key member => (finalState_invariant nodup).mem key (by simp [member])

end Final

lemma topoSort_ok (sorted : topoSort rs = .ok ordered) :
    (rs.map Resource.key).Nodup ∧ ordered.Perm rs ∧
      ∀ front res back, ordered = front ++ res :: back → ∀ dep ∈ res.dependsOn,
        dep.key ∈ front.map Resource.key := by
  obtain ⟨nodup, closed⟩ := valid_of_topoSort sorted
  rw [topoSort_of_valid nodup closed] at sorted
  split at sorted
  · next whole =>
      obtain rfl := Except.ok.inj sorted
      have inv := finalState_invariant nodup
      have keys := map_key_finalState nodup
      have length := congrArg List.length keys
      have perm : (finalState rs).ordered.Perm (rs.map Resource.key) := by
        apply inv.perm
        rw [← length, length_map, length_map, whole]
      have inside : ∀ res ∈ (finalState rs).ordered.filterMap (byKey rs), res ∈ rs := by
        intro res mem
        obtain ⟨key, -, found⟩ := mem_filterMap.mp mem
        exact (byKey_eq_some found).1
      refine ⟨nodup, perm_of_map_perm nodup inside (keys.symm ▸ perm), ?_⟩
      intro front res back split dep mem
      rw [split] at keys inside
      have found := byKey_key nodup (inside res (by simp))
      apply inv.order (front.map Resource.key) res.key (back.map Resource.key)
      · simpa using keys.symm
      · simpa [depKeys, found] using ⟨dep, mem, rfl⟩
  · simp at sorted

def DependsOn (rs : List (Resource I)) (key dep : Bytes) : Prop :=
  ∃ res ∈ rs, res.key = key ∧ dep ∈ res.dependsOn.map ResourceRef.key

lemma dependsOn_iff (nodup : (rs.map Resource.key).Nodup) (key dep : Bytes) :
    DependsOn rs key dep ↔ dep ∈ depKeys rs key := by
  constructor
  · rintro ⟨res, mem, rfl, named⟩
    rwa [depKeys, byKey_key nodup mem]
  · intro named
    cases found : byKey rs key with
    | none => simp [depKeys, found] at named
    | some res =>
      obtain ⟨mem, same⟩ := byKey_eq_some found
      exact ⟨res, mem, same, by simpa [depKeys, found] using named⟩

/-- What keeps resources from being put into an order. -/
def Unsortable (rs : List (Resource I)) : Prop :=
  ¬ (rs.map Resource.key).Nodup ∨
  (∃ res ∈ rs, ∃ dep ∈ res.dependsOn, dep.key ∉ rs.map Resource.key) ∨
  ∃ key, Relation.TransGen (DependsOn rs) key key

/-- The first key of a cycle would stand in front of itself. -/
theorem sortable_of_topoSort (sorted : topoSort rs = .ok ordered) : ¬ Unsortable rs := by
  obtain ⟨nodup, perm, order⟩ := topoSort_ok sorted
  rintro (duplicate | ⟨res, mem, dep, isDep, unknown⟩ | ⟨key, cycle⟩)
  · exact duplicate nodup
  · exact unknown ((valid_of_topoSort sorted).2 res mem dep isDep)
  · have inFront : DepthFirst.Sorted (depKeys rs) (ordered.map Resource.key) := by
      intro front key back split dep isDep
      obtain ⟨first, rest, rfl, rfl, restKeys⟩ := map_eq_append_iff.mp split
      obtain ⟨res, last, rfl, rfl, rfl⟩ := map_eq_cons_iff.mp restKeys
      have found := byKey_key nodup (perm.mem_iff.mp (by simp : res ∈ _))
      rw [depKeys, found] at isDep
      obtain ⟨ref, isRef, rfl⟩ := mem_map.mp isDep
      exact order first res last rfl ref isRef
    have inOrder : key ∈ ordered.map Resource.key := by
      obtain ⟨_, ⟨res, mem, rfl, -⟩, -⟩ := Relation.TransGen.head'_iff.mp cycle
      exact mem_map_of_mem (perm.mem_iff.mpr mem)
    obtain ⟨front, back, split⟩ := append_of_mem inOrder
    have reached := inFront.reached split
      (Relation.TransGen.mono (fun a b => (dependsOn_iff nodup a b).mp) _ _ cycle)
    have distinct := ((perm.map Resource.key).nodup_iff.mpr nodup)
    rw [split, nodup_append] at distinct
    exact distinct.2.2 key reached key (by simp) rfl

lemma sorted_of_sortable (sortable : ¬ Unsortable rs) : ∃ ordered, topoSort rs = .ok ordered := by
  simp only [Unsortable, not_or, not_not, not_exists, not_and] at sortable
  obtain ⟨nodup, closed, acyclic⟩ := sortable
  have inv := finalState_invariant nodup
  have done : (finalState rs).ready = [] :=
    (initial_invariant nodup).ready_loop (dependents_graph nodup) sortStrings_perm (by simp)
  have inside : ∀ key ∈ rs.map Resource.key, ∀ dep ∈ depKeys rs key, dep ∈ rs.map Resource.key := by
    intro key _ dep isDep
    obtain ⟨res, mem, -, named⟩ := (dependsOn_iff nodup key dep).mpr isDep
    obtain ⟨ref, isRef, rfl⟩ := mem_map.mp named
    exact closed res mem ref isRef
  have whole : ∀ key ∈ rs.map Resource.key, key ∈ (finalState rs).ordered := by
    intro key mem
    by_contra left
    obtain ⟨first, cycle⟩ := inv.cycle done inside mem left
    exact acyclic first
      (Relation.TransGen.mono (fun a b => (dependsOn_iff nodup a b).mpr) _ _ cycle)
  have le := (nodup.subperm whole).length_le
  have ge := inv.length_le
  have keys := congrArg List.length (map_key_finalState nodup)
  simp only [length_map] at le ge keys
  rw [topoSort_of_valid nodup closed, if_pos (by omega)]
  exact ⟨_, rfl⟩

lemma sortStrings_eq_of_perm (keys keys' : List Bytes) (perm : keys.Perm keys') :
    sortStrings keys = sortStrings keys' := by
  have sorted := (sortStrings_perm keys).trans (perm.trans (sortStrings_perm keys').symm)
  exact sorted.eq_of_pairwise (fun _ _ _ _ => List.le_antisymm)
    (pairwise_insertionSort _ _) (pairwise_insertionSort _ _)

lemma topoSort_perm {rs' : List (Resource I)} (perm : rs.Perm rs')
    (sorted : topoSort rs = .ok ordered) : topoSort rs' = .ok ordered := by
  obtain ⟨nodup, closed⟩ := valid_of_topoSort sorted
  have keys := perm.map Resource.key
  have nodup' := keys.nodup_iff.mp nodup
  have closed' : Closed rs' := fun res mem dep isDep =>
    keys.mem_iff.mp (closed res (perm.mem_iff.mpr mem) dep isDep)
  have lookup : byKey rs = byKey rs' := by
    funext key
    cases found : byKey rs' key with
    | none =>
      refine List.find?_eq_none.mpr fun res mem => ?_
      exact List.find?_eq_none.mp found res (perm.mem_iff.mp mem)
    | some res =>
      obtain ⟨mem, rfl⟩ := byKey_eq_some found
      exact byKey_key nodup (perm.mem_iff.mpr mem)
  have degrees : indegree rs = indegree rs' := by
    funext key
    rw [indegree, indegree, lookup]
  have same : Kahn.Same (finalState rs) (finalState rs') := by
    rw [finalState, finalState, perm.length_eq, degrees]
    refine Kahn.Same.loop sortStrings_eq_of_perm (fun key => perm.flatMap_right _) _ ?_
    exact ⟨rfl, keys.filter _, rfl⟩
  rw [topoSort_of_valid nodup closed, lookup, same.ordered, perm.length_eq] at sorted
  rw [topoSort_of_valid nodup' closed']
  split at sorted
  · next whole => rw [if_pos whole, ← sorted]
  · nomatch sorted

/-- Sorting fails exactly on what has no order, and finds one order for all permutations. -/
theorem topoSort_spec (rs : List (Resource I)) :
    ((∃ error, topoSort rs = .error error) ↔ Unsortable rs) ∧
    ∀ ordered, topoSort rs = .ok ordered → ordered.Perm rs ∧
      (∀ front res back, ordered = front ++ res :: back →
        ∀ dep ∈ res.dependsOn, dep.key ∈ front.map Resource.key) ∧
      ∀ permuted : List (Resource I), rs.Perm permuted →
        topoSort permuted = .ok ordered := by
  refine ⟨⟨?_, ?_⟩, ?_⟩
  · rintro ⟨error, failed⟩
    by_contra sortable
    obtain ⟨ordered, sorted⟩ := sorted_of_sortable sortable
    rw [failed] at sorted
    nomatch sorted
  · intro unsortable
    cases result : topoSort rs with
    | error error => exact ⟨error, rfl⟩
    | ok ordered => exact absurd unsortable (sortable_of_topoSort result)
  · intro ordered sorted
    exact ⟨(topoSort_ok sorted).2.1, (topoSort_ok sorted).2.2,
      fun permuted perm => topoSort_perm perm sorted⟩

/-! ### Steps -/

section Steps

variable {E : Type} {hashInputs : I → Except E Bytes} {st : State}

def liveStep (st : State) (res : Resource I) (hash : Bytes) : Step I :=
  ⟨planOp st res.key hash, res.ref, some res, hash⟩

/-- Planning depends on the recorded state only in the operations. -/
theorem liveSteps_ok {steps : List (Step I)} (planned : liveSteps hashInputs st rs = .ok steps) :
    ∃ hashes : List Bytes, List.Forall₂ (fun res hash => hashInputs res.inputs = .ok hash)
        rs hashes ∧
      ∀ st, liveSteps hashInputs st rs =
        .ok (List.zipWith (liveStep st) rs hashes) := by
  induction rs generalizing steps with
  | nil => exact ⟨[], .nil, fun _ => rfl⟩
  | cons res rs ih =>
    rw [liveSteps] at planned
    cases hashed : hashInputs res.inputs with
    | error error => simp [hashed] at planned
    | ok hash =>
      cases later : liveSteps hashInputs st rs with
      | error error => simp [hashed, later] at planned
      | ok rest =>
        obtain ⟨hashes, hashing, plans⟩ := ih later
        refine ⟨hash :: hashes, .cons hashed hashing, fun st => ?_⟩
        simp [liveSteps, hashed, plans, liveStep]

lemma key_parseStateKey (slash : 47 ∈ key) : (parseStateKey key).key = key := by
  have whole := takeWhile_append_dropWhile (p := (· != 47)) (l := key)
  rw [parseStateKey]
  cases rest : key.dropWhile (· != 47) with
  | nil =>
    have none := dropWhile_eq_nil_iff.mp rest 47 slash
    simp at none
  | cons c name =>
    obtain rfl : c = 47 := by
      have more : key.dropWhile (· != 47) ≠ [] := by simp [rest]
      simpa [rest] using head_dropWhile_not (· != 47) more
    rw [rest] at whole
    simpa [ResourceRef.key, str] using whole

lemma mem_goneKeys : key ∈ goneKeys st ordered ↔ key ∈ st ∧ key ∉ ordered.map Resource.key := by
  rw [goneKeys, (sortStrings_perm _).mem_iff, mem_filter, AList.mem_keys]
  simp

lemma goneKeys_nodup (ordered : List (Resource I)) : (goneKeys st ordered).Nodup :=
  (sortStrings_perm _).nodup_iff.mpr (st.keys_nodup.filter _)

lemma buildPlan_ok {plan : Plan I} (planned : buildPlan hashInputs rs st true = .ok plan) :
    ∃ ordered hashes, topoSort rs = .ok ordered ∧
      List.Forall₂ (fun res hash => hashInputs res.inputs = .ok hash) ordered hashes ∧
      plan.steps = List.zipWith (liveStep st) ordered hashes ++
        (goneKeys st ordered).map (deleteStep true) ∧ plan.blockedDeletes = 0 ∧
      ∀ st, ∃ plan, buildPlan hashInputs rs st true = .ok plan ∧
        plan.steps = List.zipWith (liveStep st) ordered hashes ++
          (goneKeys st ordered).map (deleteStep true) := by
  rw [buildPlan] at planned
  cases sorted : topoSort rs with
  | error error => simp [sorted] at planned
  | ok ordered =>
    cases live : liveSteps hashInputs st ordered with
    | error error => simp [sorted, live] at planned
    | ok steps =>
      obtain ⟨hashes, hashing, plans⟩ := liveSteps_ok live
      rw [plans] at live
      obtain rfl := Except.ok.inj live
      simp only [sorted, plans, Except.ok.injEq] at planned
      refine ⟨ordered, hashes, rfl, hashing, by rw [← planned], by rw [← planned]; rfl, ?_⟩
      intro st
      simp [buildPlan, sorted, plans]

end Steps

end Rotor.Deploy
