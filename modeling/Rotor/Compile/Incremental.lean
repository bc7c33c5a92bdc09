import Mathlib.Data.List.AList
import Rotor.Bytes
import Rotor.Lib.Worklist

/-!
The files that an incremental build compiles again (`compile/incremental_manifest.go`).

A file is its place in the program; the path under which a manifest lists it is a parameter.
-/

namespace Rotor.Compile

open List Lib

structure IncrementalFileState where
  hash : Bytes
  refs : List Bytes

structure IncrementalManifest where
  salt : Bytes
  files : AList fun _ : Bytes => IncrementalFileState

namespace IncrementalManifest

variable (current previous : IncrementalManifest)

/-- The paths with another hash, those that are new and those that are gone. -/
def changed : List Bytes :=
  (current.files.entries.filter fun file =>
    (previous.files.lookup file.1).all fun prev => prev.hash != file.2.hash).map Sigma.fst ++
  previous.files.keys.filter (· ∉ current.files)

def reverseDeps (dep : Bytes) : List Bytes :=
  current.files.entries.flatMap fun file =>
    (file.2.refs.filter (· == dep)).map fun _ => file.1

end IncrementalManifest

/-- Every path that is put into the queue is marked or has changed, which bounds the rounds. -/
def selectIncrementalSourceFiles {F : Type} (normalizedPath : F → Bytes)
    (sourceFiles : List F) (current : IncrementalManifest) :
    Option IncrementalManifest → List F
  | none => sourceFiles
  | some previous =>
    if previous.salt ≠ current.salt then sourceFiles
    else
      let changed := current.changed previous
      if changed = [] then []
      else
        let reverse dep := current.reverseDeps dep ++ previous.reverseDeps dep
        let selected := Worklist.spread reverse
          (changed.length + (current.files.keys ++ previous.files.keys).length)
          changed (changed.filter (· ∈ current.files))
        sourceFiles.filter (normalizedPath · ∈ selected)

namespace IncrementalManifest

def hashOf (manifest : IncrementalManifest) (path : Bytes) : Option Bytes :=
  (manifest.files.lookup path).map IncrementalFileState.hash

def Refers (current previous : IncrementalManifest) (path dep : Bytes) : Prop :=
  ∃ manifest ∈ [current, previous], ∃ state ∈ manifest.files.lookup path, dep ∈ state.refs

/-- A changed path is reached from here; a changed file that is still there reaches itself. -/
def Affected (current previous : IncrementalManifest) (path : Bytes) : Prop :=
  (path ∈ current.files ∧ current.hashOf path ≠ previous.hashOf path) ∨
    ∃ dep, current.hashOf dep ≠ previous.hashOf dep ∧
      Relation.TransGen (Refers current previous) path dep

variable {current previous : IncrementalManifest}

lemma mem_changed (path : Bytes) :
    path ∈ current.changed previous ↔ current.hashOf path ≠ previous.hashOf path := by
  have listed : path ∈ current.changed previous ↔ (∃ state ∈ current.files.lookup path,
        (previous.files.lookup path).all fun prev => prev.hash != state.hash) ∨
      (path ∈ previous.files ∧ path ∉ current.files) := by
    simp only [changed, mem_append, mem_map, mem_filter, decide_eq_true_eq,
      AList.mem_lookup_iff, Sigma.exists, exists_and_right, exists_eq_right]
    rfl
  rw [listed, ← AList.lookup_isSome, ← AList.lookup_isSome, hashOf, hashOf]
  cases current.files.lookup path <;> cases previous.files.lookup path <;> simp
  exact ne_comm

lemma mem_reverseDeps (path dep : Bytes) :
    path ∈ current.reverseDeps dep ↔ ∃ state ∈ current.files.lookup path, dep ∈ state.refs := by
  simp only [reverseDeps, mem_flatMap, mem_map, mem_filter, beq_iff_eq,
    AList.mem_lookup_iff, Sigma.exists]
  grind

lemma mem_selected {fuel : Nat} (enough : (current.changed previous).length +
      (current.files.keys ++ previous.files.keys).length ≤ fuel) (path : Bytes) :
    path ∈ Worklist.spread (fun dep => current.reverseDeps dep ++ previous.reverseDeps dep) fuel
      (current.changed previous) ((current.changed previous).filter (· ∈ current.files)) ↔
    Affected current previous path := by
  have importers (dep importer : Bytes) :
      importer ∈ current.reverseDeps dep ++ previous.reverseDeps dep ↔
        Refers current previous importer dep := by
    simp [Refers, mem_reverseDeps]
  have inside (dep : Bytes) : ∀ importer ∈ current.reverseDeps dep ++ previous.reverseDeps dep,
      importer ∈ current.files.keys ++ previous.files.keys := by
    intro importer mem
    obtain ⟨manifest, isOne, state, found, -⟩ := (importers dep importer).mp mem
    have listed : importer ∈ manifest.files := AList.lookup_isSome.mp (Option.isSome_of_mem found)
    simp only [mem_cons, not_mem_nil, or_false] at isOne
    rw [mem_append]
    rcases isOne with rfl | rfl
    · exact Or.inl listed
    · exact Or.inr listed
  rw [Worklist.mem_spread inside (fun node mem => Or.inl (mem_filter.mp mem).1)
    ((Nat.add_le_add_left countP_le_length _).trans enough)]
  simp only [importers, mem_filter, mem_changed, decide_eq_true_eq, Affected]
  rw [and_comm]
  refine or_congr_right (exists_congr fun dep => and_congr_right fun _ => ?_)
  exact Relation.transGen_swap

open Classical in
/-- Under the same salt the affected files are selected, in their order; otherwise all are. -/
theorem selectIncrementalSourceFiles_spec {F : Type} (normalizedPath : F → Bytes)
    (sourceFiles : List F) (current : IncrementalManifest) :
    selectIncrementalSourceFiles normalizedPath sourceFiles current none = sourceFiles ∧
    ∀ previous : IncrementalManifest,
      selectIncrementalSourceFiles normalizedPath sourceFiles current (some previous) =
        if previous.salt = current.salt then
          sourceFiles.filter fun file => Affected current previous (normalizedPath file)
        else sourceFiles := by
  refine ⟨rfl, fun previous => ?_⟩
  unfold selectIncrementalSourceFiles
  dsimp only
  rw [ite_not]
  refine if_congr Iff.rfl ?_ rfl
  split
  · next unchanged =>
      -- Without a changed path there is nothing to reach.
      have none (path : Bytes) : ¬ current.hashOf path ≠ previous.hashOf path := by
        rw [← mem_changed, unchanged]
        exact not_mem_nil
      symm
      rw [filter_eq_nil_iff]
      simp [Affected, none]
  · refine filter_congr fun file _ => ?_
    exact decide_eq_decide.mpr (mem_selected (Nat.le_refl _) _)

end IncrementalManifest

end Rotor.Compile
