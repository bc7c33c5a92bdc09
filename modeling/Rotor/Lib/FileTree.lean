import Mathlib.Data.List.Infix
import Mathlib.Data.List.Nodup

/-!
Trees of files and directories.

An entry is found under the names that lead to it from the root, and a directory is an entry of
its own, so that it can be empty. The root is always there.
-/

namespace Rotor.Lib

open List

inductive Node (C : Type) where
  | file (content : C)
  | directory
  deriving DecidableEq

def Node.isDir {C : Type} : Node C → Bool
  | .file _ => false
  | .directory => true

structure FileTree (Name C : Type) where
  entries : List (List Name × Node C)
  distinct : (entries.map (·.1)).Nodup
  parents : ∀ path name node, (path ++ [name], node) ∈ entries →
    path = [] ∨ (path, .directory) ∈ entries

namespace FileTree

variable {Name C : Type} [DecidableEq Name]

def node? (tree : FileTree Name C) (path : List Name) : Option (Node C) :=
  if path = [] then some .directory else tree.entries.lookup path

def children (tree : FileTree Name C) (dir : List Name) : List (Name × Node C) :=
  tree.entries.filterMap fun (path, node) =>
    match path.getLast? with
    | none => none
    | some name => if path.dropLast = dir then some (name, node) else none

def remove (tree : FileTree Name C) (path : List Name) : FileTree Name C where
  entries := tree.entries.filter fun entry => !path.isPrefixOf entry.1
  distinct := (tree.distinct.sublist (filter_sublist.map _))
  parents := by
    intro parent name node member
    obtain ⟨inside, kept⟩ := mem_filter.mp member
    refine (tree.parents parent name node inside).imp_right fun isParent =>
      mem_filter.mpr ⟨isParent, ?_⟩
    simp only [Bool.not_eq_true', ← Bool.not_eq_true, isPrefixOf_iff_prefix] at kept ⊢
    exact fun below => kept (below.trans (prefix_append parent [name]))

def depth (tree : FileTree Name C) : Nat :=
  tree.entries.foldr (fun entry depth => max entry.1.length depth) 0

variable {node : Node C} {path dir : List Name}

lemma lookup_eq_some {entries : List (List Name × Node C)}
    (distinct : (entries.map (·.1)).Nodup) :
    entries.lookup path = some node ↔ (path, node) ∈ entries := by
  induction entries with
  | nil => simp
  | cons first entries ih =>
    obtain ⟨path', node'⟩ := first
    rw [map_cons, nodup_cons] at distinct
    rw [lookup_cons, mem_cons, Prod.mk.injEq]
    by_cases same : path = path'
    · subst same
      have other : (path, node) ∉ entries := fun mem =>
        distinct.1 (mem_map.mpr ⟨_, mem, rfl⟩)
      simp [other, eq_comm]
    · have differs : (path == path') = false := by simpa using same
      simp only [differs]
      rw [ih distinct.2]
      simp [same]

variable {tree : FileTree Name C}

lemma node?_eq_some (below : path ≠ []) :
    tree.node? path = some node ↔ (path, node) ∈ tree.entries := by
  rw [node?, if_neg below]
  exact lookup_eq_some tree.distinct

lemma mem_children {name : Name} :
    (name, node) ∈ tree.children dir ↔ tree.node? (dir ++ [name]) = some node := by
  rw [node?_eq_some (by simp), children, mem_filterMap]
  constructor
  · rintro ⟨⟨path, node'⟩, mem, found⟩
    cases path using List.reverseRecOn with
    | nil => nomatch found
    | append_singleton front last _ =>
      simp only [List.getLast?_concat, dropLast_concat] at found
      split at found
      · rename_i same
        cases found
        rwa [same] at mem
      · nomatch found
  · intro mem
    exact ⟨_, mem, by simp⟩

lemma node?_dir {name : Name} (found : (tree.node? (dir ++ [name])).isSome) :
    tree.node? dir = some .directory := by
  obtain ⟨node, found⟩ := Option.isSome_iff_exists.mp found
  rcases tree.parents dir name node ((node?_eq_some (by simp)).mp found) with rfl | isDir
  · rfl
  · by_cases isRoot : dir = []
    · rw [node?, if_pos isRoot]
    · exact (node?_eq_some isRoot).mpr isDir

lemma node?_prefix {rest : List Name} (below : rest ≠ [])
    (found : (tree.node? (dir ++ rest)).isSome) : tree.node? dir = some .directory := by
  induction rest using List.reverseRecOn with
  | nil => exact absurd rfl below
  | append_singleton front last ih =>
    rw [← append_assoc] at found
    have isDir := node?_dir found
    by_cases front = []
    · simp_all
    · exact ih ‹_› (by simp [isDir])

lemma node?_remove (below : path ≠ []) (other : List Name) :
    (tree.remove path).node? other = if path <+: other then none else tree.node? other := by
  by_cases isRoot : other = []
  · subst isRoot
    rw [if_neg (by simpa using below), node?, node?, if_pos rfl, if_pos rfl]
  · ext node
    rw [node?_eq_some isRoot, remove, mem_filter, ← node?_eq_some isRoot]
    simp only [Bool.not_eq_true', ← Bool.not_eq_true, isPrefixOf_iff_prefix]
    split <;> simp [*]

lemma length_le_depth (found : (tree.node? path).isSome) : path.length ≤ tree.depth := by
  by_cases isRoot : path = []
  · simp [isRoot]
  · obtain ⟨node, found⟩ := Option.isSome_iff_exists.mp found
    have mem := (node?_eq_some isRoot).mp found
    rw [depth]
    generalize tree.entries = entries at mem
    induction entries with
    | nil => nomatch mem
    | cons first entries ih =>
      rw [foldr_cons]
      rcases mem_cons.mp mem with rfl | mem
      · exact Nat.le_max_left _ _
      · exact (ih mem).trans (Nat.le_max_right _ _)

lemma nodup_children (dir : List Name) : ((tree.children dir).map (·.1)).Nodup := by
  have names : (tree.children dir).map (·.1) = (tree.entries.map (·.1)).filterMap
      fun path => path.getLast?.bind fun name =>
        if path.dropLast = dir then some name else none := by
    rw [children, map_filterMap, filterMap_map]
    refine filterMap_congr fun entry _ => ?_
    obtain ⟨path, node⟩ := entry
    cases last : path.getLast? with
    | none => simp [last]
    | some name => by_cases inside : path.dropLast = dir <;> simp [last, inside]
  rw [names]
  refine tree.distinct.filterMap fun path path' name here here' => ?_
  obtain ⟨last, found, taken⟩ := Option.bind_eq_some_iff.mp here
  obtain ⟨last', found', taken'⟩ := Option.bind_eq_some_iff.mp here'
  split at taken
  · rename_i inside
    cases taken
    split at taken'
    · rename_i inside'
      cases taken'
      obtain ⟨front, rfl⟩ := List.getLast?_eq_some_iff.mp found
      obtain ⟨front', rfl⟩ := List.getLast?_eq_some_iff.mp found'
      rw [dropLast_concat] at inside inside'
      rw [inside, inside']
    · nomatch taken'
  · nomatch taken

/-! ### Trees that agree below a directory -/

def Agree (dir : List Name) (tree tree' : FileTree Name C) : Prop :=
  tree.entries.filter (fun entry => dir.isPrefixOf entry.1) =
    tree'.entries.filter (fun entry => dir.isPrefixOf entry.1)

variable {tree' : FileTree Name C} {dir : List Name}

lemma Agree.below (agree : Agree dir tree tree') {dir' : List Name} (below : dir <+: dir') :
    Agree dir' tree tree' := by
  have both : ∀ entries : List (List Name × Node C),
      entries.filter (fun entry => dir'.isPrefixOf entry.1) =
        (entries.filter fun entry => dir.isPrefixOf entry.1).filter
          fun entry => dir'.isPrefixOf entry.1 := by
    intro entries
    rw [filter_filter]
    refine filter_congr fun entry _ => ?_
    rw [Bool.eq_iff_iff, Bool.and_eq_true_iff, isPrefixOf_iff_prefix, isPrefixOf_iff_prefix]
    exact ⟨fun isBelow => ⟨isBelow, below.trans isBelow⟩, fun isBelow => isBelow.1⟩
  rw [Agree, both tree.entries, both tree'.entries, agree]

lemma Agree.children (agree : Agree dir tree tree') : tree.children dir = tree'.children dir := by
  have only : ∀ tree : FileTree Name C, tree.children dir =
      (tree.entries.filter fun entry => dir.isPrefixOf entry.1).filterMap fun (path, node) =>
        match path.getLast? with
        | none => none
        | some name => if path.dropLast = dir then some (name, node) else none := by
    intro tree
    rw [filterMap_filter]
    refine filterMap_congr fun entry _ => ?_
    obtain ⟨path, node⟩ := entry
    cases path using List.reverseRecOn with
    | nil => simp
    | append_singleton front last _ =>
      by_cases inside : front = dir
      · simp [inside]
      · simp [inside]
  rw [only, only, agree]

lemma Agree.remove (agree : Agree dir tree tree') (apart : ¬ path <+: dir)
    (apart' : ¬ dir <+: path) : Agree dir tree (tree'.remove path) := by
  rw [Agree, agree, FileTree.remove, filter_filter]
  refine filter_congr fun entry _ => ?_
  rw [Bool.eq_iff_iff, Bool.and_eq_true_iff]
  refine ⟨fun below => ⟨below, ?_⟩, fun both => both.1⟩
  rw [List.isPrefixOf_iff_prefix] at below
  rw [Bool.not_eq_true', ← Bool.not_eq_true, isPrefixOf_iff_prefix]
  exact fun below' => (List.prefix_or_prefix_of_prefix below below').elim apart' apart

end FileTree

end Rotor.Lib
