import Rotor.Lib.FileTree
import Rotor.PathSpec
import Mathlib.Data.List.Sort

/-!
A disk, as the operating system shows it under absolute paths. There are no links on it.
-/

namespace Rotor

open Lib (Node FileTree)

structure Disk extends FileTree Bytes Bytes where
  plain : ∀ entry ∈ entries, ∀ name ∈ entry.1, Path.Plain name

namespace Disk

def ofEntries (entries : List (List Bytes × Node Bytes)) (distinct : (entries.map (·.1)).Nodup)
    (parents : ∀ entry ∈ entries,
      entry.1.dropLast = [] ∨ (entry.1.dropLast, Node.directory) ∈ entries)
    (plain : ∀ entry ∈ entries, ∀ name ∈ entry.1, Path.Plain name) : Disk where
  entries := entries
  distinct := distinct
  parents := by
    intro path name node member
    simpa using parents _ member
  plain := plain

variable (disk : Disk)

/-- Where the elements of a path lead to, one after the other. -/
def walk : List Bytes → List Bytes → Option (List Bytes)
  | here, [] => some here
  | here, element :: rest =>
    if disk.node? here = some .directory then
      if element = [] ∨ element = str "." then walk here rest
      else if element = str ".." then walk here.dropLast rest
      else walk (here ++ [element]) rest
    else none

def find (path : Bytes) : Option (List Bytes) :=
  if Path.isAbs path then disk.walk [] (Path.elements path) else none

def lookup (path : Bytes) : Option (Node Bytes) := (disk.find path).bind disk.node?

def stat (path : Bytes) : Bool := (disk.lookup path).isSome

def listing (names : List Bytes) : List (Bytes × Node Bytes) :=
  (disk.children names).insertionSort fun entry other => entry.1 ≤ other.1

def readDir (path : Bytes) : Option (List (Bytes × Node Bytes)) :=
  (disk.find path).bind fun names =>
    if disk.node? names = some .directory then some (disk.listing names) else none

def without (names : List Bytes) : Disk where
  toFileTree := disk.remove names
  plain := fun entry member => disk.plain entry (List.mem_of_mem_filter member)

def removeAll (path : Bytes) : Disk :=
  match disk.find path with
  | none => disk
  | some names => disk.without names

variable {disk}

variable {names : List Bytes}

lemma plain_of_node? (found : (disk.node? names).isSome) : ∀ name ∈ names, Path.Plain name := by
  by_cases isRoot : names = []
  · simp [isRoot]
  · obtain ⟨node, found⟩ := Option.isSome_iff_exists.mp found
    exact disk.plain _ ((FileTree.node?_eq_some isRoot).mp found)

lemma walk_cons {first : Bytes} (plain : Path.Plain first) (names here : List Bytes) :
    disk.walk here (first :: names) =
      if disk.node? here = some .directory then disk.walk (here ++ [first]) names else none := by
  rw [walk]
  split
  · rw [if_neg (by simp [plain.ne_nil, plain.ne_dot]), if_neg plain.ne_up]
  · rfl

lemma walk_of_found {here : List Bytes} (found : (disk.node? (here ++ names)).isSome) :
    disk.walk here names = some (here ++ names) := by
  have plain := plain_of_node? found
  induction names generalizing here with
  | nil => simp [walk]
  | cons first names ih =>
    rw [walk_cons (plain first (by simp)), if_pos (FileTree.node?_prefix (by simp) found)]
    have rest : here ++ first :: names = here ++ [first] ++ names := by simp
    rw [rest] at found plain ⊢
    exact ih found plain

lemma mem_listing {name : Bytes} {node : Node Bytes} :
    (name, node) ∈ disk.listing names ↔ disk.node? (names ++ [name]) = some node := by
  rw [listing, List.mem_insertionSort, FileTree.mem_children]

lemma nodup_listing (names : List Bytes) : ((disk.listing names).map (·.1)).Nodup :=
  (((List.perm_insertionSort _ _).map _).nodup_iff).mpr (FileTree.nodup_children names)

lemma node?_without (below : names ≠ []) (other : List Bytes) :
    (disk.without names).node? other = if names <+: other then none else disk.node? other :=
  FileTree.node?_remove below other

variable (plain : ∀ name ∈ names, Path.Plain name)
include plain

lemma bind_walk (here : List Bytes) :
    (disk.walk here names).bind disk.node? = disk.node? (here ++ names) := by
  induction names generalizing here with
  | nil => simp [walk]
  | cons first names ih =>
    rw [walk_cons (plain first (by simp))]
    split
    · rw [ih (fun name mem => plain name (by simp [mem]))]
      simp
    · rename_i notDir
      refine (Option.not_isSome_iff_eq_none.mp fun found => notDir ?_).symm
      exact FileTree.node?_prefix (by simp) found

lemma find_rooted :
    disk.find (Path.rooted names) = disk.walk [] names := by
  rw [find, if_pos (Path.isAbs_rooted names)]
  by_cases isRoot : names = []
  · subst isRoot
    rfl
  · rw [Path.elements_rooted plain isRoot]
    rfl

lemma lookup_rooted :
    disk.lookup (Path.rooted names) = disk.node? names := by
  rw [lookup, find_rooted plain, bind_walk plain]
  rfl

omit plain in
lemma stat_canonical {path : Bytes} (canonical : Path.Canonical path) :
    disk.stat path ↔ (disk.node? (Path.names path)).isSome := by
  obtain ⟨names, plain, same⟩ := Path.clean_of_isAbs canonical.absolute
  rw [canonical.cleaned] at same
  rw [same, stat, lookup_rooted plain, Path.names_rooted plain]

lemma readDir_rooted :
    disk.readDir (Path.rooted names) =
      if disk.node? names = some .directory then some (disk.listing names) else none := by
  rw [readDir, find_rooted plain]
  split
  · rename_i isDir
    have found : (disk.node? ([] ++ names)).isSome := by simp [isDir]
    rw [walk_of_found found]
    exact if_pos isDir
  · rename_i notDir
    refine Option.bind_eq_none_iff.mpr fun names' walked => if_neg fun isDir => notDir ?_
    rw [← List.nil_append names, ← bind_walk plain, walked]
    exact isDir

lemma walk_cases (here : List Bytes) :
    disk.walk here names = none ∨ disk.walk here names = some (here ++ names) := by
  induction names generalizing here with
  | nil => simp [walk]
  | cons first names ih =>
    rw [walk_cons (plain first (by simp))]
    split
    · simpa using ih (fun name mem => plain name (by simp [mem])) (here ++ [first])
    · exact Or.inl rfl

lemma removeAll_cases :
    (disk.removeAll (Path.rooted names) = disk ∧ disk.node? names = none) ∨
      disk.removeAll (Path.rooted names) = disk.without names := by
  rw [removeAll, find_rooted plain]
  rcases disk.walk_cases plain [] with walked | walked
  · refine Or.inl ⟨by rw [walked], ?_⟩
    rw [← List.nil_append names, ← bind_walk plain, walked]
    rfl
  · refine Or.inr ?_
    rw [walked]
    rfl

lemma node?_removeAll (below : names ≠ [])
    (other : List Bytes) :
    (disk.removeAll (Path.rooted names)).node? other =
      if names <+: other then none else disk.node? other := by
  rcases disk.removeAll_cases plain with ⟨kept, missing⟩ | removed
  · rw [kept]
    split
    · rename_i isBelow
      obtain ⟨rest, rfl⟩ := isBelow
      by_cases same : rest = []
      · simpa [same] using missing
      · refine Option.not_isSome_iff_eq_none.mp fun found => ?_
        cases missing.symm.trans (FileTree.node?_prefix same found)
    · rfl
  · rw [removed, node?_without below]

end Disk

end Rotor
