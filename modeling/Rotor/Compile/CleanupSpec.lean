import Rotor.Compile.Cleanup

/-!
What the removal of orphaned outputs leaves alone.

Whether an output is orphaned depends on the disk at the time it is judged, and what has been
removed before can have been one of its inputs. The condemned paths say from the disk at the start
alone what will be removed: those whose inputs are all missing, or are at or below a path that is
visited earlier and condemned itself.
-/

namespace Rotor.Compile

open List
open Rotor.Path (isAbs rooted)

open Rojo (PathTranslator hasSuffix trimSuffix)
open Lib (Node FileTree)

variable {idx : Nat} {dir path : List Bytes}

section Cleanup

variable (trans : PathTranslator) (maps : Bool)

/-- An output is orphaned on a disk exactly when these inputs are missing there. -/
structure Guards (outPath : Bytes) (inputs : List Bytes) : Prop where
  canonical : ∀ input ∈ inputs, Path.Canonical input
  orphaned_iff : ∀ disk, isOutputFileOrphanedWithSourceMaps trans maps disk outPath ↔
    ∀ input ∈ inputs, ¬ disk.stat input

/-- The paths that are judged because of an entry of a directory. -/
def entryVisits (recurse : List Bytes → List (List Bytes)) (dir : List Bytes)
    (entry : Bytes × Node Bytes) : List (List Bytes) :=
  let path := dir ++ [entry.1]
  if entry.2.isDir then
    if entry.1 = str ".git" then [] else recurse path ++ [path]
  else [path]

def visits (disk : Disk) : Nat → List Bytes → List (List Bytes)
  | 0, _ => []
  | fuel + 1, dir => (disk.listing dir).flatMap (entryVisits (visits disk fuel) dir)

def outputVisits (disk : Disk) : List (List Bytes) :=
  visits disk (disk.depth + 1) (Path.names trans.outDir)

/-- The path that is visited at an index will be removed: each of its inputs is missing, or is at
or below a path that is visited earlier and will be removed. -/
inductive Condemned (disk : Disk) : Nat → Prop where
  | intro {index : Nat} {path : List Bytes} {inputs : List Bytes} (earlier : Bytes → Nat)
      (visited : (outputVisits trans disk)[index]? = some path)
      (guarded : Guards trans maps (rooted path) inputs)
      (covered : ∀ input ∈ inputs, disk.stat input → earlier input < index ∧
        ∃ other, (outputVisits trans disk)[earlier input]? = some other ∧
          other <+: Path.names input)
      (condemned : ∀ input ∈ inputs, disk.stat input → Condemned disk (earlier input)) :
      Condemned disk index

def InGit (disk : Disk) (path : List Bytes) : Prop :=
  ∃ dir, disk.node? (dir ++ [str ".git"]) = some .directory ∧
    dir ++ [str ".git"] <+: path ∧ path ≠ dir ++ [str ".git"]

/-- The caches that are kept beside the outputs. -/
def IsCacheFile (path : List Bytes) : Prop :=
  ∃ name ∈ [str "rbxts.copyfiles.json", str "rbxts.rojocache.json",
    str "rbxts.typeroots.rojocache.json"], path.getLast? = some name

/-- Files that are not orphaned, cache files, the build info, all that is in `.git` and the files
below the root directory are left alone. -/
structure Spares (disk disk' : Disk) : Prop where
  unorphaned : ∀ path content, disk.node? path = some (.file content) →
    isOutputFileOrphanedWithSourceMaps trans maps disk (rooted path) = false →
    disk'.node? path = some (.file content)
  caches : ∀ path content, disk.node? path = some (.file content) → IsCacheFile path →
    disk'.node? path = some (.file content)
  buildInfo : ∀ path content, disk.node? path = some (.file content) →
    rooted path = trans.buildInfoOutputPath → disk'.node? path = some (.file content)
  git : ∀ path node, disk.node? path = some node → InGit disk path → disk'.node? path = some node
  sources : ∀ path content, disk.node? path = some (.file content) →
    Path.names trans.rootDir <+: path → disk'.node? path = some (.file content)

/-- A file that the cleanup may remove. -/
structure Removable (disk : Disk) (path : List Bytes) : Prop where
  orphaned : isOutputFileOrphanedWithSourceMaps trans maps disk (rooted path) = true
  notCache : ¬ IsCacheFile path
  notBuildInfo : rooted path ≠ trans.buildInfoOutputPath
  notSource : ¬ Path.names trans.rootDir <+: path

/-- All files at or below a path may be removed, and nothing there is in `.git`. -/
structure Harmless (disk : Disk) (path : List Bytes) : Prop where
  files : ∀ below content, path <+: below → disk.node? below = some (.file content) →
    Removable trans maps disk below
  git : ∀ below, path <+: below → (disk.node? below).isSome → ¬ InGit disk below

variable {trans maps} {disk : Disk}

lemma exists_guards (absolute : isAbs trans.rootDir) {outPath : Bytes}
    (orphaned : isOutputFileOrphanedWithSourceMaps trans maps disk outPath) :
    ∃ inputs, Guards trans maps outPath inputs := by
  have own := Rojo.canonical_getInputPaths absolute outPath
  have mapped := Rojo.canonical_getInputPaths absolute (trimSuffix outPath (str ".map"))
  simp only [isOutputFileOrphanedWithSourceMaps] at orphaned
  split at orphaned
  · nomatch orphaned
  · next protects =>
  have notCache : Path.base outPath ∉ protectedOutputFilenames := by simpa using protects
  split at orphaned
  · next isLuauMap =>
    cases isMaps : maps
    · exact ⟨[], forall_mem_nil _, fun disk => by
        simp [isOutputFileOrphanedWithSourceMaps, notCache, isLuauMap]⟩
    · exact ⟨_, mapped, fun disk => by
        simp [isOutputFileOrphanedWithSourceMaps, notCache, isLuauMap]⟩
  · next notLuauMap =>
  split at orphaned
  · next isDeclaration =>
    exact ⟨[], forall_mem_nil _, fun disk => by
      rw [isOutputFileOrphanedWithSourceMaps]
      simp [notCache, notLuauMap, isDeclaration]⟩
  · next notDeclaration =>
    have notInfo : trans.buildInfoOutputPath ≠ outPath := by
      rintro rfl
      simp at orphaned
    refine ⟨trans.getInputPaths outPath ++ if hasSuffix outPath (str ".map") then
      trans.getInputPaths (trimSuffix outPath (str ".map")) else [], ?_, fun disk => ?_⟩
    · intro input mem
      rcases mem_append.mp mem with mem | mem
      · exact own input mem
      · split at mem
        · exact mapped input mem
        · nomatch mem
    · rw [isOutputFileOrphanedWithSourceMaps]
      by_cases isMap : hasSuffix outPath (str ".map")
      · simp [notCache, notLuauMap, notDeclaration, isMap, notInfo, or_imp, forall_and, and_comm]
      · simp [notCache, notLuauMap, notDeclaration, isMap, notInfo]

lemma not_orphaned_of_isCacheFile (plain : ∀ name ∈ path, Path.Plain name)
    (isCache : IsCacheFile path) :
    isOutputFileOrphanedWithSourceMaps trans maps disk (rooted path) = false := by
  obtain ⟨name, mem, last⟩ := isCache
  obtain ⟨front, rfl⟩ : ∃ front, path = front ++ [name] := ⟨path.dropLast, by
    rw [List.dropLast_append_getLast? name last]⟩
  have base : Path.base (rooted (front ++ [name])) = name := Path.base_rooted plain
  have protects : protectedOutputFilenames.contains name = true := by
    simp only [mem_cons, not_mem_nil, or_false] at mem
    rcases mem with rfl | rfl | rfl <;> decide
  rw [isOutputFileOrphanedWithSourceMaps]
  simp only [base, protects, if_true]

lemma condemned_iff : Condemned trans maps disk idx ↔
      ∃ path inputs, (outputVisits trans disk)[idx]? = some path ∧
        Guards trans maps (rooted path) inputs ∧
        ∀ input ∈ inputs, disk.stat input → ∃ earlier < idx, Condemned trans maps disk earlier ∧
          ∃ other, (outputVisits trans disk)[earlier]? = some other ∧
            other <+: Path.names input := by
  constructor
  · rintro ⟨earlier, visited, guarded, covered, condemned⟩
    refine ⟨_, _, visited, guarded, fun input mem there => ?_⟩
    obtain ⟨before, isCovered⟩ := covered input mem there
    exact ⟨earlier input, before, condemned input mem there, isCovered⟩
  · rintro ⟨path, inputs, visited, guarded, covered⟩
    choose! earlier isCovered using covered
    exact .intro earlier visited guarded
      (fun input mem there => ⟨(isCovered input mem there).1, (isCovered input mem there).2.2⟩)
      (fun input mem there => (isCovered input mem there).2.1)

/-! ### The walk visits the paths one after the other -/

variable (trans maps) in
def judge (disk : Disk) (path : List Bytes) : Disk :=
  tryRemoveOutput trans maps disk (rooted path)

lemma below_of_mem_entryVisits {recurse : List Bytes → List (List Bytes)}
    {entry : Bytes × Node Bytes} (found : disk.node? (dir ++ [entry.1]) = some entry.2)
    (inside : ∀ path ∈ recurse (dir ++ [entry.1]),
      dir ++ [entry.1] <+: path ∧ (disk.node? path).isSome) :
    ∀ path ∈ entryVisits recurse dir entry,
      dir ++ [entry.1] <+: path ∧ (disk.node? path).isSome := by
  have self : ∀ path ∈ [dir ++ [entry.1]],
      dir ++ [entry.1] <+: path ∧ (disk.node? path).isSome := by
    intro path visited
    rw [mem_singleton.mp visited, found]
    exact ⟨prefix_refl _, rfl⟩
  rw [entryVisits]
  split
  · split
    · exact fun path visited => by cases visited
    · intro path visited
      exact (mem_append.mp visited).elim (inside path) (self path)
  · exact self

lemma below_of_mem_visits {fuel : Nat} :
    ∀ path ∈ visits disk fuel dir, ∃ name, dir ++ [name] <+: path ∧ (disk.node? path).isSome := by
  induction fuel generalizing dir with
  | zero => exact fun path visited => nomatch visited
  | succ fuel ih =>
    intro path visited
    obtain ⟨entry, mem, visited⟩ := mem_flatMap.mp visited
    refine ⟨entry.1, below_of_mem_entryVisits (Disk.mem_listing.mp mem) ?_ path visited⟩
    intro path visited
    obtain ⟨_, below, found⟩ := ih path visited
    exact ⟨(prefix_append _ _).trans below, found⟩

lemma not_prefix_of_ne {name name' : Bytes} (differ : name ≠ name') :
    ¬ dir ++ [name] <+: dir ++ [name'] := by
  intro below
  have same := List.IsPrefix.eq_of_length below (by simp)
  exact differ (by simpa using same)

lemma foldl_judge_apart {orig : Disk} {paths : List (List Bytes)} {place : List Bytes}
    (inside : ∀ path ∈ paths, place <+: path ∧ (orig.node? path).isSome)
    (apart : ¬ place <+: dir) (apart' : ¬ dir <+: place)
    (agree : FileTree.Agree dir orig.toFileTree disk.toFileTree) :
    let disk' := paths.foldl (judge trans maps) disk
    FileTree.Agree dir orig.toFileTree disk'.toFileTree ∧ disk'.node? dir = disk.node? dir := by
  induction paths generalizing disk with
  | nil => exact ⟨agree, rfl⟩
  | cons path paths ih =>
    obtain ⟨isInside, found⟩ := inside path (by simp)
    have plain := Disk.plain_of_node? found
    have notAbove : ¬ path <+: dir := fun above => apart (isInside.trans above)
    have notBelow : ¬ dir <+: path := fun below =>
      (List.prefix_or_prefix_of_prefix isInside below).elim apart apart'
    have next : FileTree.Agree dir orig.toFileTree (judge trans maps disk path).toFileTree ∧
        (judge trans maps disk path).node? dir = disk.node? dir := by
      rw [judge, tryRemoveOutput]
      split
      · rcases disk.removeAll_cases plain with ⟨kept, _⟩ | removed
        · rw [kept]
          exact ⟨agree, rfl⟩
        · rw [removed]
          refine ⟨agree.remove notAbove notBelow, ?_⟩
          have below : path ≠ [] := fun isRoot => notAbove (isRoot ▸ nil_prefix)
          rw [Disk.node?_without below, if_neg notAbove]
      · exact ⟨agree, rfl⟩
    obtain ⟨agree', same⟩ := ih (fun other mem => inside other (by simp [mem])) next.1
    exact ⟨agree', same.trans next.2⟩

lemma cleanupDirRecursively_eq {orig : Disk} {fuel : Nat} (isDir : disk.node? dir = some .directory)
    (found : (orig.node? dir).isSome) (agree : FileTree.Agree dir orig.toFileTree disk.toFileTree)
    (enough : orig.depth < fuel + dir.length) :
    cleanupDirRecursively trans maps fuel disk (rooted dir) =
      some ((visits orig fuel dir).foldl (judge trans maps) disk) := by
  induction fuel generalizing disk dir with
  | zero => exact absurd (FileTree.length_le_depth found) (by omega)
  | succ fuel ih =>
    have plain := Disk.plain_of_node? found
    have sameListing : disk.listing dir = orig.listing dir := by
      rw [Disk.listing, Disk.listing, agree.children]
    rw [cleanupDirRecursively, Disk.readDir_rooted plain, if_pos isDir, sameListing, visits]
    dsimp only
    -- the entries that are still to be visited are as they were in the beginning
    have unchanged : ∀ entry ∈ orig.listing dir, orig.node? (dir ++ [entry.1]) = some entry.2 ∧
          disk.node? (dir ++ [entry.1]) = some entry.2 ∧
          FileTree.Agree (dir ++ [entry.1]) orig.toFileTree disk.toFileTree := by
      intro entry mem
      exact ⟨Disk.mem_listing.mp mem, Disk.mem_listing.mp (sameListing ▸ mem),
        agree.below (prefix_append _ _)⟩
    have distinct : ((orig.listing dir).map (·.1)).Nodup := Disk.nodup_listing dir
    generalize orig.listing dir = entries at unchanged distinct
    clear sameListing isDir agree
    induction entries generalizing disk with
    | nil => rfl
    | cons entry entries ih' =>
      obtain ⟨inOriginal, inDisk, agree⟩ := unchanged entry (by simp)
      have found' : (orig.node? (dir ++ [entry.1])).isSome := by rw [inOriginal]; rfl
      have plain' := Disk.plain_of_node? found'
      have joined := Path.join_rooted plain (plain' entry.1 (by simp))
      have one : cleanupEntry trans maps
          (cleanupDirRecursively trans maps fuel) (rooted dir) disk entry =
          some ((entryVisits (visits orig fuel) dir entry).foldl
            (judge trans maps) disk) := by
        rw [cleanupEntry, entryVisits, joined]
        split
        · rename_i isDir
          split
          · rfl
          · have isDir' : entry.2 = .directory := by
              cases node : entry.2 with
              | file content => rw [node] at isDir; cases isDir
              | directory => rfl
            rw [isDir'] at inDisk
            rw [ih inDisk found' agree (by simp; omega), foldl_append]
            rfl
        · rfl
      rw [foldlM_cons, one, flatMap_cons, foldl_append]
      rw [map_cons, nodup_cons] at distinct
      refine ih' (fun other mem => ?_) distinct.2
      obtain ⟨inOriginal', inDisk', agree'⟩ := unchanged other (by simp [mem])
      have differ : entry.1 ≠ other.1 := fun same =>
        distinct.1 (same ▸ mem_map_of_mem (f := Prod.fst) mem)
      obtain ⟨agree'', same⟩ := foldl_judge_apart
        (below_of_mem_entryVisits inOriginal fun path visited => by
          obtain ⟨_, below, found⟩ := below_of_mem_visits path visited
          exact ⟨(prefix_append _ _).trans below, found⟩)
        (not_prefix_of_ne differ) (not_prefix_of_ne differ.symm) agree'
      exact ⟨inOriginal', same.trans inDisk', agree''⟩

/-! ### What is removed -/

variable (trans maps disk) in
/-- A path is at or below one that is condemned and visited before the index. -/
def Doomed (index : Nat) (path : List Bytes) : Prop :=
  ∃ earlier < index, Condemned trans maps disk earlier ∧
    ∃ other, (outputVisits trans disk)[earlier]? = some other ∧ other <+: path

lemma plain_outputVisits (visited : path ∈ outputVisits trans disk) :
    path ≠ [] ∧ ∀ name ∈ path, Path.Plain name := by
  obtain ⟨name, below, found⟩ := below_of_mem_visits path visited
  refine ⟨fun isRoot => ?_, Disk.plain_of_node? found⟩
  rw [isRoot] at below
  simp at below

open Classical in
/-- A path is orphaned on a disk without what is doomed exactly when it is condemned. -/
theorem orphaned_iff_condemned (absolute : isAbs trans.rootDir)
    (visited : (outputVisits trans disk)[idx]? = some path)
    {current : Disk} (left : ∀ other, current.node? other =
      if Doomed trans maps disk idx other then none else disk.node? other) :
    isOutputFileOrphanedWithSourceMaps trans maps current (rooted path) ↔
      Condemned trans maps disk idx := by
  have missing : ∀ input, Path.Canonical input → (¬ current.stat input ↔
      (disk.stat input → Doomed trans maps disk idx (Path.names input))) := by
    intro input canonical
    rw [Disk.stat_canonical canonical, Disk.stat_canonical canonical, left]
    split <;> simp [*]
  rw [condemned_iff]
  constructor
  · intro orphaned
    obtain ⟨inputs, guarded⟩ := exists_guards absolute orphaned
    refine ⟨path, inputs, visited, guarded, fun input mem => ?_⟩
    exact (missing input (guarded.canonical input mem)).mp
      ((guarded.orphaned_iff current).mp orphaned input mem)
  · rintro ⟨path', inputs, visited', guarded, doomed⟩
    obtain rfl : path = path' := Option.some.inj (visited.symm.trans visited')
    refine (guarded.orphaned_iff current).mpr fun input mem => ?_
    exact (missing input (guarded.canonical input mem)).mpr (doomed input mem)

lemma doomed_succ {other : List Bytes} (visited : (outputVisits trans disk)[idx]? = some path) :
    Doomed trans maps disk (idx + 1) other ↔ Doomed trans maps disk idx other ∨
        (Condemned trans maps disk idx ∧ path <+: other) := by
  constructor
  · rintro ⟨earlier, before, condemned, above, found, below⟩
    rcases Nat.lt_succ_iff_lt_or_eq.mp before with before | rfl
    · exact Or.inl ⟨earlier, before, condemned, above, found, below⟩
    · obtain rfl : path = above := Option.some.inj (visited.symm.trans found)
      exact Or.inr ⟨condemned, below⟩
  · rintro (⟨earlier, before, rest⟩ | ⟨condemned, below⟩)
    · exact ⟨earlier, Nat.lt_succ_of_lt before, rest⟩
    · exact ⟨idx, Nat.lt_succ_self idx, condemned, path, visited, below⟩

open Classical in
/-- When the walk comes to an index, what is doomed has been removed and nothing else. -/
theorem node?_after (absolute : isAbs trans.rootDir)
    (inside : idx ≤ (outputVisits trans disk).length) (path : List Bytes) :
    (((outputVisits trans disk).take idx).foldl (judge trans maps) disk).node? path =
      if Doomed trans maps disk idx path then none else disk.node? path := by
  induction idx generalizing path with
  | zero => rw [if_neg fun ⟨_, before, _⟩ => Nat.not_lt_zero _ before]; rfl
  | succ idx ih =>
    have visited := List.getElem?_eq_getElem (Nat.lt_of_succ_le inside)
    generalize (outputVisits trans disk)[idx] = current at visited
    obtain ⟨below, plain⟩ := plain_outputVisits (mem_of_getElem? visited)
    rw [take_add_one, visited, Option.toList_some, foldl_append, foldl_cons, foldl_nil]
    have left := ih (Nat.le_of_succ_le inside)
    generalize ((outputVisits trans disk).take idx).foldl (judge trans maps) disk = before at left
    have orphaned := orphaned_iff_condemned absolute visited left
    rw [judge, tryRemoveOutput]
    by_cases condemned : Condemned trans maps disk idx
    · rw [if_pos (orphaned.mpr condemned), Disk.node?_removeAll plain below, left]
      simp only [doomed_succ visited, condemned, true_and]
      by_cases current <+: path <;> simp [*]
    · rw [if_neg (mt orphaned.mp condemned), left]
      simp only [doomed_succ visited, condemned, false_and, or_false]

lemma not_condemned_of_isCacheFile (absolute : isAbs trans.rootDir)
    (visited : (outputVisits trans disk)[idx]? = some path) (isCache : IsCacheFile path) :
    ¬ Condemned trans maps disk idx := by
  have inside := (List.getElem?_eq_some_iff.mp visited).1
  rw [← orphaned_iff_condemned absolute visited (node?_after absolute inside.le),
    not_orphaned_of_isCacheFile (plain_outputVisits (mem_of_getElem? visited)).2 isCache]
  simp

lemma cleanupOutputs_eq (canonical : Path.Canonical trans.outDir) :
    cleanupOutputs trans maps disk =
      some ((outputVisits trans disk).foldl (judge trans maps) disk) := by
  obtain ⟨dir, plain, same⟩ := Path.clean_of_isAbs canonical.absolute
  rw [canonical.cleaned] at same
  rw [cleanupOutputs, outputVisits, same, Path.names_rooted plain]
  by_cases isDir : disk.node? dir = some .directory
  · exact cleanupDirRecursively_eq isDir (by rw [isDir]; rfl) rfl (by omega)
  · have empty : disk.listing dir = [] := by
      refine eq_nil_iff_forall_not_mem.mpr fun entry mem => isDir ?_
      exact FileTree.node?_dir (by rw [Disk.mem_listing.mp mem]; rfl)
    rw [cleanupDirRecursively, Disk.readDir_rooted plain, if_neg isDir, visits, empty]
    rfl

variable (trans maps disk) in
/-- What is condemned is gone with all that is below it, and everything else is left. -/
structure Cleaned (disk' : Disk) : Prop where
  gone : ∀ {idx : Nat} {above path : List Bytes}, (outputVisits trans disk)[idx]? = some above →
    Condemned trans maps disk idx → above <+: path → disk'.node? path = none
  kept : ∀ {path : List Bytes}, (∀ idx above, (outputVisits trans disk)[idx]? = some above →
    Condemned trans maps disk idx → ¬ above <+: path) → disk'.node? path = disk.node? path

lemma exists_cleaned (absolute : isAbs trans.rootDir) (canonical : Path.Canonical trans.outDir) :
    ∃ disk', cleanupOutputs trans maps disk = some disk' ∧ Cleaned trans maps disk disk' := by
  classical
  refine ⟨_, cleanupOutputs_eq canonical, ?_⟩
  have after (path : List Bytes) :
      (((outputVisits trans disk).take (outputVisits trans disk).length).foldl
        (judge trans maps) disk).node? path = _ := node?_after absolute le_rfl path
  rw [take_length] at after
  constructor
  · intro idx above path visited condemned below
    have inside := (List.getElem?_eq_some_iff.mp visited).1
    rw [after, if_pos ⟨idx, inside, condemned, above, visited, below⟩]
  · intro path spared
    rw [after, if_neg]
    rintro ⟨idx, _, condemned, above, visited, below⟩
    exact spared idx above visited condemned below

section Cleaned

variable {disk' : Disk} (cleaned : Cleaned trans maps disk disk')
include cleaned

lemma Cleaned.harmless (spares : Spares trans maps disk disk')
    (visited : (outputVisits trans disk)[idx]? = some path)
    (condemned : Condemned trans maps disk idx) : Harmless trans maps disk path := by
  have gone : ∀ below node, path <+: below → disk'.node? below ≠ some node := by
    intro below node isBelow kept
    rw [cleaned.gone visited condemned isBelow] at kept
    cases kept
  refine ⟨fun below content isBelow found => ⟨?_, fun isCache => ?_, fun isInfo => ?_,
    fun source => ?_⟩, fun below isBelow found inGit => ?_⟩
  · by_contra unorphaned
    exact gone _ _ isBelow (spares.unorphaned below content found (by simpa using unorphaned))
  · exact gone _ _ isBelow (spares.caches below content found isCache)
  · exact gone _ _ isBelow (spares.buildInfo below content found isInfo)
  · exact gone _ _ isBelow (spares.sources below content found source)
  · obtain ⟨node, found⟩ := Option.isSome_iff_exists.mp found
    exact gone _ _ isBelow (spares.git below node found inGit)

lemma Cleaned.spares (harmless : ∀ idx path, (outputVisits trans disk)[idx]? = some path →
      Condemned trans maps disk idx → Harmless trans maps disk path) :
    Spares trans maps disk disk' := by
  have kept : ∀ path node, disk.node? path = some node →
      (∀ above, above <+: path → ¬ Harmless trans maps disk above) →
      disk'.node? path = some node := by
    intro path node found harmful
    rw [cleaned.kept, found]
    intro idx above visited condemned below
    exact harmful above below (harmless idx above visited condemned)
  have keptFile : ∀ path content, disk.node? path = some (.file content) →
      ¬ Removable trans maps disk path → disk'.node? path = some (.file content) :=
    fun path content found stays => kept path _ found fun above below isHarmless =>
      stays (isHarmless.files path content below found)
  refine ⟨fun path content found unorphaned => ?_, fun path content found isCache => ?_,
    fun path content found isInfo => ?_, fun path node found inGit => ?_,
    fun path content found source => ?_⟩
  · refine keptFile path content found fun removable => ?_
    rw [removable.orphaned] at unorphaned
    cases unorphaned
  · exact keptFile path content found fun removable => removable.notCache isCache
  · exact keptFile path content found fun removable => removable.notBuildInfo isInfo
  · refine kept path node found fun above below isHarmless => ?_
    exact isHarmless.git path below (by rw [found]; rfl) inGit
  · exact keptFile path content found fun removable => removable.notSource source

end Cleaned

end Cleanup

/-- The cleanup leaves alone what it should exactly when all is harmless that it removes. A cache
file is never removed for its own path, only with a directory that it is in. -/
theorem cleanupOutputs_spares_iff (trans : PathTranslator) (maps : Bool) (disk : Disk)
    (canonicalRoot : Path.Canonical trans.rootDir) (canonicalOut : Path.Canonical trans.outDir) :
    ∃ disk', cleanupOutputs trans maps disk = some disk' ∧
      (Spares trans maps disk disk' ↔
        ∀ index path, (outputVisits trans disk)[index]? = some path →
          Condemned trans maps disk index → Harmless trans maps disk path) ∧
      ∀ index path, (outputVisits trans disk)[index]? = some path → IsCacheFile path →
        ¬ Condemned trans maps disk index := by
  obtain ⟨disk', returned, cleaned⟩ := exists_cleaned canonicalRoot.absolute canonicalOut
  refine ⟨disk', returned, ⟨fun spares index path => cleaned.harmless spares, cleaned.spares⟩,
    fun index path => not_condemned_of_isCacheFile canonicalRoot.absolute⟩

/-! ### Projects whose files are removed -/

def optionsFor (rootDir outDir : Bytes) : CompilerOptions where
  noLib := true
  strict := true
  moduleKind := .commonJS
  forceDetection := true
  bundlerResolution := true
  allowSyntheticDefaultImports := true
  typeRoots := some [str "/p/node_modules/@rbxts"]
  rootDir := rootDir
  rootDirs := none
  outDir := outDir
  declaration := false

/-- The directory of an old output holds a cache file and a repository. -/
def oldOutput : Disk :=
  .ofEntries [
    ([str "p"], .directory),
    ([str "p", str "src"], .directory),
    ([str "p", str "out"], .directory),
    ([str "p", str "out", str "old"], .directory),
    ([str "p", str "out", str "old", str "rbxts.copyfiles.json"], .file []),
    ([str "p", str "out", str "old", str ".git"], .directory),
    ([str "p", str "out", str "old", str ".git", str "HEAD"], .file [])]
    (by decide) (by decide) (by decide)

def translatorFor (outDir : Bytes) : PathTranslator :=
  Rojo.newPathTranslator (str "/p/src") outDir [] false true

theorem cleanupOutputs_spares_old :
    let trans := translatorFor (str "/p/out")
    ∃ disk', cleanupOutputs trans false oldOutput = some disk' ∧
      (Spares trans false oldOutput disk' ↔
        ∀ index path, (outputVisits trans oldOutput)[index]? = some path →
          Condemned trans false oldOutput index → Harmless trans false oldOutput path) ∧
      ∀ index path, (outputVisits trans oldOutput)[index]? = some path → IsCacheFile path →
        ¬ Condemned trans false oldOutput index :=
  cleanupOutputs_spares_iff (translatorFor (str "/p/out")) false oldOutput
    ⟨by decide, by decide⟩ ⟨by decide, by decide⟩

def nestedSources : Disk :=
  .ofEntries [
    ([str "p"], .directory),
    ([str "p", str "src"], .directory),
    ([str "p", str "src", str "index.ts"], .file [])]
    (by decide) (by decide) (by decide)

/-- The options are accepted, and the cleanup does not leave alone what it should. -/
def Violates (options : CompilerOptions) (disk : Disk) : Prop :=
  validateCompilerOptions disk options (str "/p") ⟨some (str "Node"), [], none⟩ = [] ∧
    ∃ trans, createPathTranslator options options.rootDir [] true = some trans ∧
      ∃ disk', cleanupOutputs trans false disk = some disk' ∧ ¬ Spares trans false disk disk'

def loses (trans : PathTranslator) (disk : Disk) (path : List Bytes) : Bool :=
  match cleanupOutputs trans false disk with
  | none => false
  | some disk' => disk'.node? path == none

lemma not_spares_of_loses {trans : PathTranslator} {disk : Disk} (lost : loses trans disk path)
    (spared : ∀ disk', Spares trans false disk disk' → disk'.node? path ≠ none) :
    ∃ disk', cleanupOutputs trans false disk = some disk' ∧
      ¬ Spares trans false disk disk' := by
  rw [loses.eq_def] at lost
  split at lost
  · nomatch lost
  · rename_i disk' returned
    exact ⟨disk', returned, fun spares => spared disk' spares (by simpa using lost)⟩

def cacheFile : List Bytes := [str "p", str "out", str "old", str "rbxts.copyfiles.json"]

def sourceFile : List Bytes := [str "p", str "src", str "index.ts"]

/-- A cache file goes with the directory of an old output, and the sources go when they are below
the output directory. -/
theorem cleanupOutputs_removes : Violates (optionsFor (str "/p/src") (str "/p/out")) oldOutput ∧
      Violates (optionsFor (str "/p/src") (str "/p")) nestedSources := by
  refine ⟨⟨by decide +kernel, translatorFor (str "/p/out"), rfl, ?_⟩,
    by decide +kernel, translatorFor (str "/p"), rfl, ?_⟩
  · have lost : loses (translatorFor (str "/p/out")) oldOutput cacheFile = true := by
      decide +kernel
    refine not_spares_of_loses lost fun disk' spares gone => ?_
    have kept := spares.caches cacheFile [] (by decide +kernel) ⟨_, .head _, by decide⟩
    nomatch gone.symm.trans kept
  · have lost : loses (translatorFor (str "/p")) nestedSources sourceFile = true := by
      decide +kernel
    refine not_spares_of_loses lost fun disk' spares gone => ?_
    have kept := spares.sources sourceFile [] (by decide +kernel) (by decide +kernel)
    nomatch gone.symm.trans kept

end Rotor.Compile
