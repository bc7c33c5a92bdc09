import Rotor.PathSpec
import Mathlib.Data.List.AList
import Mathlib.Logic.Function.Iterate

/-!
The resolver behind `$asset`: `internal/assetresolve`, and what a build does with it.

An id is kept in three places: in `byPath` for the rest of the pass, in the lockfile in memory,
and in `rotor-lock.json`, which a build writes behind its outputs, if it comes that far.
-/

namespace Rotor.Assets

open List Rotor.Path

/-- What `filepath.Join` makes of an absolute directory and a path. -/
abbrev AbsPath := {path : Bytes // Canonical path}

structure LockEntry where
  hash : Bytes
  assetID : Int

/-- `rotor-lock.json`: its entries by project-relative path. -/
abbrev Lockfile := AList fun _ : Bytes => LockEntry

inductive ResolveError
  | fileNotFound (path : Bytes)
  | notCached (path : Bytes)
  | hashing
  | uploading

/-- A reference `$asset("path")`, and what its evaluation finds outside of the program. -/
structure Call where
  importerPath : Bytes
  path : Bytes
  absolute : importerPath = [] ∨ isAbs importerPath
  isFile : AbsPath → Bool
  hashFile : AbsPath → Option Bytes
  uploadFile : AbsPath → Option Int

/-- The part of a `Resolver` that a pass does not change. -/
structure Config where
  projectDir : AbsPath
  base : Bytes
  /-- There are a client and a creator. -/
  uploads : Bool

/-- The part that it does, and the files whose upload went through. -/
structure Resolver where
  lock : Lockfile
  byPath : AList fun _ : AbsPath => Bytes := ∅
  uploaded : List AbsPath := []

def assetIDString (id : Int) : Bytes := str (toString id)

def lockfileKey (projectDir absPath : AbsPath) : Bytes :=
  match rel projectDir absPath with
  | none => absPath
  | some rel => if (str "../").isPrefixOf rel || rel == str ".." then absPath else rel

/-- The runes of `unicode.IsSpace`, in UTF-8. -/
def spaces : List Bytes :=
  (range' 9 5).map (fun c => [c.toUInt8]) ++
    [[32], [0xC2, 0x85], [0xC2, 0xA0], [0xE1, 0x9A, 0x80]] ++
    (range' 0x80 11).map (fun c => [0xE2, 0x80, c.toUInt8]) ++
    [[0xE2, 0x80, 0xA8], [0xE2, 0x80, 0xA9], [0xE2, 0x80, 0xAF], [0xE2, 0x81, 0x9F],
      [0xE3, 0x80, 0x80]]

def trimLeft (spaces : List Bytes) (text : Bytes) : Bytes :=
  let dropSpace (text : Bytes) := text.drop ((spaces.find? (·.isPrefixOf text)).getD []).length
  Nat.iterate dropSpace text.length text

/-- `strings.TrimSpace`. -/
def trimSpace (text : Bytes) : Bytes :=
  (trimLeft (spaces.map reverse) (trimLeft spaces text).reverse).reverse

namespace Config

variable (config : Config) (call : Call)

def resolvePath : Except ResolveError AbsPath :=
  let p := trimSpace call.path
  if p = [] then .error (.fileNotFound (str "(empty path)"))
  else if (str "./").isPrefixOf p || (str "../").isPrefixOf p then
    if given : call.importerPath = [] then
      .ok ⟨join [config.projectDir, p], canonical_join config.projectDir.2.absolute _⟩
    else
      .ok ⟨join [dir call.importerPath, p],
        canonical_join (canonical_dir (call.absolute.resolve_left given)).absolute _⟩
  else .ok ⟨join [config.projectDir, config.base, p], canonical_join config.projectDir.2.absolute _⟩

/-- `Resolve` from the lock on. -/
def fetch (absPath : AbsPath) (r : Resolver) : Except ResolveError Bytes × Resolver :=
  match r.byPath.lookup absPath, call.hashFile absPath with
  | some id, _ => (.ok id, r)
  | none, none => (.error .hashing, r)
  | none, some hash =>
    let relKey := lockfileKey config.projectDir absPath
    match (r.lock.lookup relKey).filter (·.hash = hash) with
    | some entry =>
      let id := assetIDString entry.assetID
      (.ok id, { r with byPath := r.byPath.insert absPath id })
    | none =>
      if !config.uploads then (.error (.notCached call.path), r)
      else
        match call.uploadFile absPath with
        | none => (.error .uploading, r)
        | some assetID =>
          let id := assetIDString assetID
          (.ok id, ⟨r.lock.insert relKey ⟨hash, assetID⟩, r.byPath.insert absPath id,
            absPath :: r.uploaded⟩)

def resolve (r : Resolver) : Except ResolveError Bytes × Resolver :=
  match config.resolvePath call with
  | .error err => (.error err, r)
  | .ok absPath =>
    if call.isFile absPath then config.fetch call absPath r
    else (.error (.fileNotFound call.path), r)

end Config

/-! ### Builds -/

/-- How far a build comes. -/
inductive Ending
  /-- It fails in the transform, or behind it up to the saving of the lockfile. -/
  | unsaved
  /-- It fails in `persist`, behind the saving of the lockfile. -/
  | unpersisted
  | succeeded
  deriving DecidableEq

/-- A build: its configuration, the references in the order in which they hold the resolver's
lock, and how far it comes. -/
structure Build where
  base : Bytes
  uploads : Bool
  calls : List Call
  ending : Ending

variable (projectDir : AbsPath)

namespace Build

variable (build : Build)

def config : Config := ⟨projectDir, build.base, build.uploads⟩

def transform (lock : Lockfile) : Resolver :=
  build.calls.foldl (fun r call => ((build.config projectDir).resolve call r).2) ⟨lock, ∅, []⟩

/-- The lockfile that the build leaves on disk, and what it has uploaded. -/
def run (lock : Lockfile) : Lockfile × List AbsPath :=
  let r := build.transform projectDir lock
  (if build.ending = .unsaved then lock else r.lock, r.uploaded)

end Build

def uploads (lock : Lockfile) : List Build → List AbsPath
  | [] => []
  | build :: builds =>
    (build.run projectDir lock).2 ++ uploads (build.run projectDir lock).1 builds

/-! ### Keys of the lockfile -/

lemma escapes_up (names : List Bytes) : ((str "../").isPrefixOf (joinSlash (str ".." :: names)) ||
      joinSlash (str ".." :: names) == str "..") := by
  cases names with
  | nil => decide
  | cons name names => simp [joinSlash, str, List.isPrefixOf]

variable {projectDir}

lemma abs_lockfileKey (absPath : AbsPath) :
    abs projectDir (lockfileKey projectDir absPath) = absPath := by
  obtain ⟨path, canonical⟩ := absPath
  obtain ⟨names, plain, isDir⟩ := clean_of_isAbs projectDir.2.absolute
  obtain ⟨names', plain', isPath⟩ := clean_of_isAbs canonical.absolute
  obtain rfl := canonical.cleaned.symm.trans isPath
  have itself := canonical.abs_eq projectDir
  unfold lockfileKey
  split
  · exact itself
  split
  · exact itself
  rename_i found inside
  simp only [rel, isDir, isPath, isAbs_rooted, bne_self_eq_false, names_rooted plain,
    names_rooted plain'] at found
  split at found
  · next same =>
    cases found
    exact (abs_dot projectDir.2.absolute).trans (isDir.trans same.symm)
  · next different =>
    rcases dropped : dropCommon names names' with ⟨up, down⟩
    rw [dropped] at found
    cases up with
    | nil =>
      obtain rfl := dropCommon_eq_nil dropped
      obtain rfl : joinSlash down = _ := by simpa using found
      have below : ∀ name ∈ down, Plain name := fun name mem => plain' name (by simp [mem])
      have some : down ≠ [] := by
        rintro rfl
        exact different (by rw [append_nil])
      rw [Path.abs, isAbs_joinSlash (.of_plain true below)]
      exact (join_under _ some below).trans
        (by rw [Path.under, isDir, names_rooted plain, projectDir.2.absolute]; rfl)
    | cons name up =>
      obtain ⟨-, rfl⟩ : name ≠ str ".." ∧
          joinSlash (.replicate (up.length + 1) (str "..") ++ down) = _ := by simpa using found
      exact absurd (escapes_up _) inside

lemma lockfileKey_injective : Function.Injective (lockfileKey projectDir) := by
  intro file other same
  apply Subtype.ext
  rw [← @abs_lockfileKey projectDir file, same, abs_lockfileKey]

/-! ### Uploads of one file -/

variable (file : AbsPath) (hash : Bytes)

/-- A reference to the file whose upload would go through. -/
def Config.reaches (config : Config) (call : Call) : Bool :=
  config.uploads && (config.resolvePath call).toOption = some file && (call.uploadFile file).isSome

variable (projectDir)

def Build.reaches (build : Build) : Bool := build.calls.any ((build.config projectDir).reaches file)

def known (lock : Lockfile) : Bool :=
  ((lock.lookup (lockfileKey projectDir file)).filter (·.hash = hash)).isSome

variable {projectDir file hash}

lemma known_insert {lock : Lockfile} {other : AbsPath} {entry : LockEntry} :
    known projectDir file hash (lock.insert (lockfileKey projectDir other) entry) =
      if file = other then decide (entry.hash = hash) else known projectDir file hash lock := by
  unfold known
  split
  · next same =>
    subst same
    rw [AList.lookup_insert]
    by_cases isHash : entry.hash = hash <;> simp [isHash]
  · next apart => rw [AList.lookup_insert_ne fun same => apart (lockfileKey_injective same)]

/-- How far the calls of a build have brought the file. -/
structure Tracks (projectDir file : AbsPath) (hash : Bytes) (lock : Lockfile) (reached : Bool)
    (r : Resolver) : Prop where
  memo : (r.byPath.lookup file).isSome → known projectDir file hash r.lock
  isKnown : known projectDir file hash r.lock = (known projectDir file hash lock || reached)
  count : r.uploaded.count file + (known projectDir file hash lock).toNat =
    (known projectDir file hash r.lock).toNat

section

variable {config : Config} {lock : Lockfile} {reached : Bool} {r : Resolver}

lemma Tracks.fetch {call : Call} (tracks : Tracks config.projectDir file hash lock reached r)
    (isHash : call.hashFile file = some hash) (absPath : AbsPath) :
    Tracks config.projectDir file hash lock
      (reached || config.uploads && decide (absPath = file) && (call.uploadFile file).isSome)
      (config.fetch call absPath r).2 := by
  obtain ⟨memo, isKnown, count⟩ := tracks
  have knows : known config.projectDir file hash r.lock =
    ((r.lock.lookup (lockfileKey config.projectDir file)).filter (·.hash = hash)).isSome := rfl
  fun_cases Config.fetch config call absPath r with
  | case1 => constructor <;> grind
  | case2 => constructor <;> grind
  | case3 hash' isHash' absent relKey entry isEntry id =>
    have hit : absPath = file → known config.projectDir file hash r.lock := by
      rintro rfl
      obtain rfl : hash' = hash := Option.some.inj (isHash'.symm.trans isHash)
      rw [knows, isEntry]
      rfl
    constructor <;> grind [AList.lookup_insert_ne]
  | case4 => constructor <;> grind
  | case5 => constructor <;> grind
  | case6 => constructor <;> grind [known_insert, AList.lookup_insert_ne]

lemma Tracks.foldl {calls : List Call}
    (keeps : ∀ call ∈ calls, call.isFile file ∧ call.hashFile file = some hash)
    (tracks : Tracks config.projectDir file hash lock reached r) :
    Tracks config.projectDir file hash lock (reached || calls.any (config.reaches file))
      (calls.foldl (fun r call => (config.resolve call r).2) r) := by
  induction calls generalizing r reached with
  | nil => simpa using tracks
  | cons call calls ih =>
    obtain ⟨⟨isFile, isHash⟩, keeps⟩ := forall_mem_cons.mp keeps
    rw [any_cons, ← Bool.or_assoc]
    refine ih keeps ?_
    unfold Config.reaches
    cases path : config.resolvePath call with
    | error err => simpa [Config.resolve, path, Except.toOption] using tracks
    | ok absPath =>
      simp only [Config.resolve, path, Except.toOption, Option.some.injEq]
      split
      · exact tracks.fetch isHash absPath
      · next absent =>
        have other : absPath ≠ file := fun same => absent (same ▸ isFile)
        simpa [other] using tracks

end

section History

variable {lock : Lockfile} {builds : List Build}

variable (file hash) in
def Build.Keeps (build : Build) : Prop :=
  ∀ call ∈ build.calls, call.isFile file ∧ call.hashFile file = some hash

/-- How often builds upload a file that the lockfile does not have: until one saves the lockfile. -/
def rounds : List Build → Nat
  | [] => 0
  | build :: builds => 1 + if build.ending = .unsaved then rounds builds else 0

lemma count_uploads (keeps : ∀ build ∈ builds, build.Keeps file hash) :
    (uploads projectDir lock builds).count file = if known projectDir file hash lock then 0
      else rounds (builds.filter (·.reaches projectDir file)) := by
  induction builds generalizing lock with
  | nil => simp [uploads, rounds]
  | cons build builds ih =>
    obtain ⟨keeps, later⟩ := forall_mem_cons.mp keeps
    have start : Tracks (build.config projectDir).projectDir file hash lock false ⟨lock, ∅, []⟩ :=
      ⟨by simp, by simp, by simp⟩
    have tracks : Tracks projectDir file hash lock (false || build.reaches projectDir file)
        (build.transform projectDir lock) := start.foldl keeps
    obtain ⟨-, isKnown, count⟩ := tracks
    unfold uploads Build.run
    dsimp only
    rw [count_append, ih later]
    grind [rounds]

/-- A file that keeps its content is uploaded once at most, unless the first build that uploads it
fails before it has saved the lockfile and a later one refers to it again. -/
theorem count_uploads_le_one_iff (keeps : ∀ build ∈ builds, build.Keeps file hash) :
    (uploads projectDir lock builds).count file ≤ 1 ↔ known projectDir file hash lock ∨
      ∀ first second more, builds.filter (·.reaches projectDir file) = first :: second :: more →
        first.ending ≠ .unsaved := by
  rw [count_uploads keeps]
  split
  · next isKnown => simp [isKnown]
  · next fresh =>
    rw [or_iff_right fresh]
    generalize builds.filter (·.reaches projectDir file) = reaching
    rcases reaching with _ | ⟨first, _ | ⟨second, more⟩⟩
    · simp [rounds]
    · simp [rounds]
    · cases ends : first.ending <;> grind [rounds]

end History

def pngDir : AbsPath := ⟨str "/p", rfl, by decide⟩

def pngFile : AbsPath := ⟨str "/p/a.png", rfl, by decide⟩

def pngCall (importerPath path : Bytes) (absolute : importerPath = [] ∨ isAbs importerPath) :
    Call :=
  ⟨importerPath, path, absolute, fun _ => true, fun _ => some [], fun _ => some 1⟩

/-- A build that refers to `a.png` from the project and from `/p/src/main.ts`. -/
def pngBuild (ending : Ending) : Build :=
  ⟨[], true, [pngCall [] (str " a.png\n") (.inl rfl),
    pngCall (str "/p/src/main.ts") (str "../a.png") (.inr rfl)], ending⟩

/-- The first of these builds does not refer to the file, the second one fails when the lockfile
has been saved. -/
def pngBuilds : List Build :=
  [⟨[], true, [pngCall [] (str "b.png") (.inl rfl)], .unsaved⟩, pngBuild .unpersisted,
    pngBuild .unsaved, pngBuild .succeeded]

theorem pngBuilds_upload_once : (uploads pngDir ∅ pngBuilds).count pngFile ≤ 1 := by
  refine (@count_uploads_le_one_iff pngDir pngFile [] ∅ pngBuilds ?_).mpr (.inr ?_)
  · simp [Build.Keeps, pngBuilds, pngBuild, pngCall]
  · intro first second more same
    have reaching : pngBuilds.filter (·.reaches pngDir pngFile) =
        [pngBuild .unpersisted, pngBuild .unsaved, pngBuild .succeeded] := rfl
    obtain ⟨rfl, -⟩ := cons.inj (reaching.symm.trans same)
    decide

theorem pngBuild_uploads_twice :
    ¬ (uploads pngDir ∅ [pngBuild .unsaved, pngBuild .succeeded]).count pngFile ≤ 1 := by
  decide

end Rotor.Assets
