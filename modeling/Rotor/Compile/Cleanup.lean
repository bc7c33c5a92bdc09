import Rotor.Compile.Options

/-!
Removing the outputs that have no input any more.

The output directory is walked from the leaves up. Each entry is judged by its own path, and a
directory that is judged orphaned is removed with all that is left in it.
-/

namespace Rotor.Compile

open Rojo (PathTranslator hasSuffix trimSuffix)

def protectedOutputFilenames : List Bytes :=
  [str "rbxts.copyfiles.json", str "rbxts.rojocache.json", str "rbxts.typeroots.rojocache.json"]

section Cleanup

variable (translator : PathTranslator) (sourceMapsEnabled : Bool)

def isOutputFileOrphanedWithSourceMaps (disk : Disk) (outPath : Bytes) : Bool :=
  let mapped := translator.getInputPaths (trimSuffix outPath (str ".map"))
  if protectedOutputFilenames.contains (Path.base outPath) then false
  else if hasSuffix outPath (str ".luau.map") then
    if sourceMapsEnabled then !mapped.any disk.stat else true
  else if hasSuffix outPath (str ".d.ts") && !translator.declaration then true
  else if (translator.getInputPaths outPath).any disk.stat then false
  else if hasSuffix outPath (str ".map") && mapped.any disk.stat then false
  else translator.buildInfoOutputPath != outPath

def tryRemoveOutput (disk : Disk) (outPath : Bytes) : Disk :=
  if isOutputFileOrphanedWithSourceMaps translator sourceMapsEnabled disk outPath then
    disk.removeAll outPath
  else disk

def cleanupEntry (recurse : Disk → Bytes → Option Disk) (dir : Bytes) (disk : Disk)
    (entry : Bytes × Lib.Node Bytes) : Option Disk :=
  let itemPath := Path.join [dir, entry.1]
  if entry.2.isDir then
    if entry.1 = str ".git" then some disk
    else (recurse disk itemPath).map fun disk =>
      tryRemoveOutput translator sourceMapsEnabled disk itemPath
  else some (tryRemoveOutput translator sourceMapsEnabled disk itemPath)

/-- The walk through a directory; none when the fuel runs out. -/
def cleanupDirRecursively : Nat → Disk → Bytes → Option Disk
  | 0, _, _ => none
  | fuel + 1, disk, dir =>
    match disk.readDir dir with
    | none => some disk
    | some entries =>
      entries.foldlM (cleanupEntry translator sourceMapsEnabled (cleanupDirRecursively fuel) dir)
        disk

/-- There are no more directories inside each other than the disk is deep. -/
def cleanupOutputs (disk : Disk) : Option Disk :=
  cleanupDirRecursively translator sourceMapsEnabled (disk.depth + 1) disk translator.outDir

end Cleanup

end Rotor.Compile
