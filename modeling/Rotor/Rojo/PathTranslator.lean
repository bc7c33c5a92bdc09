import Rotor.PathSpec

/-!
The map between the paths of inputs and outputs. It only computes with paths and never looks at
the disk.
-/

namespace Rotor.Rojo

def tsExt : Bytes := str ".ts"
def tsxExt : Bytes := str ".tsx"
def dExt : Bytes := str ".d"
def dtsExt : Bytes := str ".d.ts"
def luaExt : Bytes := str ".lua"
def luauExt : Bytes := str ".luau"
def buildInfoExt : Bytes := str ".tsbuildinfo"
def rbxtscInfix : Bytes := str ".rbxtsc"
def indexName : Bytes := str "index"
def initName : Bytes := str "init"

def hasSuffix (text suffix : Bytes) : Bool := suffix.isSuffixOf text

def trimSuffix (text suffix : Bytes) : Bytes :=
  if hasSuffix text suffix then text.take (text.length - suffix.length) else text

/-- A path as a file name and all its extensions, each with its dot. -/
structure PathInfo where
  dirName : Bytes
  fileName : Bytes
  exts : List Bytes

/-- What stands one byte behind the directory is the name, also where that byte is no slash. -/
def pathInfoFrom (filePath : Bytes) : PathInfo :=
  let dirName := Path.dir filePath
  match (filePath.drop (dirName.length + 1)).splitOn 46 with
  | [] => ⟨dirName, [], []⟩
  | fileName :: exts => ⟨dirName, fileName, exts.map (46 :: ·)⟩

namespace PathInfo

variable (info : PathInfo)

def extsPeek (depth : Nat) : Bytes := (info.exts.reverse[depth]?).getD []

def popExt : PathInfo := { info with exts := info.exts.dropLast }

def pushExt (ext : Bytes) : PathInfo := { info with exts := info.exts ++ [ext] }

def join : Bytes := Path.join [info.dirName, info.fileName ++ info.exts.flatten]

def isTs : Bool := info.extsPeek 0 == tsExt || info.extsPeek 0 == tsxExt

/-- A script that is compiled; the others and all other files keep their names. -/
def isCompiled : Bool := info.isTs && info.extsPeek 1 != dExt

end PathInfo

structure PathTranslator where
  rootDir : Bytes
  outDir : Bytes
  buildInfoOutputPath : Bytes
  declaration : Bool
  useLuauExtension : Bool

def addRbxtscBuildInfoInfix (filePath : Bytes) : Bytes :=
  if hasSuffix filePath buildInfoExt then
    let withoutExt := trimSuffix filePath buildInfoExt
    if hasSuffix withoutExt rbxtscInfix then filePath
    else withoutExt ++ rbxtscInfix ++ buildInfoExt
  else filePath

def newPathTranslator (rootDir outDir buildInfoOutputPath : Bytes)
    (declaration useLuauExtension : Bool) : PathTranslator where
  rootDir := rootDir
  outDir := outDir
  buildInfoOutputPath := addRbxtscBuildInfoInfix buildInfoOutputPath
  declaration := declaration
  useLuauExtension := useLuauExtension

/-- The same path from another directory. -/
def makeRelative (fromDir toDir : Bytes) (info : PathInfo) : Bytes :=
  let joined := info.join
  Path.join [toDir, (Path.rel fromDir joined).getD joined]

namespace PathTranslator

variable (translator : PathTranslator)

def getLuauExt : Bytes := if translator.useLuauExtension then luauExt else luaExt

def getOutputPath (filePath : Bytes) : Bytes :=
  let info := pathInfoFrom filePath
  let fileName := if info.fileName = indexName then initName else info.fileName
  makeRelative translator.rootDir translator.outDir <|
    if info.isCompiled then { info.popExt with fileName := fileName }.pushExt translator.getLuauExt
    else info

def getOutputDeclarationPath (filePath : Bytes) : Bytes :=
  let info := pathInfoFrom filePath
  makeRelative translator.rootDir translator.outDir <|
    if info.isCompiled then info.popExt.pushExt dtsExt else info

/-- The inputs that could be compiled or copied to this output. -/
def getInputPaths (filePath : Bytes) : List Bytes :=
  let info := pathInfoFrom filePath
  let input := makeRelative translator.outDir translator.rootDir
  let scripts (stem : PathInfo) := [input (stem.pushExt tsExt), input (stem.pushExt tsxExt)]
  -- an index.*.luau cannot come from a script
  let compiled :=
    if info.extsPeek 0 = translator.getLuauExt ∧ info.fileName ≠ indexName then
      scripts info.popExt ++
        if info.fileName = initName then scripts { info.popExt with fileName := indexName } else []
    else []
  let declared :=
    if translator.declaration ∧ info.isTs ∧ info.extsPeek 1 = dExt then scripts info.popExt.popExt
    else []
  compiled ++ declared ++ [input info]

end PathTranslator

lemma canonical_getInputPaths {translator : PathTranslator}
    (absolute : Path.isAbs translator.rootDir) (filePath : Bytes) :
    ∀ input ∈ translator.getInputPaths filePath, Path.Canonical input := by
  have canonical : ∀ info, Path.Canonical
      (makeRelative translator.outDir translator.rootDir info) :=
    fun info => Path.canonical_join absolute _
  intro input mem
  rw [PathTranslator.getInputPaths] at mem
  simp only [List.mem_append] at mem
  rcases mem with (compiled | declared) | same
  · split at compiled
    · rcases List.mem_append.mp compiled with script | script
      · simp only [List.mem_cons, List.not_mem_nil, or_false] at script
        rcases script with rfl | rfl <;> exact canonical _
      · split at script
        · simp only [List.mem_cons, List.not_mem_nil, or_false] at script
          rcases script with rfl | rfl <;> exact canonical _
        · nomatch script
    · nomatch compiled
  · split at declared
    · simp only [List.mem_cons, List.not_mem_nil, or_false] at declared
      rcases declared with rfl | rfl <;> exact canonical _
    · nomatch declared
  · rw [List.mem_singleton.mp same]
    exact canonical _

example : (newPathTranslator (str "/p/src") (str "/p/out") [] true true).getInputPaths
    (str "/p/out/a/init.luau") = [str "/p/src/a/init.ts", str "/p/src/a/init.tsx",
      str "/p/src/a/index.ts", str "/p/src/a/index.tsx", str "/p/src/a/init.luau"] := by
  decide +kernel

end Rotor.Rojo
