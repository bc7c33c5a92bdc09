import Rotor.Disk
import Rotor.Rojo.PathTranslator

/-!
The compiler options of a project: which are accepted, and the translator made from them.
-/

namespace Rotor.Compile

open Rojo (PathTranslator)

inductive ModuleKind where
  | commonJS
  | preserve
  | other
  deriving DecidableEq

/-- The parsed options that are checked. Paths in them are absolute. -/
structure CompilerOptions where
  noLib : Bool
  strict : Bool
  moduleKind : ModuleKind
  /-- `moduleDetection` is `force`. -/
  forceDetection : Bool
  /-- `GetModuleResolutionKind` is `bundler`. -/
  bundlerResolution : Bool
  allowSyntheticDefaultImports : Bool
  typeRoots : Option (List Bytes)
  rootDir : Bytes
  rootDirs : Option (List Bytes)
  outDir : Bytes
  declaration : Bool

/-- The values as they are written; none where they are absent. -/
structure RawEnforcedOptions where
  moduleResolution : Option Bytes
  types : List Bytes
  importsNotUsed : Option Bytes

def lower (byte : UInt8) : UInt8 := if 65 ≤ byte ∧ byte ≤ 90 then byte + 32 else byte

/-- No letter outside ASCII has one of these in lower case. -/
def isNode10ModuleResolutionText (value : Bytes) : Bool :=
  value.map lower == str "node" || value.map lower == str "node10"

/-- Upper case and the long s are folded, which is all that folds to the letters of "preserve". -/
def foldText : Bytes → Bytes
  | 0xC5 :: 0xBF :: rest => 115 :: foldText rest
  | byte :: rest => lower byte :: foldText rest
  | [] => []

def resolveAgainst (base path : Bytes) : Bytes :=
  if Path.isAbs path then Path.clean path else Path.join [base, path]

def typeRootsContain (disk : Disk) (typeRoots : List Bytes) (projectPath rbxtsModules : Bytes) :
    Bool :=
  typeRoots.any fun typeRoot =>
    let resolved := resolveAgainst projectPath typeRoot
    Path.clean resolved == Path.clean rbxtsModules || disk.stat resolved

def typesFound (disk : Disk) (projectPath : Bytes) (typeRoots : List Bytes) (location : Bytes) :
    Bool :=
  typeRoots.any fun typeRoot =>
    let typesPath := resolveAgainst (resolveAgainst projectPath typeRoot) location
    disk.stat typesPath || disk.stat (typesPath ++ str ".d.ts")

def optionErrors (disk : Disk) (options : CompilerOptions) (projectPath : Bytes)
    (raw : RawEnforcedOptions) : List Bytes :=
  let rbxtsModules := Path.join [projectPath, str "node_modules", str "@rbxts"]
  let isPreserve := options.moduleKind = .preserve
  let moduleResolutionValid :=
    (raw.moduleResolution.any isNode10ModuleResolutionText ∧ ¬ isPreserve) ∨
      (isPreserve ∧ options.bundlerResolution)
  let typeRoots := options.typeRoots.getD [str "node_modules/@rbxts"]
  let complain (wrong : Bool) (text : Bytes) := if wrong then [text] else []
  complain (!options.noLib) (str "\"noLib\" must be true") ++
  complain (!options.strict) (str "\"strict\" must be true") ++
  complain (options.moduleKind == .other) (str "\"module\" must be commonjs") ++
  complain (!options.forceDetection) (str "\"moduleDetection\" must be \"force\"") ++
  complain (!moduleResolutionValid) (str "\"moduleResolution\" must be \"Node\"") ++
  complain (!options.allowSyntheticDefaultImports)
    (str "\"allowSyntheticDefaultImports\" must be true") ++
  complain (!options.typeRoots.any (typeRootsContain disk · projectPath rbxtsModules))
    (str "\"typeRoots\" must contain " ++ rbxtsModules) ++
  (raw.types.filter fun location => !typesFound disk projectPath typeRoots location).map
    (fun location => str "\"types\" " ++ location ++
      str " were not found. Make sure the path is relative to `typeRoots`") ++
  complain (options.rootDir == [] && options.rootDirs.isNone)
    (str "\"rootDir\" or \"rootDirs\" must be defined") ++
  complain (options.outDir == []) (str "\"outDir\" must be defined") ++
  match raw.importsNotUsed with
  | none => []
  | some text =>
    let suggested := if foldText text = str "preserve" then str "true" else str "false"
    [str "\"importsNotUsedAsValues\" is no longer supported, use \"verbatimModuleSyntax\": " ++
      suggested ++ str " instead"]

def validateCompilerOptions (disk : Disk) (options : CompilerOptions) (projectPath : Bytes)
    (raw : RawEnforcedOptions) : Bytes :=
  match optionErrors disk options projectPath raw with
  | [] => []
  | errs =>
    str "Invalid \"tsconfig.json\" configuration!\n" ++
    str "https://roblox-ts.com/docs/quick-start#project-folder-setup\n" ++
    errs.flatMap fun err => str "- " ++ err ++ str "\n"

def getRootDirs (options : CompilerOptions) : List Bytes :=
  if options.rootDir ≠ [] then [options.rootDir] else options.rootDirs.getD []

/-- The loop of `findAncestorDir`; none when it has not ended yet. -/
def findAncestor (normalized : List Bytes) : Nat → Bytes → Option Bytes
  | 0, _ => none
  | fuel + 1, current =>
    if normalized.all current.isPrefixOf then some (Path.clean current)
    else findAncestor normalized fuel (Path.join [current, str ".."] ++ str "/")

/-- The deepest directory that contains all the directories. A directory gets shorter in every
turn, until it is the root. -/
def findAncestorDir (dirs : List Bytes) : Option Bytes :=
  let normalized := dirs.map fun dir =>
    let cleaned := Path.clean dir
    if Rojo.hasSuffix cleaned (str "/") then cleaned else cleaned ++ str "/"
  match normalized with
  | [] => none
  | first :: _ => findAncestor normalized (first.length + 1) first

/-- The translator of a project; none when the loop for its root directory does not end. -/
def createPathTranslator (options : CompilerOptions)
    (commonSourceDirectory buildInfoFileName : Bytes) (useLuauExtension : Bool) :
    Option PathTranslator :=
  (findAncestorDir (commonSourceDirectory :: getRootDirs options)).map fun rootDir =>
    Rojo.newPathTranslator rootDir options.outDir buildInfoFileName options.declaration
      useLuauExtension

example : findAncestorDir [str "/p/src/a", str "/p/src/b/c"] = some (str "/p/src") := by
  decide +kernel

end Rotor.Compile
