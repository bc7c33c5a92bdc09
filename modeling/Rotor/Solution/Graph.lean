import Mathlib.Data.List.AList
import Rotor.Lib.DepthFirst
import Rotor.Path

/-!
The project graph of a solution.

A solution starts at one `tsconfig.json` and follows the `references` of each config it reads.
A config that only lists references is a coordinator: it carries references, but nothing is
built for it.
-/

namespace Rotor.Solution

inductive IncludeEntry where
  | absent
  | array (patterns : List Bytes)
  | other
  deriving DecidableEq

/-- The entries of a parsed config that the graph depends on. -/
structure TsConfig where
  /-- The `path` of each entry of `references`; none where it is not an object with such a text. -/
  references : List (Option Bytes) := []
  /-- The entries of `files`; none when there is no such array. -/
  files : Option (List Bytes) := none
  includes : IncludeEntry := .absent

inductive ReadError where
  | missing
  /-- `Failed to parse tsconfig at %s: %w` -/
  | parse (path : Bytes)
  deriving DecidableEq

/-- What the graph is built from. A file that is there but cannot be parsed has no config.
`optionsFor` is `ProjectOptionsForReferencedConfig`. -/
structure Workspace (O E : Type) where
  workingDirectory : Bytes
  rooted : Path.isAbs workingDirectory
  files : AList fun _ : Bytes => Option TsConfig
  optionsFor : O → Bytes → Bool → Except E O

inductive SolutionError (E : Type) where
  /-- `compile: circular project reference %s` -/
  | circular (paths : List Bytes)
  /-- `compile: read project reference %q: %w` -/
  | readReference (path : Bytes) (error : ReadError)
  /-- `compile: read referenced project options %q: %w` -/
  | readOptions (path : Bytes) (error : E)

structure SolutionProject (O : Type) where
  configPath : Bytes
  references : List Bytes
  options : O
  coordinator : Bool

structure SolutionGraph (O : Type) where
  projects : List (SolutionProject O)

variable {O E : Type}

/-- The config that one entry of `references` names. -/
def referencePath (tsConfigPath path : Bytes) : Bytes :=
  let path := if Path.isAbs path then path else Path.join [Path.dir tsConfigPath, path]
  let path := if Path.ext path = str ".json" then path else Path.join [path, str "tsconfig.json"]
  Path.clean path

/-- The references of a config and whether it is a coordinator. -/
def readProjectReferencePaths (workspace : Workspace O E) (tsConfigPath : Bytes) :
    Except ReadError (List Bytes × Bool) :=
  match workspace.files.lookup tsConfigPath with
  | none => .error .missing
  | some none => .error (.parse tsConfigPath)
  | some (some config) =>
    let paths := config.references.filterMap fun entry => entry.map (referencePath tsConfigPath)
    let emptyInclude := config.includes = .absent ∨ config.includes = .array []
    .ok (paths, decide (paths ≠ [] ∧ config.files = some [] ∧ emptyInclude))

/-- The stack from the repeated path on, and the path again. The newest path is in front. -/
def solutionCycle (stack : List Bytes) (repeated : Bytes) : List Bytes :=
  let stack := stack.reverse
  stack.drop (stack.findIdx? (· == repeated) |>.getD 0) ++ [repeated]

/-- The projects met so far and the paths whose visit is over. -/
structure Visits (O : Type) where
  projects : AList fun _ : Bytes => SolutionProject O
  visited : List Bytes

/-- One visit; it has not returned when there is no result. The paths on the stack are those
being visited, the newest in front. -/
def visit (workspace : Workspace O E) : Nat → List Bytes → Visits O → Bytes → O → Bool →
      ExceptT (SolutionError E) Option (Visits O)
  | 0, _, _, _, _, _ => none
  | fuel + 1, stack, visits, configPath, options, inheritEntryTypeAndRojo =>
    let configPath := Path.clean (Path.abs workspace.workingDirectory configPath)
    if configPath ∈ stack then throw (.circular (solutionCycle stack configPath))
    else if configPath ∈ visits.visited then pure visits
    else
      match readProjectReferencePaths workspace configPath with
      | .error error => throw (.readReference configPath error)
      | .ok (references, coordinator) => do
        let project := { configPath, references, options, coordinator }
        -- Only the entry config decides what the configs below it inherit.
        let inherit := if stack = [] then coordinator else inheritEntryTypeAndRojo
        let entered := { visits with projects := visits.projects.insert configPath project }
        let visits ← references.foldlM (fun visits reference =>
          match workspace.optionsFor options reference inherit with
          | .error error => throw (.readOptions reference error)
          | .ok referenceOptions =>
            visit workspace fuel (configPath :: stack) visits reference referenceOptions inherit)
          entered
        pure {
          projects :=
            if coordinator then visits.projects else visits.projects.insert configPath project
          visited := visits.visited ++ [configPath] }

def projectReferences (projects : AList fun _ : Bytes => SolutionProject O) (path : Bytes) :
    List Bytes := (projects.lookup path).elim [] SolutionProject.references

/-- Each path is listed behind the references of its project. -/
def postOrderProjectPaths (rootPath : Bytes)
    (projects : AList fun _ : Bytes => SolutionProject O) : List Bytes :=
  (Lib.DepthFirst.postOrder (projectReferences projects) (projects.keys.length + 1) ([], [])
    rootPath).2

/-- No stack of configs that are being visited is longer than the list of all files. -/
def buildSolutionGraph (workspace : Workspace O E) (tsConfigPath : Bytes)
    (entry : O) : ExceptT (SolutionError E) Option (SolutionGraph O) := do
  let rootPath := Path.abs workspace.workingDirectory tsConfigPath
  let visits ← visit workspace (workspace.files.keys.length + 1) [] ⟨∅, []⟩ rootPath entry false
  let paths := postOrderProjectPaths rootPath visits.projects
  pure { projects := (paths.filterMap visits.projects.lookup).filter (!·.coordinator) }

end Rotor.Solution
