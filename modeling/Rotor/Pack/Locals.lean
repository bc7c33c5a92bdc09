import Rotor.Pack.Runtime

/-!
The local variables of the program that `EmitLuau` returns (`pack/luau.go`): one for every instance,
all of them in the main chunk.
-/

namespace Rotor.Pack

open List

def preludeLocals : List String :=
  ["realRequire", "realGame", "Instances", "methods", "virtualChild", "realOf", "findFirstChild",
    "waitForChild", "getChildren", "getFullName", "getService", "dmMethods", "MT", "DataModelMT",
    "mk", "setParent", "cache", "loading", "rotorRequire", "runScripts"]

/-- The parameters and local variables of the prelude's functions. -/
def preludeFunctions : List (List String) :=
  [["self", "name", "_", "c"], ["self", "r", "found", "pr"], ["self", "name", "c", "r"],
    ["self", "name", "timeout", "c", "r"], ["self", "t", "i"], ["self", "parts", "cur"],
    ["self", "name", "c"], ["self", "key", "m"], ["self"],
    ["self", "key", "dm", "m", "child", "v"], ["_"], ["self"],
    ["id", "className", "name", "mt", "self"], ["child", "parent"], ["target", "id", "c", "value"],
    ["inst", "_", "c"]]

/-- The variables of a chunk, and those of each function in it. -/
structure Declared where
  chunk : List String
  functions : List (List String)

/-- What `emitImpl` writes for a source, which is none when `cst.Parse` has diagnostics. -/
def emitImpl : Option Declared → List (List String)
  | none => [["script", "require"]]
  | some source => (["script", "require"] ++ source.chunk) :: source.functions

/-- The variables of the main chunk and of each function; `read` reads a source. -/
def emittedLocals (read : Bytes → Option Declared) (root : Instance) : List (List String) :=
  let all := assign none 1 root
  let main := preludeLocals ++ all.map (fun n => "i" ++ toString n.id) ++
    if root.className = str "DataModel" then ["game"] else []
  main :: preludeFunctions ++ (all.filter fun n => isScriptClass n.className).flatMap fun n =>
    emitImpl (read n.source)

/-- No function has more variables than Luau allows exactly when there are few enough instances and
every source leaves room for the two parameters. -/
theorem emittedLocals_le_iff (read : Bytes → Option Declared) (root : Instance) :
    (∀ names ∈ emittedLocals read root, names.length ≤ 200) ↔
      20 + (assign none 1 root).length + (if root.className = str "DataModel" then 1 else 0) ≤ 200 ∧
      ∀ entry ∈ assign none 1 root, isScriptClass entry.className → ∀ source ∈ read entry.source,
        source.chunk.length ≤ 198 ∧ ∀ names ∈ source.functions, names.length ≤ 200 := by
  have impl (source : Option Declared) : (∀ names ∈ emitImpl source, names.length ≤ 200) ↔
      ∀ declared ∈ source,
        declared.chunk.length ≤ 198 ∧ ∀ names ∈ declared.functions, names.length ≤ 200 := by
    cases source with
    | none => simp [emitImpl]
    | some declared =>
      have room : (["script", "require"] ++ declared.chunk).length ≤ 200 ↔
          declared.chunk.length ≤ 198 := by
        change declared.chunk.length + 2 ≤ 200 ↔ _
        omega
      simp only [emitImpl, forall_mem_cons, room, Option.mem_some_iff, forall_eq']
  have prelude : ∀ names ∈ preludeFunctions, names.length ≤ 200 := by decide
  have game : (if root.className = str "DataModel" then ["game"] else []).length =
      if root.className = str "DataModel" then 1 else 0 := by split <;> rfl
  rw [emittedLocals, cons_append, forall_mem_cons, forall_mem_append, and_iff_right prelude,
    length_append, length_append, length_map, game]
  refine and_congr Iff.rfl ?_
  simp only [mem_flatMap, mem_filter, ← impl]
  constructor
  · intro all entry mem isScript names inside
    exact all names ⟨entry, ⟨mem, isScript⟩, inside⟩
  · rintro all names ⟨entry, ⟨mem, isScript⟩, inside⟩
    exact all entry mem isScript names inside

/-- A folder with 180 folders in it. -/
theorem emittedLocals_exceed : ¬ ∀ names ∈ emittedLocals (fun _ => none) (.mk (str "Folder")
    (str "Root") [] [] (replicate 180 (.mk (str "Folder") (str "Item") [] [] []))),
      names.length ≤ 200 :=
  fun fits => absurd (fits _ mem_cons_self) (by decide +kernel)

end Rotor.Pack
