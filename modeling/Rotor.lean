import Rotor.Assets.Glob
import Rotor.Assets.Resolver
import Rotor.Bundle.Strings
import Rotor.Compile.CleanupSpec
import Rotor.Compile.Duplicates
import Rotor.Compile.Incremental
import Rotor.Compile.Jsonc
import Rotor.Compile.Parallel
import Rotor.Compile.Sidecar
import Rotor.Compile.SourceTrace
import Rotor.Deploy.Icons
import Rotor.Diagframe
import Rotor.Loader
import Rotor.Luau.Cst.DenseLexical
import Rotor.Luau.Cst.UnparseWith
import Rotor.Luau.Render.Comments
import Rotor.Luau.Render.OperatorTokens
import Rotor.Pack.Locals
import Rotor.Pack.Lookup
import Rotor.Rojo.Relative
import Rotor.Solution.CompileGate
import Rotor.Solution.WatchSpec
import Rotor.Transformer.ArrayLiteralSpec
import Rotor.Transformer.CallMacro
import Rotor.Transformer.ClassMembers
import Rotor.Transformer.ClassesSpec
import Rotor.Transformer.CountingLoop
import Rotor.Transformer.EnsureOrder
import Rotor.Transformer.ExportsKept
import Rotor.Transformer.InlineSpec
import Rotor.Transformer.Logical
import Rotor.Transformer.Offset
import Rotor.Transformer.SourceLinesExact
import Rotor.Transformer.SwitchSpec
import Rotor.Transformer.TemplateParts
