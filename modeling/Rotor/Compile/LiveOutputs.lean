import Rotor.Compile.Cleanup
import Rotor.Rojo.Places

/-!
The outputs of a source are not judged orphaned.

An output is turned back into inputs by the parts of its name. Only for a file directly in the root
of the file system, and for a bare name, is one byte too many cut off in front of the name.
-/

namespace Rotor.Rojo

lemma trimSuffix_append (text ending : Bytes) : trimSuffix (text ++ ending) ending = text := by
  rw [trimSuffix, if_pos (hasSuffix_iff.mpr (List.suffix_append _ _))]
  simp

lemma hasSuffix_eq_false {front last ending : Bytes} (some : last ≠ []) (some' : ending ≠ [])
    (different : last.getLast? ≠ ending.getLast?) : hasSuffix (front ++ last) ending = false := by
  by_contra ends
  obtain ⟨before, same⟩ := hasSuffix_iff.mp (Bool.eq_true_of_not_eq_false ends)
  have bytes := congrArg List.getLast? same
  rw [List.getLast?_append_of_ne_nil _ some, List.getLast?_append_of_ne_nil _ some'] at bytes
  exact different bytes.symm

end Rotor.Rojo

namespace Rotor.Compile

open Rojo
open Rotor.Path (Plain)

variable {trans : PathTranslator} {source output : Bytes}

lemma orphaned_eq_false {disk : Disk} {sourceMapsEnabled : Bool} (exists' : disk.stat source)
    (input : source ∈ trans.getInputPaths output)
    (notMap : hasSuffix output (str ".map") = false)
    (declared : hasSuffix output (str ".d.ts") → trans.declaration) :
    isOutputFileOrphanedWithSourceMaps trans sourceMapsEnabled disk output = false := by
  have found : (trans.getInputPaths output).any disk.stat :=
    List.any_eq_true.mpr ⟨source, input, exists'⟩
  have notLuauMap : hasSuffix output (str ".luau.map") = false := by
    by_contra ends
    have isMap : str ".map" <:+ str ".luau.map" := by decide
    have ends' := hasSuffix_iff.mp (Bool.eq_true_of_not_eq_false ends)
    rw [hasSuffix_iff.mpr (isMap.trans ends')] at notMap
    nomatch notMap
  have notDeclared : (hasSuffix output (str ".d.ts") && !trans.declaration) = false := by
    cases ends : hasSuffix output (str ".d.ts") with
    | false => rfl
    | true => simp [declared ends]
  simp [isOutputFileOrphanedWithSourceMaps, notLuauMap, notDeclared, found]

lemma orphaned_map_eq_false {disk : Disk} (exists' : disk.stat source)
    (input : source ∈ trans.getInputPaths output) :
    isOutputFileOrphanedWithSourceMaps trans true disk (output ++ str ".map") = false := by
  have found : (trans.getInputPaths output).any disk.stat :=
    List.any_eq_true.mpr ⟨source, input, exists'⟩
  have isMap : hasSuffix (output ++ str ".map") (str ".map") :=
    hasSuffix_iff.mpr (List.suffix_append _ _)
  have notDeclared : hasSuffix (output ++ str ".map") (str ".d.ts") = false :=
    hasSuffix_eq_false (by decide) (by decide) (by decide)
  simp [isOutputFileOrphanedWithSourceMaps, trimSuffix_append, notDeclared, found, isMap]

/-- The outputs of a source that is there are not orphaned, because the source is one of their
inputs. Maps that are copied and, without declarations, declaration files are left out. -/
structure Live (trans : PathTranslator) (source : Bytes) : Prop where
  input : source ∈ trans.getInputPaths (trans.getOutputPath source)
  declared : trans.declaration →
    source ∈ trans.getInputPaths (trans.getOutputDeclarationPath source)
  kept : ∀ (disk : Disk) (sourceMapsEnabled : Bool), disk.stat source →
    hasSuffix source (str ".map") = false →
    (hasSuffix source (str ".d.ts") → trans.declaration) →
    isOutputFileOrphanedWithSourceMaps trans sourceMapsEnabled disk
      (trans.getOutputPath source) = false ∧
    (sourceMapsEnabled → isOutputFileOrphanedWithSourceMaps trans sourceMapsEnabled disk
      (trans.getOutputPath source ++ str ".map") = false) ∧
    (trans.declaration → isOutputFileOrphanedWithSourceMaps trans sourceMapsEnabled disk
      (trans.getOutputDeclarationPath source) = false)

structure IsGuarded (trans : PathTranslator) (source output : Bytes) : Prop where
  input : source ∈ trans.getInputPaths output
  notMap : hasSuffix output (str ".map") → hasSuffix source (str ".map")
  declared : (hasSuffix source (str ".d.ts") → trans.declaration) →
    hasSuffix output (str ".d.ts") → trans.declaration

lemma live_of_guards (guards : IsGuarded trans source (trans.getOutputPath source))
    (guards' : trans.declaration → IsGuarded trans source (trans.getOutputDeclarationPath source)) :
    Live trans source where
  input := guards.input
  declared declaration := (guards' declaration).input
  kept disk sourceMapsEnabled exists' notMap declared := by
    have notMap' : ∀ {output}, IsGuarded trans source output →
        hasSuffix output (str ".map") = false :=
      fun guards => Bool.eq_false_iff.mpr (mt guards.notMap (Bool.eq_false_iff.mp notMap))
    refine ⟨orphaned_eq_false exists' guards.input (notMap' guards) (guards.declared declared), ?_,
      ?_⟩
    · rintro rfl
      exact orphaned_map_eq_false exists' guards.input
    · intro declaration
      have also := guards' declaration
      exact orphaned_eq_false exists' also.input (notMap' also) (also.declared declared)

section Live

variable {place : Place}

lemma guards_of_last (stem : List Bytes) {part : Bytes}
    (parts : place.parts = stem ++ [part]) (notMap : part ≠ str "map")
    (declared : part = str "ts" → trans.declaration)
    (input : source ∈ trans.getInputPaths (place.under trans.outDir)) :
    IsGuarded trans source (place.under trans.outDir) := by
  have last : ∀ (ends : List Bytes) (other : Bytes), Texts (ends ++ [other]) →
      hasSuffix (place.under trans.outDir) (dotted [] (ends ++ [other])) → other = part := by
    intro ends other texts suffix
    obtain ⟨before, same⟩ := (place.hasSuffix_under trans.outDir texts).mp suffix
    rw [parts, ← List.append_assoc] at same
    exact List.head_eq_of_cons_eq (List.append_inj' same rfl).2
  exact ⟨input, fun ends => absurd (last [] (str "map") (by decide) ends).symm notMap,
    fun _ ends => declared (last [str "d"] (str "ts") (by decide) ends).symm⟩

lemma live_of_place (inside : place.Inside trans.rootDir) (inside' : place.Inside trans.outDir) :
    Live trans (place.under trans.rootDir) := by
  obtain ⟨output, declared, outputs, related⟩ := exists_outputs inside
  split at related
  · have script := related
    obtain ⟨stem, part, luau, -, parts, parts', -, -, extension⟩ := script.parts
    apply live_of_guards
    · have inOutput : output.Inside trans.outDir := by rwa [Place.Inside, script.front]
      rw [outputs.isOutput]
      refine guards_of_last stem parts ?_ ?_ (script.mem_output inOutput)
      · rcases extension with rfl | rfl <;> decide
      · rcases extension with rfl | rfl <;> exact fun same => absurd same (by decide)
    · intro declaration
      have inDeclared : declared.Inside trans.outDir := by rwa [Place.Inside, script.front']
      rw [outputs.isDeclared]
      rw [List.append_cons] at parts'
      exact guards_of_last _ parts' (by decide) (fun _ => declaration)
        (script.mem_declared declaration inDeclared)
  · rw [related.1, related.2] at outputs
    have endings : ∀ ends : List Bytes, Texts ends →
        (hasSuffix (place.under trans.outDir) (dotted [] ends) ↔
          hasSuffix (place.under trans.rootDir) (dotted [] ends)) := fun ends texts =>
      (place.hasSuffix_under _ texts).trans (place.hasSuffix_under _ texts).symm
    have guards : IsGuarded trans (place.under trans.rootDir) (place.under trans.outDir) :=
      ⟨mem_getInputPaths inside', (endings [str "map"] (by decide)).mp,
        fun declared ends => declared ((endings [str "d", str "ts"] (by decide)).mp ends)⟩
    refine live_of_guards ?_ fun _ => ?_
    · rwa [outputs.isOutput]
    · rwa [outputs.isDeclared]

end Live

def StrictlyBelow (dir path : Bytes) : Prop :=
  ∃ below, below ≠ [] ∧ (∀ name ∈ below, Plain name) ∧ path = Path.under dir below

/-- A directory with a name: neither the root of the file system nor where the program runs. -/
def Named (dir : Bytes) : Prop := Path.clean dir ≠ str "/" ∧ Path.clean dir ≠ str "."

instance (dir : Bytes) : Decidable (Named dir) := inferInstanceAs (Decidable (_ ∧ _))

lemma Named.names {dir : Bytes} (named : Named dir) : Path.names (Path.clean dir) ≠ [] := by
  intro none
  have cleaned := Path.under_nil dir
  rw [Path.under, none] at cleaned
  cases absolute : Path.isAbs dir <;> rw [absolute] at cleaned
  · exact named.2 cleaned.symm
  · exact named.1 cleaned.symm

/-- What a source is translated to leads back to it, unless it or its output has no directory with a
name. -/
theorem live_of_strictlyBelow (below : StrictlyBelow trans.rootDir source)
    (named : Path.dir source = Path.clean trans.rootDir →
      Named trans.rootDir ∧ Named trans.outDir) : Live trans source := by
  obtain ⟨names, some, plain, rfl⟩ := below
  obtain ⟨place, rfl⟩ := Place.exists_under some plain
  have inside : place.Inside trans.rootDir ∧ place.Inside trans.outDir := by
    by_cases direct : place.front = []
    · have parent := place.dir_under trans.rootDir
      rw [direct, Path.under_nil] at parent
      obtain ⟨isRoot, isOut⟩ := named parent
      simp [Place.Inside, isRoot.names, isOut.names]
    · simp [Place.Inside, direct]
  exact live_of_place inside.1 inside.2

def translatorOf (rootDir : Bytes) : PathTranslator :=
  newPathTranslator rootDir (str "/out") [] true true

theorem live_index : Live (translatorOf (str "/")) (str "/ui/index.ts") :=
  live_of_strictlyBelow ⟨[str "ui", str "index.ts"], by decide, by decide, by decide⟩
    fun direct => absurd direct (by decide)

/-- A source that is directly in the root directory loses the first letter of its name. -/
theorem live_fails_at_root : ∃ disk : Disk, StrictlyBelow (str "/") (str "/a.ts") ∧
    disk.stat (str "/a.ts") ∧
    (translatorOf (str "/")).getOutputPath (str "/a.ts") = str "/out/.luau" ∧
    str "/a.ts" ∉ (translatorOf (str "/")).getInputPaths (str "/out/.luau") ∧
    isOutputFileOrphanedWithSourceMaps (translatorOf (str "/")) true disk (str "/out/.luau") := by
  refine ⟨.ofEntries [([str "a.ts"], .file [])] (by decide) (by decide) (by decide),
    ⟨[str "a.ts"], by decide, by decide, by decide⟩, ?_⟩
  decide +kernel

end Rotor.Compile
