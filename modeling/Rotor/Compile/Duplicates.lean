import Rotor.Compile.LiveOutputs

/-!
The files that a build writes to one path.

The outputs of the compiled sources are compared with each other before the build. The files that
are copied are not, so a copied file must not stand beside a source under the name of one of its
outputs, nor where it is copied onto a declaration.
-/

namespace Rotor.Compile

open List Rojo
open Rotor.Path (Plain)

/-- "compile: duplicate output path detected: %s and %s" -/
structure DuplicateOutput where
  previous : Bytes
  path : Bytes

structure Host where
  workingDirectory : Bytes
  caseSensitive : Bool
  toLower : Bytes → Bytes

def Host.key (host : Host) (path : Bytes) : Bytes :=
  let key := Path.clean (Path.abs host.workingDirectory path)
  if host.caseSensitive then key else host.toLower key

def outputPathRelativeToDir (dir path : Bytes) : Bytes := (Path.rel dir path).getD path

def rejectDuplicateOutputPaths (host : Host) (paths : List Bytes)
    (seen : List (Bytes × Bytes) := []) : Except DuplicateOutput Unit :=
  match paths with
  | [] => .ok ()
  | path :: paths =>
    match seen.lookup (host.key path) with
    | some previous => .error ⟨previous, path⟩
    | none => rejectDuplicateOutputPaths host paths ((host.key path, path) :: seen)

lemma nodup_of_rejectDuplicateOutputPaths {host : Host} {paths : List Bytes}
    {seen : List (Bytes × Bytes)} (passes : rejectDuplicateOutputPaths host paths seen = .ok ()) :
    (∀ path ∈ paths, seen.lookup (host.key path) = none) ∧ paths.Nodup := by
  induction paths generalizing seen with
  | nil => simp
  | cons path paths ih =>
    rw [rejectDuplicateOutputPaths] at passes
    split at passes
    · nomatch passes
    · next new =>
      obtain ⟨others, distinct⟩ := ih passes
      have apart : ∀ other ∈ paths, host.key other ≠ host.key path ∧
          seen.lookup (host.key other) = none := by
        intro other mem
        have absent := others other mem
        rw [lookup_cons] at absent
        split at absent
        · nomatch absent
        · next different => exact ⟨by simpa using different, absent⟩
      refine ⟨forall_mem_cons.mpr ⟨new, fun other mem => (apart other mem).2⟩, ?_⟩
      exact nodup_cons.mpr ⟨fun mem => (apart path mem).1 rfl, distinct⟩

/-- What `copyItem` copies: no scripts, and declaration files with `declaration` only. -/
def copied (translator : PathTranslator) (path : Bytes) : Bool :=
  if hasSuffix path dtsExt then translator.declaration
  else !(hasSuffix path tsExt || hasSuffix path tsxExt)

/-- What `projectSourceFiles` keeps of a program's files. -/
def isSource (path : Bytes) : Bool :=
  !hasSuffix path dtsExt && (hasSuffix path tsExt || hasSuffix path tsxExt)

/-- `RemoveFileExtension`, for the two extensions of sources. -/
def removeFileExtension (path : Bytes) : Bytes :=
  if hasSuffix path tsExt then trimSuffix path tsExt else trimSuffix path tsxExt

/-- The compiled sources and the files that are looked at to be copied. -/
structure Project where
  translator : PathTranslator
  sourceMaps : Bool
  /-- `declaration` or `composite` is set. -/
  emitDeclarations : Bool
  declarationMap : Bool
  /-- The option or, without it, the output directory. -/
  declarationDir : Bytes
  commonSourceDirectory : Bytes
  sources : List Bytes
  items : List Bytes

namespace Project

variable (proj : Project)

def getDeclarationEmitOutputFilePath (source : Bytes) : Bytes :=
  removeFileExtension (Path.join [proj.declarationDir,
    (Path.rel proj.commonSourceDirectory source).getD source]) ++ dtsExt

/-- What `emitDeclarations` writes for a source. -/
def declarations (source : Bytes) : List Bytes :=
  let path := proj.getDeclarationEmitOutputFilePath source
  if proj.emitDeclarations then
    path :: if proj.declarationMap then [path ++ str ".map"] else []
  else []

def withMap (output : Bytes) : List Bytes :=
  output :: if proj.sourceMaps then [output ++ str ".map"] else []

def compiledOutputs (source : Bytes) : List Bytes :=
  proj.withMap (proj.translator.getOutputPath source) ++ proj.declarations source

def writes (file : Bytes) : List Bytes :=
  (if file ∈ proj.sources then proj.compiledOutputs file else []) ++
    if file ∈ proj.items ∧ copied proj.translator file then
      [proj.translator.getOutputPath file]
    else []

def OneInput : Prop :=
  ∀ file other, file ≠ other → ∀ path ∈ proj.writes file, path ∉ proj.writes other

/-- The output and its map under their own names, but beside the source. -/
def beside (source : Bytes) : List Bytes :=
  proj.withMap (proj.translator.outputInfo (pathInfoFrom source)).join

/-- The file is copied neither onto an output of the source nor onto its declaration. -/
def Apart (source item : Bytes) : Prop :=
  item ∉ proj.beside source ∧ ∀ path ∈ proj.declarations source,
    Path.rel proj.translator.outDir path ≠ Path.rel proj.translator.rootDir item

instance (source item : Bytes) : Decidable (proj.Apart source item) :=
  inferInstanceAs (Decidable (_ ∧ _))

end Project

/-! ### Outputs in common -/

section Sources

variable {trans : PathTranslator} {place place' : Place} {dir : Bytes} {stem : List Bytes}

/-- A source by the name in front of its extension; a declaration file is none. -/
structure IsScript (place : Place) (stem : List Bytes) : Prop where
  parts : ∃ part, place.parts = stem ++ [part] ∧ (part = str "ts" ∨ part = str "tsx")
  notDeclaration : ¬ [str "d", str "ts"] <:+ place.parts

lemma exists_isScript (source : isSource (place.under dir)) : ∃ stem, IsScript place stem := by
  have texts : Texts [str "d", str "ts"] ∧ Texts [str "ts"] ∧ Texts [str "tsx"] := by decide
  rw [isSource, Bool.and_eq_true, Bool.or_eq_true, Bool.not_eq_true', Bool.eq_false_iff] at source
  obtain ⟨notDeclaration, isTs | isTsx⟩ := source
  · obtain ⟨stem, same⟩ := (place.hasSuffix_under dir texts.2.1).mp isTs
    exact ⟨stem, ⟨_, same.symm, .inl rfl⟩,
      mt (place.hasSuffix_under dir texts.1).mpr notDeclaration⟩
  · obtain ⟨stem, same⟩ := (place.hasSuffix_under dir texts.2.2).mp isTsx
    exact ⟨stem, ⟨_, same.symm, .inr rfl⟩,
      mt (place.hasSuffix_under dir texts.1).mpr notDeclaration⟩

lemma IsScript.texts (script : IsScript place stem) : Texts (place.fileName :: stem) := by
  obtain ⟨part, parts, -⟩ := script.parts
  have texts := place.texts
  rw [parts] at texts
  exact fun text mem => texts text (by
    rw [← cons_append]
    exact mem_append_left _ mem)

def IsScript.declared (script : IsScript place stem) : Place :=
  place.renamed script.texts (show Texts [str "d", str "ts"] by decide) (by decide)

lemma IsScript.removeFileExtension (script : IsScript place stem) (dir : Bytes) :
    removeFileExtension (place.under dir) ++ dtsExt = script.declared.under dir := by
  obtain ⟨lead, -, leads⟩ := Place.exists_lead dir place.plain
  have declared : script.declared.under dir = lead ++ dotted place.fileName stem ++ dtsExt := by
    refine (leads _ script.declared.isPlain).trans ?_
    rw [IsScript.declared, Place.renamed, dotted_append]
    simp [dotted, dtsExt, str]
  obtain ⟨part, parts, ends⟩ := script.parts
  have whole : place.under dir = lead ++ dotted place.fileName stem ++ 46 :: part := by
    refine (leads _ place.isPlain).trans ?_
    rw [parts, dotted_append]
    simp [dotted]
  rw [declared, Compile.removeFileExtension]
  rcases ends with rfl | rfl
  · have isTs : hasSuffix (place.under dir) tsExt :=
      (place.hasSuffix_under dir (show Texts [str "ts"] by decide)).mpr ⟨stem, parts.symm⟩
    rw [if_pos isTs, whole]
    exact congrArg (· ++ dtsExt) (trimSuffix_append _ tsExt)
  · have notTs : ¬ hasSuffix (place.under dir) tsExt := by
      rw [show tsExt = dotted [] [str "ts"] from rfl, place.hasSuffix_under dir (by decide), parts]
      rintro ⟨before, same⟩
      exact absurd (append_inj' same rfl).2 (by decide)
    rw [if_neg notTs, whole]
    exact congrArg (· ++ dtsExt) (trimSuffix_append _ tsxExt)

lemma IsScript.isCompiled_iff (script : IsScript place stem) {dirName : Bytes} :
    PathInfo.isCompiled ⟨dirName, place.fileName, place.parts.map (46 :: ·)⟩ ↔
      ¬ [str "d"] <:+ stem := by
  obtain ⟨part, parts, ends⟩ := script.parts
  have notDeclaration := script.notDeclaration
  have last : ∀ names : List Bytes, ∀ name, names ++ [name] <:+ stem ++ [part] ↔
      names <:+ stem ∧ name = part := by
    intro names name
    constructor
    · rintro ⟨before, same⟩
      rw [← append_assoc] at same
      obtain ⟨same, last⟩ := append_inj' same rfl
      exact ⟨⟨before, same⟩, head_eq_of_cons_eq last⟩
    · rintro ⟨⟨before, rfl⟩, rfl⟩
      exact ⟨before, by simp⟩
  have one := last []
  have two := last [str "d"]
  simp only [nil_append, cons_append, nil_suffix, true_and] at one two
  rw [Rojo.isCompiled_iff, parts, one, two, one, two]
  rw [parts, two] at notDeclaration
  have different : str "ts" ≠ str "tsx" := by decide
  rcases ends with rfl | rfl <;> grind

/-- The output of a source comes from the name in front of its extension. -/
lemma getOutputPath_congr (inside : place.Inside trans.rootDir) (script : IsScript place stem)
    (script' : IsScript place' stem) (front : place.front = place'.front)
    (named : place.fileName = place'.fileName) :
    trans.getOutputPath (place.under trans.rootDir) =
      trans.getOutputPath (place'.under trans.rootDir) := by
  have inside' : place'.Inside trans.rootDir := by rwa [Place.Inside, ← front]
  obtain ⟨part, parts, ends⟩ := script.parts
  obtain ⟨part', parts', ends'⟩ := script'.parts
  by_cases isD : [str "d"] <:+ stem
  · -- With `ts` either would be a declaration file.
    have isTsx : ∀ {other part}, IsScript other stem → other.parts = stem ++ [part] →
        (part = str "ts" ∨ part = str "tsx") → part = str "tsx" := by
      rintro other part script parts (rfl | rfl)
      · obtain ⟨before, rfl⟩ := isD
        exact absurd ⟨before, by simp [parts]⟩ script.notDeclaration
      · rfl
    have same : place = place' := Place.ext front named (by
      rw [parts, parts', isTsx script parts ends, isTsx script' parts' ends'])
    rw [same]
  · rw [PathTranslator.getOutputPath, PathTranslator.getOutputPath,
      Place.pathInfoFrom_under inside, Place.pathInfoFrom_under inside']
    dsimp only
    rw [if_pos (script.isCompiled_iff.mpr isD), if_pos (script'.isCompiled_iff.mpr isD), parts,
      parts', front, named]
    simp [PathInfo.popExt]

/-- An output or a declaration, which its map is written beside. -/
structure Written (path : Bytes) (isDeclaration : Bool) : Prop where
  notMap : hasSuffix path (str ".map") = false
  isTs : hasSuffix path tsExt = isDeclaration

lemma Written.eq {path path' written : Bytes} {isDeclaration isDeclaration' : Bool}
    (base : Written path isDeclaration) (base' : Written path' isDeclaration')
    (isPath : written = path ∨ written = path ++ str ".map")
    (isPath' : written = path' ∨ written = path' ++ str ".map") :
    isDeclaration = isDeclaration' ∧ path = path' := by
  have isMap : ∀ path : Bytes, hasSuffix (path ++ str ".map") (str ".map") :=
    fun path => hasSuffix_iff.mpr (suffix_append _ _)
  have notMap := base.notMap
  have notMap' := base'.notMap
  rcases isPath with rfl | rfl <;> rcases isPath' with same | same
  · subst same
    exact ⟨base.isTs.symm.trans base'.isTs, rfl⟩
  · rw [same, isMap] at notMap
    nomatch notMap
  · rw [← same, isMap] at notMap'
    nomatch notMap'
  · obtain rfl := append_cancel_right same
    exact ⟨base.isTs.symm.trans base'.isTs, rfl⟩

lemma written_declaration (path : Bytes) : Written (path ++ dtsExt) true where
  notMap := hasSuffix_eq_false (by decide) (by decide) (by decide)
  isTs := by
    have isTs : tsExt <:+ dtsExt := by decide
    exact hasSuffix_iff.mpr (isTs.trans (suffix_append _ _))

lemma written_output {output : Place} {last : Bytes} (parts : output.parts = stem ++ [last])
    (notMap : last ≠ str "map") (notTs : last ≠ str "ts") (dir : Bytes) :
    Written (output.under dir) false := by
  have ends : ∀ other, Texts [other] → hasSuffix (output.under dir) (dotted [] [other]) →
      last = other := by
    intro other texts suffix
    obtain ⟨before, same⟩ := (output.hasSuffix_under dir texts).mp suffix
    rw [parts] at same
    exact (head_eq_of_cons_eq (append_inj' same rfl).2).symm
  exact ⟨Bool.eq_false_iff.mpr fun suffix => notMap (ends _ (by decide) suffix),
    Bool.eq_false_iff.mpr fun suffix => notTs (ends _ (by decide) suffix)⟩

lemma IsScript.exists_output (script : IsScript place stem) (inside : place.Inside trans.rootDir) :
    ∃ output : Place, trans.getOutputPath (place.under trans.rootDir) = output.under trans.outDir ∧
      (trans.outputInfo (pathInfoFrom (place.under trans.rootDir))).join =
        output.under trans.rootDir ∧ Written (output.under trans.outDir) false := by
  obtain ⟨output, declared, outputs, related⟩ := exists_outputs inside
  refine ⟨output, outputs.isOutput, outputs.beside, ?_⟩
  split at related
  · obtain ⟨stem, part, luau, -, parts, -, -, -, extension⟩ := related.parts
    rcases extension with rfl | rfl <;> exact written_output parts (by decide) (by decide) _
  · next notCompiled =>
    rw [related.1]
    rw [Place.pathInfoFrom_under inside, script.isCompiled_iff, not_not] at notCompiled
    obtain ⟨before, rfl⟩ := notCompiled
    obtain ⟨part, parts, rfl | rfl⟩ := script.parts
    · exact absurd ⟨before, by simp [parts]⟩ script.notDeclaration
    · exact written_output parts (by decide) (by decide) _

end Sources

section Files

variable {proj : Project} {place : Place} {source : Bytes}

lemma mem_compiledOutputs {path : Bytes} (mem : path ∈ proj.compiledOutputs source) :
    ∃ base ∈ [proj.translator.getOutputPath source, proj.getDeclarationEmitOutputFilePath source],
      path = base ∨ path = base ++ str ".map" := by
  rw [Project.compiledOutputs, Project.withMap, Project.declarations] at mem
  cases proj.sourceMaps <;> cases proj.emitDeclarations <;> cases proj.declarationMap <;>
    simp at mem ⊢ <;> tauto

lemma getOutputPath_copied (inside : place.Inside proj.translator.rootDir)
    (copies : copied proj.translator (place.under proj.translator.rootDir)) :
    proj.translator.getOutputPath (place.under proj.translator.rootDir) =
      place.under proj.translator.outDir := by
  obtain ⟨output, declared, outputs, related⟩ := exists_outputs inside
  have notCompiled : ¬ (pathInfoFrom (place.under proj.translator.rootDir)).isCompiled := by
    have apart : ¬ ([str "tsx"] <:+ place.parts ∧ [str "d", str "ts"] <:+ place.parts) :=
      fun ends => absurd (suffix_or_suffix_of_suffix ends.1 ends.2) (by decide)
    have isDts := place.hasSuffix_under proj.translator.rootDir
      (show Texts [str "d", str "ts"] by decide)
    have isTs := place.hasSuffix_under proj.translator.rootDir (show Texts [str "ts"] by decide)
    have isTsx := place.hasSuffix_under proj.translator.rootDir (show Texts [str "tsx"] by decide)
    rw [Place.pathInfoFrom_under inside, Rojo.isCompiled_iff, ← isDts, ← isTs, ← isTsx]
    rw [← isDts, ← isTsx] at apart
    change copied proj.translator (place.under _) = true at copies
    rw [copied, show dtsExt = dotted [] [str "d", str "ts"] from rfl,
      show tsExt = dotted [] [str "ts"] from rfl, show tsxExt = dotted [] [str "tsx"] from rfl]
      at copies
    grind
  rw [if_neg notCompiled] at related
  rw [outputs.isOutput, related.1]

lemma IsScript.declaration_eq {stem : List Bytes} (script : IsScript place stem) :
    proj.getDeclarationEmitOutputFilePath (place.under proj.commonSourceDirectory) =
      script.declared.under proj.declarationDir := by
  have some : place.names ≠ [] := by simp [Place.names]
  rw [Project.getDeclarationEmitOutputFilePath, Place.under,
    Path.rel_under _ some place.plain_names,
    Option.getD_some, Path.join_under _ some place.plain_names]
  exact script.removeFileExtension proj.declarationDir

/-- A source that is below two directories. -/
structure Twice (proj : Project) (source : Bytes) (place common : Place) (stem : List Bytes) :
    Prop where
  isPlace : source = place.under proj.translator.rootDir
  isCommon : source = common.under proj.commonSourceDirectory
  fronts : Path.names (Path.clean proj.translator.rootDir) ++ place.front =
    Path.names (Path.clean proj.commonSourceDirectory) ++ common.front
  named : place.fileName = common.fileName
  script : IsScript place stem
  script' : IsScript common stem

lemma exists_twice (isSource : isSource source)
    (below : StrictlyBelow proj.translator.rootDir source)
    (below' : StrictlyBelow proj.commonSourceDirectory source) :
    ∃ place common stem, Twice proj source place common stem := by
  obtain ⟨names, some, plain, rfl⟩ := below
  obtain ⟨place, rfl⟩ := Place.exists_under some plain
  obtain ⟨names, some', plain', same⟩ := below'
  obtain ⟨common, rfl⟩ := Place.exists_under some' plain'
  obtain ⟨stem, script⟩ := @exists_isScript place _ isSource
  have names := congrArg Path.names same
  rw [Path.under, Path.under, Path.names_located (Path.settled_under _ place.plain_names),
    Path.names_located (Path.settled_under _ common.plain_names), Place.names, Place.names,
    ← append_assoc, ← append_assoc] at names
  obtain ⟨fronts, last⟩ := append_inj' names rfl
  obtain ⟨named, parts⟩ := dotted_inj place.texts common.texts (head_eq_of_cons_eq last)
  exact ⟨place, common, stem, rfl, same, fronts, named, script,
    ⟨parts ▸ script.parts, parts ▸ script.notDeclaration⟩⟩

lemma Twice.output_eq {place' common common' : Place} {stem stem' : List Bytes} {other : Bytes}
    (twice : Twice proj source place common stem) (twice' : Twice proj other place' common' stem')
    (inside : place.Inside proj.translator.rootDir)
    (same : proj.getDeclarationEmitOutputFilePath source =
      proj.getDeclarationEmitOutputFilePath other) :
    proj.translator.getOutputPath source = proj.translator.getOutputPath other := by
  rw [twice.isCommon, twice'.isCommon, twice.script'.declaration_eq,
    twice'.script'.declaration_eq] at same
  have declared := Place.under_inj same
  simp only [IsScript.declared, Place.renamed, Place.mk.injEq, append_cancel_right_eq] at declared
  obtain ⟨front, named, rfl⟩ := declared
  have fronts := twice.fronts
  rw [front, ← twice'.fronts] at fronts
  rw [twice.isPlace, twice'.isPlace]
  exact getOutputPath_congr inside twice.script twice'.script (append_cancel_left fronts)
    (by rw [twice.named, twice'.named, named])

lemma mem_withMap {output : Place} (dir : Bytes) :
    place.under dir ∈ proj.withMap (output.under dir) ↔
      place = output ∨ proj.sourceMaps ∧ place = output.mapped := by
  have inj : ∀ place', place.under dir = place'.under dir ↔ place = place' := fun place' =>
    ⟨Place.under_inj, congrArg _⟩
  rw [Project.withMap, ← output.mapped_under]
  cases proj.sourceMaps <;> simp [inj]

lemma rel_eq_iff {path : Bytes} (cleaned : Path.clean path = path) {dir from_ : Bytes} :
    Path.rel dir path = Path.rel from_ (place.under from_) ↔ place.under dir = path := by
  have some : place.names ≠ [] := by simp [Place.names]
  rw [Place.under, Path.rel_under from_ some place.plain_names]
  constructor
  · exact fun same => (Path.eq_under_of_rel cleaned some place.plain_names same).symm
  · rintro rfl
    exact Path.rel_under dir some place.plain_names

lemma IsScript.clean_declarations {stem : List Bytes} (script : IsScript place stem) :
    ∀ path ∈ proj.declarations (place.under proj.commonSourceDirectory),
      Path.clean path = path := by
  have cleaned : ∀ other : Place, Path.clean (other.under proj.declarationDir) =
      other.under proj.declarationDir := fun other =>
    Path.clean_located (Path.settled_under _ other.plain_names)
  rw [Project.declarations, script.declaration_eq, ← Place.mapped_under]
  intro path mem
  have isPath : path = script.declared.under proj.declarationDir ∨
      path = script.declared.mapped.under proj.declarationDir := by grind
  rcases isPath with rfl | rfl <;> exact cleaned _

/-- A file that is copied is apart from a source exactly when it is copied onto none of its
outputs. -/
lemma Twice.apart_iff {common item : Place} {stem : List Bytes}
    (twice : Twice proj source place common stem)
    (inside : place.Inside proj.translator.rootDir) :
    proj.Apart source (item.under proj.translator.rootDir) ↔
      item.under proj.translator.outDir ∉ proj.compiledOutputs source := by
  obtain ⟨output, isOutput, beside, -⟩ := twice.script.exists_output inside
  rw [← twice.isPlace] at isOutput beside
  have cleaned : ∀ path ∈ proj.declarations source, Path.clean path = path :=
    twice.isCommon ▸ twice.script'.clean_declarations
  rw [Project.Apart, Project.beside, beside, Project.compiledOutputs, isOutput, mem_append, not_or,
    mem_withMap, mem_withMap]
  refine and_congr_right fun _ => ⟨fun apart mem => ?_, fun absent path mem same => ?_⟩
  · exact apart _ mem ((rel_eq_iff (cleaned _ mem)).mpr rfl)
  · exact absent ((rel_eq_iff (cleaned _ mem)).mp same ▸ mem)

end Files

/-! ### The writes of a build -/

section Build

variable {proj : Project} {source other item path : Bytes}

/-- Where the files of a build are. -/
structure Located (proj : Project) : Prop where
  namedRoot : Named proj.translator.rootDir
  below : ∀ file ∈ proj.sources ++ proj.items, StrictlyBelow proj.translator.rootDir file
  common : ∀ source ∈ proj.sources, StrictlyBelow proj.commonSourceDirectory source
  sources : ∀ source ∈ proj.sources, isSource source

lemma mem_writes : path ∈ proj.writes item ↔
    (item ∈ proj.sources ∧ path ∈ proj.compiledOutputs item) ∨
      (item ∈ proj.items ∧ copied proj.translator item ∧
        path = proj.translator.getOutputPath item) := by
  grind [Project.writes]

namespace Located

variable (located : Located proj)
include located

lemma inside (place : Place) : place.Inside proj.translator.rootDir := by
  simp [Place.Inside, located.namedRoot.names]

lemma twice (mem : source ∈ proj.sources) :
    ∃ place common stem, Twice proj source place common stem :=
  exists_twice (located.sources source mem) (located.below source (mem_append_left _ mem))
    (located.common source mem)

lemma copied_under (mem : item ∈ proj.items) (copies : copied proj.translator item) :
    ∃ place : Place, item = place.under proj.translator.rootDir ∧
      proj.translator.getOutputPath item = place.under proj.translator.outDir := by
  obtain ⟨names, some, plain, rfl⟩ := located.below item (mem_append_right _ mem)
  obtain ⟨place, rfl⟩ := Place.exists_under some plain
  exact ⟨place, rfl, getOutputPath_copied (located.inside place) copies⟩

lemma apart_iff (mem : source ∈ proj.sources) (mem' : item ∈ proj.items)
    (copies : copied proj.translator item) :
    proj.Apart source item ↔
      proj.translator.getOutputPath item ∉ proj.compiledOutputs source := by
  obtain ⟨place, common, stem, isTwice⟩ := located.twice mem
  obtain ⟨place', rfl, isPath⟩ := located.copied_under mem' copies
  rw [isPath]
  exact isTwice.apart_iff (located.inside place)

/-- Whether the path that the outputs are named after is the one of a declaration. -/
lemma written_base (mem : source ∈ proj.sources) {base : Bytes}
    (isBase : base ∈ [proj.translator.getOutputPath source,
      proj.getDeclarationEmitOutputFilePath source]) :
    ∃ isDeclaration, Written base isDeclaration ∧
      base = if isDeclaration then proj.getDeclarationEmitOutputFilePath source
        else proj.translator.getOutputPath source := by
  obtain ⟨place, common, stem, isTwice⟩ := located.twice mem
  obtain ⟨output, isOutput, -, written⟩ := isTwice.script.exists_output (located.inside place)
  rw [← isTwice.isPlace] at isOutput
  simp only [mem_cons, not_mem_nil, or_false] at isBase
  rcases isBase with rfl | rfl
  · exact ⟨false, isOutput ▸ written, rfl⟩
  · exact ⟨true, written_declaration _, rfl⟩

lemma output_eq (mem : source ∈ proj.sources) (mem' : other ∈ proj.sources)
    (isPath : path ∈ proj.compiledOutputs source) (isPath' : path ∈ proj.compiledOutputs other) :
    proj.translator.getOutputPath source = proj.translator.getOutputPath other := by
  obtain ⟨base, isBase, named⟩ := mem_compiledOutputs isPath
  obtain ⟨base', isBase', named'⟩ := mem_compiledOutputs isPath'
  obtain ⟨kind, written, isOutput⟩ := located.written_base mem isBase
  obtain ⟨kind', written', isOutput'⟩ := located.written_base mem' isBase'
  obtain ⟨rfl, rfl⟩ := written.eq written' named named'
  have same := isOutput.symm.trans isOutput'
  cases kind with
  | false => exact same
  | true =>
    obtain ⟨place, common, stem, isTwice⟩ := located.twice mem
    obtain ⟨place', common', stem', isTwice'⟩ := located.twice mem'
    exact isTwice.output_eq isTwice' (located.inside place) same

lemma copied_once (mem : item ∈ proj.items) (mem' : other ∈ proj.items)
    (copies : copied proj.translator item) (copies' : copied proj.translator other)
    (same : proj.translator.getOutputPath item = proj.translator.getOutputPath other) :
    item = other := by
  obtain ⟨place, rfl, isPath⟩ := located.copied_under mem copies
  obtain ⟨place', rfl, isPath'⟩ := located.copied_under mem' copies'
  rw [isPath, isPath'] at same
  rw [Place.under_inj same]

end Located

end Build

/-- A build that passes the comparison of its outputs writes no path for two files exactly when
every copied file is apart from every source. -/
theorem oneInput_iff {proj : Project} (host : Host) (dir : Bytes)
    (namedRoot : Named proj.translator.rootDir)
    (below : ∀ file ∈ proj.sources ++ proj.items, StrictlyBelow proj.translator.rootDir file)
    (common : ∀ source ∈ proj.sources, StrictlyBelow proj.commonSourceDirectory source)
    (sources : ∀ source ∈ proj.sources, isSource source)
    (passes : rejectDuplicateOutputPaths host (proj.sources.map fun source =>
      outputPathRelativeToDir dir (proj.translator.getOutputPath source)) = .ok ()) :
    proj.OneInput ↔ ∀ source ∈ proj.sources, ∀ item ∈ proj.items,
      copied proj.translator item → proj.Apart source item := by
  have located : Located proj := ⟨namedRoot, below, common, sources⟩
  simp only [Project.OneInput, mem_writes]
  constructor
  · intro apart source mem item mem' copies
    rw [located.apart_iff mem mem' copies]
    intro onto
    refine apart source item ?_ _ (Or.inl ⟨mem, onto⟩) (Or.inr ⟨mem', copies, rfl⟩)
    rintro rfl
    have own := sources source mem
    grind [isSource, copied]
  · rintro apart file other different path (⟨mem, isPath⟩ | ⟨mem, copies, rfl⟩)
      (⟨mem', isPath'⟩ | ⟨mem', copies', same⟩)
    · have same := located.output_eq mem mem' isPath isPath'
      exact different (inj_on_of_nodup_map (nodup_of_rejectDuplicateOutputPaths passes).2 mem mem'
        (congrArg (outputPathRelativeToDir dir) same))
    · subst same
      exact (located.apart_iff mem mem' copies').mp (apart file mem other mem' copies') isPath
    · exact (located.apart_iff mem' mem copies).mp (apart other mem' file mem copies) isPath'
    · exact different (located.copied_once mem mem' copies copies' same)

def projectOf (sources items : List Bytes) : Project where
  translator := translatorOf (str "/src")
  sourceMaps := true
  emitDeclarations := true
  declarationMap := true
  declarationDir := str "/out/types"
  commonSourceDirectory := str "/src"
  sources := sources
  items := items

def posix : Host := ⟨str "/", true, id⟩

theorem oneInput_index : (projectOf [str "/src/index.ts"]
    [str "/src/index.ts", str "/src/index.luau", str "/src/index.d.ts.map"]).OneInput :=
  (oneInput_iff posix (str "/") (by decide) (by
      simp only [projectOf, cons_append, nil_append, forall_mem_cons]
      exact ⟨⟨[str "index.ts"], by decide, by decide, by decide⟩,
        ⟨[str "index.ts"], by decide, by decide, by decide⟩,
        ⟨[str "index.luau"], by decide, by decide, by decide⟩,
        ⟨[str "index.d.ts.map"], by decide, by decide, by decide⟩, by simp⟩)
    (forall_mem_singleton.mpr ⟨[str "index.ts"], by decide, by decide, by decide⟩)
    (by decide) rfl).mpr (by decide +kernel)

/-- A script and a copied module of one name pass the comparison and are written to one path. -/
theorem foo_overwritten :
    let proj := projectOf [str "/src/foo.ts"] [str "/src/foo.ts", str "/src/foo.luau"]
    rejectDuplicateOutputPaths posix (proj.sources.map fun source =>
      outputPathRelativeToDir (str "/") (proj.translator.getOutputPath source)) = .ok () ∧
    str "/out/foo.luau" ∈ proj.writes (str "/src/foo.ts") ∧
    str "/out/foo.luau" ∈ proj.writes (str "/src/foo.luau") ∧ ¬ proj.OneInput := by
  refine ⟨rfl, by decide +kernel, by decide +kernel, fun once => ?_⟩
  exact once (str "/src/foo.ts") (str "/src/foo.luau") (by decide) (str "/out/foo.luau")
    (by decide +kernel) (by decide +kernel)

end Rotor.Compile
