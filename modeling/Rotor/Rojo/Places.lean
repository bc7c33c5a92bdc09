import Rotor.Rojo.PathTranslator

/-!
Files by their place below a directory.

The name of a file is split at its dots. Every output of a file is at a place beside it, with other
parts of the name.
-/

namespace Rotor.Rojo

open List

open Rotor.Path (Plain)

/-! ### Names and their extensions -/

def dotted (fileName : Bytes) (parts : List Bytes) : Bytes :=
  fileName ++ (parts.map (46 :: ·)).flatten

def Texts (parts : List Bytes) : Prop := ∀ part ∈ parts, (46 : UInt8) ∉ part ∧ (47 : UInt8) ∉ part

instance (parts : List Bytes) : Decidable (Texts parts) :=
  inferInstanceAs (Decidable (∀ part ∈ parts, _))

lemma Texts.append {parts parts' : List Bytes} (texts : Texts parts) (texts' : Texts parts') :
    Texts (parts ++ parts') :=
  fun part mem => (mem_append.mp mem).elim (texts part) (texts' part)

section Parts

variable {fileName fileName' : Bytes} {parts parts' : List Bytes}

lemma dotted_eq : dotted fileName parts = [46].intercalate (fileName :: parts) := by
  induction parts generalizing fileName with
  | nil => simp [dotted]
  | cons part parts ih =>
    rw [intercalate_cons_of_ne_nil (by simp), ← ih]
    simp [dotted]

lemma dotted_append (parts parts' : List Bytes) :
    dotted fileName (parts ++ parts') = dotted fileName parts ++ dotted [] parts' := by
  simp [dotted]

lemma splitOn_dotted (texts : Texts (fileName :: parts)) :
    (dotted fileName parts).splitOn 46 = fileName :: parts := by
  rw [dotted_eq, splitOn_intercalate 46 (fun part mem => (texts part mem).1) (by simp)]

lemma dotted_inj (texts : Texts (fileName :: parts)) (texts' : Texts (fileName' :: parts'))
    (same : dotted fileName parts = dotted fileName' parts') :
    fileName = fileName' ∧ parts = parts' := by
  have split := congrArg (·.splitOn 46) same
  rw [splitOn_dotted texts, splitOn_dotted texts'] at split
  exact List.cons.inj split

lemma slash_mem_dotted : (47 : UInt8) ∈ dotted fileName parts ↔
    ∃ part ∈ fileName :: parts, (47 : UInt8) ∈ part := by
  simp [dotted]

lemma exists_dotted {name : Bytes} (noSlash : (47 : UInt8) ∉ name) :
    ∃ fileName parts, Texts (fileName :: parts) ∧ name = dotted fileName parts := by
  cases split : name.splitOn 46 with
  | nil => exact absurd split (splitOn_ne_nil 46 name)
  | cons fileName parts =>
    have same : name = dotted fileName parts := by
      rw [dotted_eq, ← split]
      exact (intercalate_splitOn 46).symm
    rw [same, slash_mem_dotted] at noSlash
    refine ⟨fileName, parts, fun part mem => ⟨?_, fun slash => noSlash ⟨part, mem, slash⟩⟩, same⟩
    exact split ▸ Path.not_mem_splitOn 46 name part <| split ▸ mem

lemma plain_dotted (texts : Texts (fileName :: parts))
    (long : 3 ≤ (dotted fileName parts).length) :
    Plain (dotted fileName parts) := by
  refine ⟨?_, ?_, ?_, fun slash => ?_⟩
  · exact fun same => absurd (same ▸ long) (by decide)
  · exact fun same => absurd (same ▸ long) (by decide)
  · exact fun same => absurd (same ▸ long) (by decide)
  · obtain ⟨part, mem, slash⟩ := slash_mem_dotted.mp slash
    exact (texts part mem).2 slash

end Parts

lemma hasSuffix_iff {text ending : Bytes} : hasSuffix text ending ↔ ending <:+ text :=
  isSuffixOf_iff_suffix

/-! ### Places -/

@[ext]
structure Place where
  front : List Bytes
  fileName : Bytes
  parts : List Bytes
  plain : ∀ name ∈ front, Plain name
  texts : Texts (fileName :: parts)
  isPlain : Plain (dotted fileName parts)

namespace Place

variable {dir : Bytes} {place place' : Place}

def names (place : Place) : List Bytes := place.front ++ [dotted place.fileName place.parts]

def under (dir : Bytes) (place : Place) : Bytes := Path.under dir place.names

/-- The file is not directly in the root of the file system, nor a bare name. -/
def Inside (dir : Bytes) (place : Place) : Prop :=
  Path.names (Path.clean dir) ++ place.front ≠ []

lemma exists_under {below : List Bytes} (some : below ≠ []) (plain : ∀ name ∈ below, Plain name) :
    ∃ place : Place, below = place.names := by
  obtain ⟨front, name, rfl⟩ := (eq_nil_or_concat below).resolve_left some
  simp only [concat_eq_append, mem_append, mem_singleton] at plain
  obtain ⟨fileName, parts, texts, rfl⟩ := exists_dotted (plain name (Or.inr rfl)).no_slash
  exact ⟨⟨front, fileName, parts, fun other mem => plain other (Or.inl mem), texts,
    plain _ (Or.inr rfl)⟩, concat_eq_append⟩

def renamed (place : Place) {fileName : Bytes} {stem ends : List Bytes}
    (texts : Texts (fileName :: stem)) (texts' : Texts ends) (long : 3 ≤ (dotted [] ends).length) :
    Place where
  front := place.front
  fileName := fileName
  parts := stem ++ ends
  plain := place.plain
  texts := texts.append texts'
  isPlain := by
    refine plain_dotted (texts.append texts') ?_
    rw [dotted_append, length_append]
    omega

def mapped (place : Place) : Place :=
  place.renamed place.texts (show Texts [str "map"] by decide) (by decide)

lemma plain_names (place : Place) : ∀ name ∈ place.names, Plain name :=
  Path.plain_append place.plain place.isPlain

lemma under_inj (same : place.under dir = place'.under dir) : place = place' := by
  have split := congrArg Path.names same
  rw [under, under, Path.under, Path.under,
    Path.names_located (Path.settled_under dir place.plain_names),
    Path.names_located (Path.settled_under dir place'.plain_names)] at split
  obtain ⟨front, last⟩ := append_inj' (append_cancel_left split) rfl
  obtain ⟨fileName, parts⟩ := dotted_inj place.texts place'.texts (head_eq_of_cons_eq last)
  exact Place.ext front fileName parts

lemma dir_under (dir : Bytes) (place : Place) :
    Path.dir (place.under dir) = Path.under dir place.front :=
  Path.dir_under dir place.plain place.isPlain

lemma join_of_text {info : PathInfo} (parent : info.dirName = Path.under dir place.front)
    (text : info.fileName ++ info.exts.flatten = dotted place.fileName place.parts) :
    info.join = place.under dir := by
  rw [PathInfo.join, parent, text]
  exact Path.join_name place.plain dir place.isPlain

lemma makeRelative_of_text {toDir : Bytes} {info : PathInfo}
    (parent : info.dirName = Path.under dir place.front)
    (text : info.fileName ++ info.exts.flatten = dotted place.fileName place.parts) :
    makeRelative dir toDir info = place.under toDir := by
  rw [makeRelative, join_of_text parent text, under, Path.rel_under dir (by simp [names])
    place.plain_names]
  exact Path.join_under toDir (by simp [names]) place.plain_names

/-- What stands in front of the names of the files of one directory. -/
lemma exists_lead (dir : Bytes) {front : List Bytes} (plain : ∀ name ∈ front, Plain name) :
    ∃ lead : Bytes, (lead = [] ∨ ∃ before, lead = before ++ [47]) ∧
      ∀ name, Plain name → Path.under dir (front ++ [name]) = lead ++ name := by
  by_cases none : Path.names (Path.clean dir) ++ front = []
  · obtain ⟨noNames, rfl⟩ := append_eq_nil_iff.mp none
    refine ⟨if Path.isAbs dir then [47] else [], ?_, fun name _ => ?_⟩
    · split
      · exact Or.inr ⟨[], rfl⟩
      · exact Or.inl rfl
    · rw [Path.under, noNames]
      cases Path.isAbs dir <;> simp [Path.located, Path.joinSlash]
  · refine ⟨Path.under dir front ++ [47], Or.inr ⟨_, rfl⟩, fun name isPlain => ?_⟩
    rw [Path.under, ← append_assoc,
      Path.located_append (Path.settled_under dir plain) none isPlain, append_assoc]
    rfl

lemma mapped_under (place : Place) (dir : Bytes) :
    place.mapped.under dir = place.under dir ++ str ".map" := by
  obtain ⟨lead, -, leads⟩ := exists_lead dir place.plain
  have mapped := leads _ place.mapped.isPlain
  rw [under, names, under, names, leads _ place.isPlain, append_assoc]
  refine mapped.trans ?_
  rw [Place.mapped, renamed, dotted_append]
  simp [dotted, str]

lemma hasSuffix_under (place : Place) (dir : Bytes) {ends : List Bytes} (texts : Texts ends) :
    hasSuffix (place.under dir) (dotted [] ends) ↔ ends <:+ place.parts := by
  obtain ⟨lead, slash, leads⟩ := exists_lead dir place.plain
  rw [hasSuffix_iff, under, names, leads _ place.isPlain]
  constructor
  · intro suffix
    have noSlash : (47 : UInt8) ∉ dotted [] ends := fun slash => by
      obtain ⟨part, mem, slash⟩ := slash_mem_dotted.mp slash
      rcases mem_cons.mp mem with rfl | mem
      · nomatch slash
      · exact (texts part mem).2 slash
    have within : dotted [] ends <:+ dotted place.fileName place.parts := by
      rcases slash with rfl | ⟨before, rfl⟩
      · exact suffix
      · rw [append_assoc] at suffix
        rcases suffix_or_suffix_of_suffix suffix (suffix_append before _) with within | beyond
        · refine (suffix_cons_iff.mp within).resolve_left fun same => ?_
          simp [same] at noSlash
        · exact absurd (beyond.subset (by simp)) noSlash
    obtain ⟨front, same⟩ := within
    have outside : (47 : UInt8) ∉ front := fun slash =>
      place.isPlain.no_slash (same ▸ mem_append_left _ slash)
    obtain ⟨fileName, stem, texts', rfl⟩ := exists_dotted outside
    rw [← dotted_append] at same
    exact ⟨stem, (dotted_inj (texts'.append texts) place.texts same).2⟩
  · rintro ⟨stem, same⟩
    rw [← same, dotted_append]
    exact ⟨lead ++ dotted place.fileName stem, by simp⟩

lemma pathInfoFrom_under (inside : place.Inside dir) : pathInfoFrom (place.under dir) =
    ⟨Path.under dir place.front, place.fileName, place.parts.map (46 :: ·)⟩ := by
  have whole : place.under dir =
      Path.under dir place.front ++ 47 :: dotted place.fileName place.parts := by
    rw [under, names, Path.under, ← append_assoc]
    exact Path.located_append (Path.settled_under dir place.plain) inside place.isPlain
  have rest : (place.under dir).drop ((Path.under dir place.front).length + 1) =
      dotted place.fileName place.parts := by
    rw [whole, drop_append, drop_eq_nil_of_le (by omega)]
    simp
  rw [pathInfoFrom, dir_under, rest, splitOn_dotted place.texts]

end Place

/-! ### Outputs -/

lemma isCompiled_iff {dirName fileName : Bytes} {parts : List Bytes} :
    PathInfo.isCompiled ⟨dirName, fileName, parts.map (46 :: ·)⟩ ↔
      [str "ts"] <:+ parts ∧ ¬ [str "d", str "ts"] <:+ parts ∨
      [str "tsx"] <:+ parts ∧ ¬ [str "d", str "tsx"] <:+ parts := by
  obtain ⟨rev, rfl⟩ : ∃ rev : List Bytes, parts = rev.reverse := ⟨_, (reverse_reverse _).symm⟩
  simp only [← reverse_prefix, reverse_reverse]
  match rev with
  | [] => simp [PathInfo.isCompiled, PathInfo.isTs, PathInfo.extsPeek, tsExt, tsxExt, str]
  | [last] =>
    simp [PathInfo.isCompiled, PathInfo.isTs, PathInfo.extsPeek, tsExt, tsxExt, dExt, str]
    grind
  | last :: before :: rest =>
    simp [PathInfo.isCompiled, PathInfo.isTs, PathInfo.extsPeek, tsExt, tsxExt, dExt, str]
    grind

def PathTranslator.outputInfo (trans : PathTranslator) (info : PathInfo) : PathInfo :=
  if info.isCompiled then
    { info.popExt with
      fileName := if info.fileName = indexName then initName else info.fileName }.pushExt
      trans.getLuauExt
  else info

def PathInfo.declarationInfo (info : PathInfo) : PathInfo :=
  if info.isCompiled then info.popExt.pushExt dtsExt else info

structure Script (trans : PathTranslator) (source output declared : Place) : Prop where
  front : output.front = source.front
  front' : declared.front = source.front
  named : output.fileName = if source.fileName = indexName then initName else source.fileName
  named' : declared.fileName = source.fileName
  parts : ∃ stem part luau, source.parts = stem ++ [part] ∧ output.parts = stem ++ [luau] ∧
    declared.parts = stem ++ [str "d", str "ts"] ∧ (part = str "ts" ∨ part = str "tsx") ∧
    trans.getLuauExt = 46 :: luau ∧ (luau = str "luau" ∨ luau = str "lua")

lemma exists_script (trans : PathTranslator) {source : Place} {dirName : Bytes}
    (compiled : PathInfo.isCompiled ⟨dirName, source.fileName, source.parts.map (46 :: ·)⟩) :
    ∃ output declared, Script trans source output declared := by
  obtain ⟨stem, part, parts, script⟩ : ∃ stem part, source.parts = stem ++ [part] ∧
      (part = str "ts" ∨ part = str "tsx") := by
    rcases isCompiled_iff.mp compiled with ⟨⟨stem, same⟩, _⟩ | ⟨⟨stem, same⟩, _⟩
    · exact ⟨stem, _, same.symm, Or.inl rfl⟩
    · exact ⟨stem, _, same.symm, Or.inr rfl⟩
  obtain ⟨luau, isLuau, extension⟩ : ∃ luau, trans.getLuauExt = 46 :: luau ∧
      (luau = str "luau" ∨ luau = str "lua") := by
    rw [PathTranslator.getLuauExt]
    split
    · exact ⟨str "luau", rfl, Or.inl rfl⟩
    · exact ⟨str "lua", rfl, Or.inr rfl⟩
  have texts := source.texts
  rw [parts, ← cons_append] at texts
  have stemTexts : Texts (source.fileName :: stem) :=
    fun text mem => texts text (mem_append_left _ mem)
  have renamed : Texts
      ((if source.fileName = indexName then initName else source.fileName) :: stem) := by
    refine forall_mem_cons.mpr ⟨?_, (forall_mem_cons.mp stemTexts).2⟩
    split
    · decide
    · exact stemTexts _ (by simp)
  have luauTexts : Texts [luau] ∧ 3 ≤ (dotted [] [luau]).length := by
    rcases extension with rfl | rfl <;> decide
  exact ⟨source.renamed renamed luauTexts.1 luauTexts.2,
    source.renamed stemTexts (show Texts [str "d", str "ts"] by decide) (by decide), rfl, rfl, rfl,
    rfl, stem, part, luau, parts, rfl, rfl, script, isLuau, extension⟩

section Translator

variable {trans : PathTranslator} {source output declared place : Place}

/-- The paths of the outputs in the output directory and beside the source. -/
structure Outputs (trans : PathTranslator) (source output declared : Place) : Prop where
  isOutput : trans.getOutputPath (source.under trans.rootDir) = output.under trans.outDir
  isDeclared : trans.getOutputDeclarationPath (source.under trans.rootDir) =
    declared.under trans.outDir
  beside : (trans.outputInfo (pathInfoFrom (source.under trans.rootDir))).join =
    output.under trans.rootDir

lemma outputs_of_text {info info' : PathInfo}
    (same : trans.outputInfo (pathInfoFrom (source.under trans.rootDir)) = info)
    (same' : (pathInfoFrom (source.under trans.rootDir)).declarationInfo = info')
    (parent : info.dirName = Path.under trans.rootDir output.front)
    (parent' : info'.dirName = Path.under trans.rootDir declared.front)
    (text : info.fileName ++ info.exts.flatten = dotted output.fileName output.parts)
    (text' : info'.fileName ++ info'.exts.flatten = dotted declared.fileName declared.parts) :
    Outputs trans source output declared := by
  subst same same'
  exact ⟨Place.makeRelative_of_text parent text, Place.makeRelative_of_text parent' text',
    Place.join_of_text parent text⟩

lemma exists_outputs (inside : source.Inside trans.rootDir) : ∃ output declared,
    Outputs trans source output declared ∧
      if (pathInfoFrom (source.under trans.rootDir)).isCompiled then
        Script trans source output declared
      else output = source ∧ declared = source := by
  have info := Place.pathInfoFrom_under inside
  by_cases compiled : (pathInfoFrom (source.under trans.rootDir)).isCompiled
  · have toOutput : trans.outputInfo _ = _ := if_pos compiled
    have toDeclared : PathInfo.declarationInfo _ = _ := if_pos compiled
    rw [info] at compiled
    obtain ⟨output, declared, script⟩ := exists_script trans compiled
    refine ⟨output, declared, ?_, by rwa [info, if_pos compiled]⟩
    obtain ⟨front, front', named, named', stem, part, luau, parts, parts', parts'', -, isLuau, -⟩ :=
      script
    refine outputs_of_text toOutput toDeclared ?_ ?_ ?_ ?_ <;>
      simp [PathInfo.popExt, PathInfo.pushExt, dotted, dtsExt, str, *]
  · exact ⟨source, source, outputs_of_text (if_neg compiled) (if_neg compiled)
      (by rw [info]) (by rw [info]) (by rw [info]; rfl) (by rw [info]; rfl),
      by rw [if_neg compiled]; exact ⟨rfl, rfl⟩⟩

/-! ### Inputs -/

lemma extsPeek_zero (dirName fileName part : Bytes) (stem : List Bytes) :
    PathInfo.extsPeek ⟨dirName, fileName, (stem ++ [part]).map (46 :: ·)⟩ 0 = 46 :: part := by
  simp [PathInfo.extsPeek]

lemma makeRelative_place (place : Place) : makeRelative trans.outDir trans.rootDir
      ⟨Path.under trans.outDir place.front, place.fileName, place.parts.map (46 :: ·)⟩ =
    place.under trans.rootDir :=
  Place.makeRelative_of_text rfl rfl

lemma mem_getInputPaths (inside : place.Inside trans.outDir) :
    place.under trans.rootDir ∈ trans.getInputPaths (place.under trans.outDir) := by
  rw [PathTranslator.getInputPaths, Place.pathInfoFrom_under inside, ← makeRelative_place]
  simp

lemma Script.mem_output (script : Script trans source output declared)
    (inside : output.Inside trans.outDir) :
    source.under trans.rootDir ∈ trans.getInputPaths (output.under trans.outDir) := by
  obtain ⟨front, -, named, -, stem, part, luau, parts, parts', -, isScript, isLuau, -⟩ := script
  have notIndex : output.fileName ≠ indexName := by
    rw [named]
    split
    · decide
    · next other => exact other
  rw [PathTranslator.getInputPaths, Place.pathInfoFrom_under inside, ← makeRelative_place,
    parts, parts', front]
  dsimp only
  rw [extsPeek_zero, if_pos ⟨isLuau.symm, notIndex⟩]
  by_cases index : source.fileName = indexName
  · -- An index is found behind its new name.
    rw [if_pos index] at named
    rw [named, index, if_pos rfl]
    rcases isScript with rfl | rfl <;> simp [PathInfo.popExt, PathInfo.pushExt, tsExt, tsxExt, str]
  · rw [if_neg index] at named
    rw [named]
    rcases isScript with rfl | rfl <;> simp [PathInfo.popExt, PathInfo.pushExt, tsExt, tsxExt, str]

lemma Script.mem_declared (script : Script trans source output declared)
    (declaration : trans.declaration) (inside : declared.Inside trans.outDir) :
    source.under trans.rootDir ∈ trans.getInputPaths (declared.under trans.outDir) := by
  obtain ⟨-, front, -, named, stem, part, luau, parts, -, parts', isScript, -⟩ := script
  rw [PathTranslator.getInputPaths, Place.pathInfoFrom_under inside, ← makeRelative_place,
    parts, parts', front, named]
  dsimp only
  rw [if_pos (c := trans.declaration ∧ _) ⟨declaration, by
    simp [PathInfo.isTs, PathInfo.extsPeek, tsExt, dExt, str]⟩]
  rcases isScript with rfl | rfl <;> simp [PathInfo.popExt, PathInfo.pushExt, tsExt, tsxExt, str]

end Translator

end Rotor.Rojo
