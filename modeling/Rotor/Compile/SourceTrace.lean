import Mathlib.Data.List.AList
import Mathlib.Data.List.Induction
import Rotor.Lib.Utf8
import Rotor.Transformer.MappingsDecoder

/-!
Positions in a text that a transformer printed, and in the one it was printed from.

A trace ties lines and columns of the printed text to those of the original one, with columns in
UTF-16 units as a source map has them, while a diagnostic has a byte offset.  A diagnostic is
moved by going from its offset to a line and a column, through the trace, and back to an offset.
-/

namespace Rotor.Compile.SourceTrace

open List Lib.Utf8

structure TraceMapping where
  generatedLine : Int
  generatedColumn : Int
  sourceLine : Int
  sourceColumn : Int

structure SourceTraceMap where
  text : Bytes
  mappings : List TraceMapping

structure DiagnosticInfo where
  fileName : Bytes
  offset : Int
  len : Int
  line : Int
  col : Int
deriving DecidableEq

/-! ### Offsets and columns -/

def units (rune : Nat × Nat) : Nat := if 0xFFFF < rune.1 then 2 else 1

/-- The loop of `utf16Position` over the bytes before the offset: the index, the line and where
the line starts. -/
def countLines (before : Bytes) : Nat × Nat × Nat :=
  before.foldl (fun (i, line, lineStart) (byte : UInt8) =>
    if byte = 10 then (i + 1, line + 1, i + 1) else (i + 1, line, lineStart)) (0, 0, 0)

def utf16Position (text : Bytes) (offset : Int) : Option (Int × Int) :=
  if offset < 0 ∨ text.length < offset then none
  else
    let before := text.take offset.toNat
    let (_, line, lineStart) := countLines before
    some (line, ((runes (before.drop lineStart)).map units).sum)

/-- The first loop of `byteOffsetOf`: where a line starts. -/
def lineOffset (text : Bytes) : Nat → Option Nat
  | 0 => some 0
  | line + 1 => do
    let offset ← lineOffset text line
    let next ← (text.drop offset).idxOf? 10
    return offset + next + 1

/-- The second loop, over the characters from an offset on. -/
def columnOffset (text : Bytes) (column : Int) : Nat → Nat → List (Nat × Nat) → Option Nat
  | units', _, [] => if column ≤ units' then some text.length else none
  | units', offset, rune :: rest =>
    if column ≤ units' then some offset
    else if rune.1 = 10 then none
    else columnOffset text column (units' + units rune) (offset + rune.2) rest

def byteOffsetOf (text : Bytes) (line column : Int) : Option Nat :=
  if line < 0 ∨ column < 0 then none
  else do
    let offset ← lineOffset text line.toNat
    columnOffset text column 0 offset (runes (text.drop offset))

/-! ### Diagnostics -/

/-- The loop of `sort.Search`. -/
def search (holds : Nat → Bool) : Nat → Nat → Nat → Nat
  | 0, i, _ => i
  | fuel + 1, i, j =>
    if i < j then
      let h := (i + j) / 2
      if holds h then search holds fuel i h else search holds fuel (h + 1) j
    else i

def TraceMapping.behind (mapping : TraceMapping) (line column : Int) : Bool :=
  mapping.generatedLine > line || mapping.generatedLine == line && mapping.generatedColumn > column

def SourceTraceMap.originalPosition (trace : SourceTraceMap) (line column : Int) :
    Option (Int × Int) :=
  let count := trace.mappings.length
  match search (fun index => (trace.mappings[index]?).any (·.behind line column)) count 0 count with
  | 0 => none
  | index + 1 =>
    trace.mappings[index]?.map fun mapping => (mapping.sourceLine, mapping.sourceColumn)

def lineColIn (source : Bytes) (offset : Int) : Int × Int :=
  if offset < 0 ∨ source.length < offset then (0, 0)
  else (source.take offset.toNat).foldl
    (fun (line, col) (byte : UInt8) => if byte = 10 then (line + 1, 1) else (line, col + 1)) (1, 1)

/-- The diagnostic in the original text; `none` leaves it where it is. -/
def DiagnosticInfo.moved (info : DiagnosticInfo) (trace : SourceTraceMap) (generated : Bytes) :
    Option DiagnosticInfo := do
  let (line, column) ← utf16Position generated info.offset
  let (line, column) ← trace.originalPosition line column
  let offset ← byteOffsetOf trace.text line column
  let (line, col) := lineColIn trace.text offset
  let remaining : Int := trace.text.length - offset
  let len := if info.len > remaining then remaining else info.len
  return { info with offset, line, col, len }

def remap (normalizeSourceFilePath : Bytes → Bytes) (traces : AList fun _ : Bytes => SourceTraceMap)
    (info : DiagnosticInfo) (generated : Bytes) : DiagnosticInfo :=
  if traces.entries.length = 0 ∨ info.fileName = [] then info
  else match traces.lookup (normalizeSourceFilePath info.fileName) with
    | none => info
    | some trace => (info.moved trace generated).getD info

variable {text before back : Bytes} {line offset : Nat}

lemma idxOf?_append (notMem : 10 ∉ before) :
    (before ++ 10 :: back).idxOf? 10 = some before.length := by
  induction before with
  | nil => rfl
  | cons byte before ih =>
    rw [mem_cons, not_or] at notMem
    simp [List.idxOf?_cons, Ne.symm notMem.1, ih notMem.2]

/-- The text before an offset is whole lines and the start of one; both loops find where that one
starts. -/
theorem countLines_spec (before : Bytes) : ∃ front current line,
    before = front ++ current ∧ 10 ∉ current ∧ (front = [] ∨ ∃ lines, front = lines ++ [10]) ∧
      countLines before = (before.length, line, front.length) ∧
      ∀ back, lineOffset (before ++ back) line = some front.length := by
  induction before using List.reverseRecOn with
  | nil => exact ⟨[], [], 0, rfl, by simp, .inl rfl, rfl, fun _ => rfl⟩
  | append_singleton before byte ih =>
    obtain ⟨front, current, line, rfl, inLine, whole, counted, found⟩ := ih
    have step : countLines (front ++ current ++ [byte]) =
        let i := (front ++ current ++ [byte]).length
        if byte = 10 then (i, line + 1, i) else (i, line, front.length) := by
      rw [countLines, foldl_append, ← countLines, counted]
      simp only [length_append, length_singleton]
      rfl
    by_cases isBreak : byte = 10
    · subst isBreak
      refine ⟨front ++ current ++ [10], [], line + 1, (append_nil _).symm, by simp,
        .inr ⟨_, rfl⟩, step, fun back => ?_⟩
      rw [lineOffset, append_assoc _ [10], found]
      simp [idxOf?_append inLine]
      omega
    · refine ⟨front, current ++ [byte], line, append_assoc ..,
        by simp [inLine, Ne.symm isBreak], whole, step.trans (if_neg isBreak), fun back => ?_⟩
      rw [append_assoc _ [byte], found]

lemma runes_of_lines {front current : Bytes} (whole : front = [] ∨ ∃ lines, front = lines ++ [10])
    (between : Between (front ++ current) back) :
    runes (current ++ back) = runes current ++ runes back := by
  have split := between.runes_append
  obtain rfl | ⟨lines, rfl⟩ := whole
  · exact split
  · have ascii : (10 : UInt8).toNat < 0x80 := by decide
    simp only [append_assoc, runes_append_ascii ascii, append_cancel_left_eq, cons_append] at split
    exact tail_eq_of_cons_eq split

lemma columnOffset_append (text : Bytes) {runes : List (Nat × Nat)} (rest : List (Nat × Nat))
    (inLine : ∀ rune ∈ runes, rune.1 ≠ 10) (passed offset : Nat) :
    columnOffset text (passed + (runes.map units).sum : Nat) passed offset (runes ++ rest) =
      columnOffset text (passed + (runes.map units).sum : Nat) (passed + (runes.map units).sum)
        (offset + (runes.map Prod.snd).sum) rest := by
  induction runes generalizing passed offset with
  | nil => rfl
  | cons rune runes ih =>
    rw [forall_mem_cons] at inLine
    have pos : 0 < units rune := by
      rw [units]
      split <;> simp
    simp only [map_cons, sum_cons, cons_append, ← Nat.add_assoc]
    rw [columnOffset, if_neg (by omega), if_neg inLine.1, ih inLine.2]

lemma columnOffset_column {rest : List (Nat × Nat)} {column : Nat}
    (atEnd : rest = [] → offset = text.length) :
    columnOffset text column column offset rest = some offset := by
  cases rest with
  | nil => rw [columnOffset, if_pos (Int.le_refl _), atEnd rfl]
  | cons rune rest => rw [columnOffset, if_pos (Int.le_refl _)]

lemma byteOffsetOf_utf16Position (between : Between before back) :
    (utf16Position (before ++ back) before.length).bind
      (fun position => byteOffsetOf (before ++ back) position.1 position.2) =
        some before.length := by
  obtain ⟨front, current, line, rfl, inLine, whole, counted, found⟩ := countLines_spec before
  have column : utf16Position (front ++ current ++ back) (front ++ current).length =
      some ((line : Int), (((runes current).map units).sum : Int)) := by
    have inside : ¬ (((front ++ current).length : Int) < 0 ∨
        ((front ++ current ++ back).length : Int) < (front ++ current).length) := by
      simp only [length_append]
      omega
    simp only [utf16Position, if_neg inside, Int.toNat_natCast, take_left, counted, drop_left]
  have scanned := columnOffset_append (front ++ current ++ back) (runes back)
    (runes_ne_ascii (by decide) inLine) 0 front.length
  rw [Nat.zero_add, sum_width, columnOffset_column ?_] at scanned
  · rw [column, Option.bind_some, byteOffsetOf, if_neg (by omega), Int.toNat_natCast, found back]
    simp only [Option.bind_eq_bind, Option.bind_some, append_assoc, drop_left]
    rw [runes_of_lines whole between, ← append_assoc, scanned, length_append]
  · intro atEnd
    obtain rfl : back = [] := by
      cases back with
      | nil => rfl
      | cons first rest => simp [runes_cons] at atEnd
    simp

/-- The line and the column of an offset, both counted from one. -/
def lineCol (text : Bytes) (offset : Nat) : Int × Int :=
  let before := text.take offset
  (before.count 10 + 1, (before.reverse.takeWhile (· ≠ 10)).length + 1)

lemma lineColIn_eq (inside : offset ≤ text.length) :
    lineColIn text offset = lineCol text offset := by
  rw [lineColIn, if_neg (by omega), lineCol, Int.toNat_natCast]
  induction text.take offset using List.reverseRecOn with
  | nil => rfl
  | append_singleton before byte ih =>
    rw [foldl_append, ih]
    by_cases isBreak : byte = 10
    · simp [isBreak]
    · simp [isBreak]

lemma lineOffset_le (found : lineOffset text line = some offset) : offset ≤ text.length := by
  cases line with
  | zero => exact Option.some.inj found ▸ Nat.zero_le _
  | succ line =>
    simp only [lineOffset, Option.bind_eq_bind, Option.bind_eq_some_iff, Option.pure_def,
      Option.some.injEq, List.idxOf?_eq_some_iff, length_drop] at found
    obtain ⟨start, _, next, ⟨inside, _⟩, rfl⟩ := found
    omega

lemma columnOffset_le {column : Int} {rest : List (Nat × Nat)} {passed start : Nat}
    (room : start + (rest.map Prod.snd).sum = text.length)
    (found : columnOffset text column passed start rest = some offset) :
    offset ≤ text.length := by
  induction rest generalizing passed start with
  | nil =>
    rw [columnOffset, Option.ite_none_right_eq_some, Option.some.injEq] at found
    exact found.2 ▸ Nat.le_refl _
  | cons rune rest ih =>
    rw [map_cons, sum_cons, ← Nat.add_assoc] at room
    rw [columnOffset] at found
    split at found
    · cases found
      omega
    · exact ih room (Option.ite_none_left_eq_some.mp found).2

lemma byteOffsetOf_le {line column : Int} (found : byteOffsetOf text line column = some offset) :
    offset ≤ text.length := by
  rw [byteOffsetOf, Option.ite_none_left_eq_some] at found
  obtain ⟨start, isStart, scanned⟩ := Option.bind_eq_some_iff.mp found.2
  have inside := lineOffset_le isStart
  exact columnOffset_le (by rw [sum_width, length_drop]; omega) scanned

/-- A moved diagnostic lies in the original text, with the line and the column of its offset. -/
theorem DiagnosticInfo.moved_inside {info moved : DiagnosticInfo} {trace : SourceTraceMap}
    {generated : Bytes} (moves : info.moved trace generated = some moved) :
    0 ≤ moved.offset ∧ moved.offset + moved.len ≤ trace.text.length ∧
      (moved.line, moved.col) = lineCol trace.text moved.offset.toNat := by
  simp only [DiagnosticInfo.moved, Option.bind_eq_bind, Option.bind_eq_some_iff, Option.pure_def,
    Option.some.injEq] at moves
  obtain ⟨position, _, original, _, offset, isOffset, rfl⟩ := moves
  have inside := byteOffsetOf_le isOffset
  refine ⟨Int.natCast_nonneg _, ?_, lineColIn_eq inside⟩
  dsimp only
  split <;> omega

theorem positions_survive : (∀ before back, Between before back →
      (utf16Position (before ++ back) before.length).bind
        (fun position => byteOffsetOf (before ++ back) position.1 position.2) =
          some before.length) ∧
    ∀ normalizeSourceFilePath traces info generated,
      let moved := remap normalizeSourceFilePath traces info generated
      moved = info ∨ ∃ trace ∈ traces.lookup (normalizeSourceFilePath info.fileName),
        0 ≤ moved.offset ∧ moved.offset + moved.len ≤ trace.text.length ∧
          (moved.line, moved.col) = lineCol trace.text moved.offset.toNat := by
  refine ⟨fun _ _ => byteOffsetOf_utf16Position, fun normalize traces info generated => ?_⟩
  dsimp only
  rw [remap]
  split
  · exact .inl rfl
  · split
    · exact .inl rfl
    · rename_i trace found
      cases moves : info.moved trace generated with
      | none => exact .inl rfl
      | some moved => exact .inr ⟨trace, found, DiagnosticInfo.moved_inside moves⟩

/-- A line break and a character of four bytes, which is two units. -/
theorem positions_survive_surrogates : Between [10, 0xF0, 0x9F, 0x98, 0x80] [98] ∧
      (utf16Position [10, 0xF0, 0x9F, 0x98, 0x80, 98] 5).bind
        (fun position => byteOffsetOf [10, 0xF0, 0x9F, 0x98, 0x80, 98] position.1 position.2) =
          some 5 := by
  have between : Between [10, 0xF0, 0x9F, 0x98, 0x80] [98] :=
    .next rfl (by decide) (.next rfl (by decide) (.start _))
  exact ⟨between, positions_survive.1 _ _ between⟩

/-! ### Source maps -/

open Transformer.SourceMap

/-- A mapping of the Luau source map, with its source moved to the original text. -/
def SourceTraceMap.emitted (trace : SourceTraceMap) (mapping : Decoded) : EmittedMapping :=
  ⟨mapping.generatedLine, mapping.generatedColumn,
    mapping.original.bind fun (_, line, column) => trace.originalPosition line column⟩

/-- From the text of the mappings to that of the new ones; `none` is an error of the decoder or an
encoder that is still running. -/
def rewriteSourceMapWithTrace (fuel : Nat) (trace : SourceTraceMap) (mappings : Bytes) :
    Option Bytes := do
  let maps ← decodeMappings mappings
  encodeEmittedMappings fuel (maps.map trace.emitted)

def SourceTraceMap.lastAtOrBefore (trace : SourceTraceMap) (line column : Int) :
    Option TraceMapping :=
  (trace.mappings.filter fun mapping => !mapping.behind line column).getLast?

/-- A mapping with the source of the last mapping of the trace at or before its own. -/
def SourceTraceMap.composed (trace : SourceTraceMap) (mapping : Decoded) : Decoded :=
  ⟨mapping.generatedLine, mapping.generatedColumn, mapping.original.bind fun (_, line, column) =>
    (trace.lastAtOrBefore line column).map fun found => (0, found.sourceLine, found.sourceColumn),
    none⟩

lemma search_eq {holds : Nat → Bool} {first stop : Nat}
    (step : ∀ k < stop, holds k = decide (first ≤ k)) {fuel i j : Nat} (enough : j ≤ i + fuel)
    (low : i ≤ first) (high : first ≤ j) (inside : j ≤ stop) : search holds fuel i j = first := by
  induction fuel generalizing i j with
  | zero =>
    rw [search]
    omega
  | succ fuel ih =>
    rw [search]
    split
    · dsimp only
      rw [step _ (by omega)]
      split <;> rename_i here <;> rw [decide_eq_true_iff] at here
      · exact ih (by omega) low here (by omega)
      · exact ih (by omega) (by omega) high inside
    · omega

def TraceMapping.Before (left right : TraceMapping) : Prop :=
  left.generatedLine < right.generatedLine ∨
    left.generatedLine = right.generatedLine ∧ left.generatedColumn ≤ right.generatedColumn

lemma TraceMapping.Before.behind {left right : TraceMapping} (before : left.Before right)
    {line column : Int} (behind : left.behind line column) :
    right.behind line column := by
  rw [TraceMapping.Before] at before
  simp only [TraceMapping.behind, Bool.or_eq_true, Bool.and_eq_true, decide_eq_true_eq,
    beq_iff_eq] at behind ⊢
  omega

lemma originalPosition_eq {trace : SourceTraceMap}
    (sorted : trace.mappings.Pairwise TraceMapping.Before) (line column : Int) :
    trace.originalPosition line column = (trace.lastAtOrBefore line column).map
      fun mapping => (mapping.sourceLine, mapping.sourceColumn) := by
  obtain ⟨front, back, whole, before, behind⟩ : ∃ front back, trace.mappings = front ++ back ∧
      (∀ mapping ∈ front, mapping.behind line column = false) ∧
      ∀ mapping ∈ back, mapping.behind line column := by
    generalize trace.mappings = maps at sorted
    induction maps with
    | nil => exact ⟨[], [], rfl, nofun, nofun⟩
    | cons mapping maps ih =>
      obtain ⟨first, others⟩ := pairwise_cons.mp sorted
      cases isBehind : mapping.behind line column with
      | true =>
        refine ⟨[], _, rfl, nofun, forall_mem_cons.mpr ⟨isBehind, fun other mem => ?_⟩⟩
        exact (first other mem).behind isBehind
      | false =>
        obtain ⟨front, back, rfl, before, behind⟩ := ih others
        exact ⟨mapping :: front, back, rfl, forall_mem_cons.mpr ⟨isBehind, before⟩, behind⟩
  have found := @search_eq (fun index => (trace.mappings[index]?).any (·.behind line column))
    front.length trace.mappings.length ?_ trace.mappings.length 0 trace.mappings.length (by omega)
    (Nat.zero_le _) (by simp [whole]) (Nat.le_refl _)
  · rw [SourceTraceMap.originalPosition, SourceTraceMap.lastAtOrBefore, found, whole,
      filter_append, filter_eq_self.mpr (by simpa using before),
      filter_eq_nil_iff.mpr (by simpa using behind), append_nil]
    rcases eq_nil_or_concat front with rfl | ⟨front, last, rfl⟩
    · rfl
    · simp
  · intro k small
    rw [List.getElem?_eq_getElem small, Option.any_some]
    simp only [whole] at small ⊢
    by_cases here : front.length ≤ k
    · rw [getElem_append_right here, behind _ (getElem_mem _), decide_eq_true here]
    · have inside := Nat.lt_of_not_le here
      rw [getElem_append_left inside, before _ (getElem_mem _), decide_eq_false here]

/-- A position whose line and column are 32 bits wide, as those of a trace are. -/
def Small (position : Int × Int) : Prop :=
  (0 ≤ position.1 ∧ position.1 < 2 ^ 31) ∧ 0 ≤ position.2 ∧ position.2 < 2 ^ 31

lemma inRange_of_fit {maps : List Decoded} {d : MappingsDecoder} (fit : d.Fit maps) :
    ∀ mapping ∈ maps, mapping.generatedLine < 2 ^ 63 ∧
      0 ≤ mapping.generatedColumn ∧ mapping.generatedColumn < 2 ^ 63 := by
  induction maps generalizing d with
  | nil => nofun
  | cons mapping maps ih =>
    obtain ⟨reaches, fit⟩ := fit
    exact forall_mem_cons.mpr ⟨⟨reaches.generatedLine, reaches.generatedColumn.1⟩, ih fit⟩

section Composition

variable {trace : SourceTraceMap}
  (small : ∀ mapping ∈ trace.mappings, Small (mapping.sourceLine, mapping.sourceColumn))
include small

lemma emitted_small (mapping : Decoded) :
    ∀ position ∈ (trace.emitted mapping).source, Small position := by
  intro position found
  obtain ⟨⟨_, line, column⟩, -, found⟩ := Option.bind_eq_some_iff.mp found
  dsimp only at found
  rw [SourceTraceMap.originalPosition] at found
  split at found
  · nomatch found
  · obtain ⟨mapping, here, rfl⟩ := Option.map_eq_some_iff.mp found
    exact small mapping (mem_of_getElem? here)

lemma emittedFit_of_fit {maps : List Decoded} {d : MappingsDecoder} (fit : d.Fit maps)
    {last : SourceMapMapping} (lastSmall : Small (last.sourceLine, last.sourceColumn))
    (line : last.generatedLine = d.generatedLine)
    (column : last.generatedColumn = d.generatedCharacter) :
    EmittedFit last (maps.map trace.emitted) := by
  induction maps generalizing d last with
  | nil => trivial
  | cons mapping maps ih =>
    obtain ⟨reaches, fit⟩ := fit
    have behindSmall : Small (((trace.emitted mapping).behind last).sourceLine,
        ((trace.emitted mapping).behind last).sourceColumn) := by
      have sources := emitted_small small mapping
      rw [EmittedMapping.behind]
      generalize (trace.emitted mapping).source = source at sources
      cases source with
      | none => exact lastSmall
      | some position => exact sources position rfl
    have onLine : last.onLine mapping.generatedLine = ⟨(last.onLine mapping.generatedLine).1,
        if d.generatedLine < mapping.generatedLine then 0 else d.generatedCharacter,
        last.sourceLine, last.sourceColumn⟩ := by
      rw [SourceMapMapping.onLine, ← line, ← column]
      split <;> rfl
    refine ⟨?_, ih fit behindSmall rfl rfl⟩
    rw [show (trace.emitted mapping).generatedLine = mapping.generatedLine from rfl, onLine]
    simp only [Small] at lastSmall behindSmall
    refine ⟨reaches.generatedColumn.2, ?_, ?_⟩ <;> simp only [Fits] <;> omega

/-- A rewritten map has the mappings of the old one, each with the source of the last mapping of
the trace at or before its own, where the numbers of the old one fit. -/
theorem rewriteSourceMapWithTrace_composes
    (sorted : trace.mappings.Pairwise TraceMapping.Before) {mappings : Bytes} {maps : List Decoded}
    (read : decode mappings = some maps) (fit : MappingsDecoder.Fit {} maps) :
    ∃ fuel text, rewriteSourceMapWithTrace fuel trace mappings = some text ∧
      decode text = some (maps.map trace.composed) := by
  obtain ⟨ordered, decodes⟩ := decodeMappings_eq read
  obtain ⟨nonneg, ordered⟩ := pairwise_cons.mp ordered
  have emitted : ∀ mapping ∈ maps.map trace.emitted, mapping.InRange := by
    intro mapping mem
    obtain ⟨mapping, inside, rfl⟩ := mem_map.mp mem
    obtain ⟨line, column⟩ := inRange_of_fit fit mapping inside
    refine ⟨⟨nonneg _ (mem_map_of_mem inside), line⟩, column, fun position found => ?_⟩
    have := emitted_small small mapping position found
    simp only [Small] at this
    omega
  have same : (maps.map trace.emitted).map EmittedMapping.decoded = maps.map trace.composed := by
    rw [map_map]
    refine map_congr_left fun mapping _ => ?_
    simp only [Function.comp_apply, EmittedMapping.decoded, SourceTraceMap.emitted,
      SourceTraceMap.composed, originalPosition_eq sorted, Option.map_bind]
    cases mapping.original <;> simp [Function.comp_def]
  have encodes := (decode_encodeEmitted_iff emitted (by rw [map_map]; exact ordered)).mpr
    (emittedFit_of_fit small fit (by simp [Small]) rfl rfl)
  rw [same] at encodes
  simp only [rewriteSourceMapWithTrace, decodes fit]
  exact encodes

end Composition

theorem rewriteSourceMapWithTrace_moves : decode (str "AACQ,IAEH;;C") = some
        [⟨0, 0, some (0, 1, 8), none⟩, ⟨0, 4, some (0, 3, 5), none⟩, ⟨2, 1, none, none⟩] ∧
      ∃ fuel text, rewriteSourceMapWithTrace fuel ⟨[], [⟨2, 0, 7, 4⟩, ⟨3, 5, 9, 0⟩]⟩
          (str "AACQ,IAEH;;C") = some text ∧
        decode text = some
          [⟨0, 0, none, none⟩, ⟨0, 4, some (0, 9, 0), none⟩, ⟨2, 1, none, none⟩] := by
  have read : decode (str "AACQ,IAEH;;C") = some
      [⟨0, 0, some (0, 1, 8), none⟩, ⟨0, 4, some (0, 3, 5), none⟩, ⟨2, 1, none, none⟩] := by
    decide +kernel
  refine ⟨read, @rewriteSourceMapWithTrace_composes ⟨[], [⟨2, 0, 7, 4⟩, ⟨3, 5, 9, 0⟩]⟩ ?_ ?_ _ _
    read ?_⟩
  · simp [Small]
  · simp [TraceMapping.Before]
  · refine ⟨?_, ?_, ?_, trivial⟩ <;> constructor <;>
      simp [Near, Fits, MappingsDecoder.behind]

/-- A column of 2 ^ 62 is an even number of 64 bits, which the decoder takes for a negative one. -/
theorem rewriteSourceMapWithTrace_refuses :
    decode (str "ggggggggggggI") = some [⟨0, 2 ^ 62, none, none⟩] ∧
      ∀ fuel, rewriteSourceMapWithTrace fuel ⟨[], []⟩ (str "ggggggggggggI") = none := by
  have refused : decodeMappings (str "ggggggggggggI") = none := by decide +kernel
  refine ⟨by decide +kernel, fun fuel => ?_⟩
  rw [rewriteSourceMapWithTrace, refused]
  rfl

end Rotor.Compile.SourceTrace
