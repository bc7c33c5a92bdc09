import Rotor.Bytes
import Mathlib.Tactic.Ring

/-!
Source maps: the text of the mappings.

A mapping ties a position of the generated code to one of the source.  The mappings of a file are
written as one text: a semicolon for each line, a comma between the segments of a line, and in a
segment four numbers, each the difference to the one before it, in digits of five bits.  The
numbers of the program are 64 bits wide, which shows where a difference is doubled to make room
for its sign.  `decode` reads such a text by the rules of the format, for numbers of any size.
-/

namespace Rotor.Transformer.SourceMap

open List

variable {fuel : Nat} {bytes : Bytes} {diff : Int}

def base64VLQAlphabet : Bytes :=
  str "ABCDEFGHIJKLMNOPQRSTUVWXYZabcdefghijklmnopqrstuvwxyz0123456789+/"

structure SourceMapMapping where
  generatedLine : Int
  generatedColumn : Int
  sourceLine : Int
  sourceColumn : Int
deriving DecidableEq

/-! ### Writing -/

def int64 (value : Int) : Int := value.bmod (2 ^ 64)

/-- The loop of `appendBase64VLQ`, which does not end by itself on a negative value: `none` is a
loop that is still running after that many turns. -/
def appendDigits : Nat → Int → Option Bytes
  | 0, _ => none
  | fuel + 1, value =>
    let digit := value % 32
    let value := value / 32
    let digit := if 0 < value then digit + 32 else digit
    let byte := base64VLQAlphabet.getD digit.toNat 0
    if value = 0 then some [byte] else (appendDigits fuel value).map (byte :: ·)

def shifted (value : Int) : Int :=
  if value < 0 then int64 (int64 (-value) * 2) + 1 else int64 (value * 2)

def appendBase64VLQ (fuel : Nat) (value : Int) : Option Bytes := appendDigits fuel (shifted value)

/-- The segment of a mapping, behind one with these numbers. -/
def segment (fuel : Nat) (last mapping : SourceMapMapping) : Option Bytes := do
  let column ← appendBase64VLQ fuel (int64 (mapping.generatedColumn - last.generatedColumn))
  let source ← appendBase64VLQ fuel 0
  let line ← appendBase64VLQ fuel (int64 (mapping.sourceLine - last.sourceLine))
  let sourceColumn ← appendBase64VLQ fuel (int64 (mapping.sourceColumn - last.sourceColumn))
  return column ++ source ++ line ++ sourceColumn

/-- The last numbers, once the semicolons up to a line are written. -/
def SourceMapMapping.onLine (last : SourceMapMapping) (line : Int) : SourceMapMapping :=
  if last.generatedLine < line then { last with generatedLine := line, generatedColumn := 0 }
  else last

/-- The loop of `encodeSourceMapMappings`. -/
def encodeFrom (fuel : Nat) (last : SourceMapMapping) (firstMappingOnLine : Bool) :
    List SourceMapMapping → Option Bytes
  | [] => some []
  | mapping :: maps => do
    let lines := List.replicate (mapping.generatedLine - last.generatedLine).toNat 59
    let first := firstMappingOnLine || decide (last.generatedLine < mapping.generatedLine)
    let last := last.onLine mapping.generatedLine
    let written ← segment fuel last mapping
    let rest ← encodeFrom fuel { mapping with generatedLine := last.generatedLine } false maps
    return lines ++ (if first then [] else [44]) ++ written ++ rest

def encodeSourceMapMappings (fuel : Nat) (maps : List SourceMapMapping) : Option Bytes :=
  encodeFrom fuel ⟨0, 0, 0, 0⟩ true maps

/-- A mapping of a map that has been moved to another source, where it may have no source. -/
structure EmittedMapping where
  generatedLine : Int
  generatedColumn : Int
  source : Option (Int × Int)

/-- The numbers behind the segment of a mapping: without a source those of the source stay. -/
def EmittedMapping.behind (mapping : EmittedMapping) (last : SourceMapMapping) : SourceMapMapping :=
  let (line, column) := mapping.source.getD (last.sourceLine, last.sourceColumn)
  ⟨mapping.generatedLine, mapping.generatedColumn, line, column⟩

def EmittedMapping.segment (fuel : Nat) (last : SourceMapMapping) (mapping : EmittedMapping) :
    Option Bytes :=
  match mapping.source with
  | none => appendBase64VLQ fuel (int64 (mapping.generatedColumn - last.generatedColumn))
  | some _ => SourceMap.segment fuel last (mapping.behind last)

/-- The loop of `encodeEmittedMappings`. -/
def encodeEmittedFrom (fuel : Nat) (last : SourceMapMapping) (firstMappingOnLine : Bool) :
    List EmittedMapping → Option Bytes
  | [] => some []
  | mapping :: maps => do
    let lines := List.replicate (mapping.generatedLine - last.generatedLine).toNat 59
    let first := firstMappingOnLine || decide (last.generatedLine < mapping.generatedLine)
    let last := last.onLine mapping.generatedLine
    let written ← mapping.segment fuel last
    let rest ← encodeEmittedFrom fuel
      { mapping.behind last with generatedLine := last.generatedLine } false maps
    return lines ++ (if first then [] else [44]) ++ written ++ rest

def encodeEmittedMappings (fuel : Nat) (maps : List EmittedMapping) : Option Bytes :=
  encodeEmittedFrom fuel ⟨0, 0, 0, 0⟩ true maps

/-! ### Reading -/

def unshifted (value : Nat) : Int :=
  if value % 2 = 1 then -(value / 2 : Nat) else (value / 2 : Nat)

def base64Digit (byte : UInt8) : Option Nat := base64VLQAlphabet.findIdx? (· = byte)

/-- A segment as it is read: a position of the generated code, and with four or five numbers
also the source, a position in it and a name. -/
structure Decoded where
  generatedLine : Int
  generatedColumn : Int
  original : Option (Int × Int × Int)
  name : Option Int
deriving DecidableEq

/-- The running numbers, the number and the segment that are being read, and what has been
read. -/
structure Decoder where
  line : Int
  column : Int
  source : Int
  sourceLine : Int
  sourceColumn : Int
  name : Int
  value : Nat
  weight : Nat
  fields : List Int
  decoded : List Decoded

def Decoder.start : Decoder := ⟨0, 0, 0, 0, 0, 0, 0, 1, [], []⟩

/-- The end of a segment: between the digits of a number, or behind any number of fields other
than one, four and five, the text is no list of mappings. -/
def Decoder.flush (dec : Decoder) : Option Decoder :=
  if dec.weight ≠ 1 then none
  else match dec.fields with
    | [] => some dec
    | [column] =>
      let column := dec.column + column
      some { dec with
        column, fields := [], decoded := dec.decoded ++ [⟨dec.line, column, none, none⟩] }
    | [column, source, line, sourceColumn] =>
      let column := dec.column + column
      let source := dec.source + source
      let line := dec.sourceLine + line
      let sourceColumn := dec.sourceColumn + sourceColumn
      some { dec with
        column, source, sourceLine := line, sourceColumn, fields := []
        decoded := dec.decoded ++ [⟨dec.line, column, some (source, line, sourceColumn), none⟩] }
    | [column, source, line, sourceColumn, name] =>
      let column := dec.column + column
      let source := dec.source + source
      let line := dec.sourceLine + line
      let sourceColumn := dec.sourceColumn + sourceColumn
      let name := dec.name + name
      some { dec with
        column, source, sourceLine := line, sourceColumn, name, fields := []
        decoded := dec.decoded ++
          [⟨dec.line, column, some (source, line, sourceColumn), some name⟩] }
    | _ => none

def Decoder.digit (dec : Decoder) (digit : Nat) : Decoder :=
  if digit < 32 then
    { dec with
      value := 0, weight := 1
      fields := dec.fields ++ [unshifted (dec.value + digit * dec.weight)] }
  else
    { dec with
      value := dec.value + (digit - 32) * dec.weight, weight := dec.weight * 32 }

def Decoder.step (dec : Decoder) (byte : UInt8) : Option Decoder :=
  if byte = 59 then
    dec.flush.map fun dec => { dec with line := dec.line + 1, column := 0 }
  else if byte = 44 then dec.flush
  else (base64Digit byte).map dec.digit

def decode (text : Bytes) : Option (List Decoded) :=
  ((text.foldlM Decoder.step Decoder.start).bind Decoder.flush).map Decoder.decoded

def SourceMapMapping.decoded (mapping : SourceMapMapping) : Decoded :=
  ⟨mapping.generatedLine, mapping.generatedColumn,
    some (0, mapping.sourceLine, mapping.sourceColumn), none⟩

def EmittedMapping.decoded (mapping : EmittedMapping) : Decoded :=
  ⟨mapping.generatedLine, mapping.generatedColumn,
    mapping.source.map fun (line, column) => (0, line, column), none⟩

/-! ### One number -/

lemma base64Digit_alphabet : ∀ digit < 64,
    base64Digit (base64VLQAlphabet.getD digit 0) = some digit ∧
      base64VLQAlphabet.getD digit 0 ≠ 59 ∧ base64VLQAlphabet.getD digit 0 ≠ 44 := by
  decide +kernel

lemma Decoder.step_alphabet (dec : Decoder) {digit : Nat} (small : digit < 64) :
    dec.step (base64VLQAlphabet.getD digit 0) = some (dec.digit digit) := by
  obtain ⟨found, noSemicolon, noComma⟩ := base64Digit_alphabet digit small
  rw [Decoder.step, if_neg noSemicolon, if_neg noComma, found, Option.map_some]

lemma appendDigits_nonneg {val : Int} (written : appendDigits fuel val = some bytes) :
    0 ≤ val := by
  induction fuel generalizing val bytes with
  | zero => nomatch written
  | succ fuel ih =>
    rw [appendDigits] at written
    split at written
    · omega
    · obtain ⟨rest, writtenRest, -⟩ := Option.map_eq_some_iff.mp written
      have := ih writtenRest
      omega

lemma appendDigits_ends {val : Nat} (enough : val < fuel) :
    ∃ bytes, appendDigits fuel val = some bytes := by
  induction fuel generalizing val with
  | zero => exact absurd enough (Nat.not_lt_zero _)
  | succ fuel ih =>
    rw [appendDigits]
    split
    · exact ⟨_, rfl⟩
    · rename_i more
      have smaller : val / 32 < fuel := by omega
      obtain ⟨rest, writtenRest⟩ := ih smaller
      refine ⟨_, Option.map_eq_some_iff.mpr ⟨rest, ?_, rfl⟩⟩
      exact_mod_cast writtenRest

def Decoder.push (dec : Decoder) (number : Nat) : Decoder :=
  { dec with
    value := 0, weight := 1
    fields := dec.fields ++ [unshifted (dec.value + number * dec.weight)] }

lemma Decoder.foldlM_appendDigits {num : Nat} (dec : Decoder)
    (written : appendDigits fuel num = some bytes) :
    bytes.foldlM Decoder.step dec = some (dec.push num) := by
  induction fuel generalizing num bytes dec with
  | zero => nomatch written
  | succ fuel ih =>
    rw [appendDigits] at written
    have low : ((num : Int) % 32).toNat = num % 32 := by omega
    split at written
    · rename_i last
      have none' : ¬ (0 : Int) < (num : Int) / 32 := by omega
      rw [if_neg none', low] at written
      cases written
      have small : num % 32 < 64 := by omega
      rw [foldlM_cons, dec.step_alphabet small, Option.bind_eq_bind, Option.bind_some, foldlM_nil]
      have whole : num % 32 = num := by omega
      have below : num % 32 < 32 := by omega
      rw [Decoder.digit, if_pos below, Decoder.push, whole]
      rfl
    · rename_i more
      have some' : (0 : Int) < (num : Int) / 32 := by omega
      have raised : ((num : Int) % 32 + 32).toNat = num % 32 + 32 := by omega
      rw [if_pos some', raised] at written
      obtain ⟨rest, writtenRest, same⟩ := Option.map_eq_some_iff.mp written
      subst same
      have small : num % 32 + 32 < 64 := by omega
      have above : ¬ num % 32 + 32 < 32 := by omega
      rw [foldlM_cons, dec.step_alphabet small, Option.bind_eq_bind, Option.bind_some]
      have quotient : ((num : Int) / 32) = ((num / 32 : Nat) : Int) := by omega
      rw [ih _ writtenRest, Decoder.digit, if_neg above]
      -- The digit read now and the digits behind it weigh as the number does.
      have weighs : dec.value + (num % 32 + 32 - 32) * dec.weight +
          num / 32 * (dec.weight * 32) = dec.value + num * dec.weight := by
        have parts : num % 32 + 32 * (num / 32) = num := Nat.mod_add_div num 32
        calc dec.value + (num % 32 + 32 - 32) * dec.weight + num / 32 * (dec.weight * 32)
            = dec.value + (num % 32 + 32 * (num / 32)) * dec.weight := by
              rw [Nat.add_sub_cancel]; ring
          _ = _ := by rw [parts]
      simp only [Decoder.push, weighs]

/-! ### A difference -/

def Fits (diff : Int) : Prop := -2 ^ 62 < diff ∧ diff < 2 ^ 62

instance (diff : Int) : Decidable (Fits diff) := instDecidableAnd

lemma int64_of_small {val : Int} (low : -2 ^ 63 ≤ val) (high : val < 2 ^ 63) :
    int64 val = val := by
  rw [int64, Int.bmod_def]
  split <;> omega

lemma shifted_of_fits (fits : Fits diff) :
    0 ≤ shifted diff ∧ unshifted (shifted diff).toNat = diff := by
  obtain ⟨low, high⟩ := fits
  rw [shifted]
  split
  · rename_i negative
    have size : int64 (-diff) = -diff := int64_of_small (by omega) (by omega)
    have double : int64 (-diff * 2) = -diff * 2 := int64_of_small (by omega) (by omega)
    rw [size, double, unshifted, if_pos (by omega)]
    omega
  · rename_i nonneg
    have double : int64 (diff * 2) = diff * 2 := int64_of_small (by omega) (by omega)
    rw [double, unshifted, if_neg (by omega)]
    omega

lemma fits_of_shifted (low : -2 ^ 63 < diff) (high : diff < 2 ^ 63)
    (nonneg : 0 ≤ shifted diff) : Fits diff := by
  rw [shifted] at nonneg
  split at nonneg
  · rename_i negative
    have size : int64 (-diff) = -diff := int64_of_small (by omega) (by omega)
    rw [size, int64, Int.bmod_def] at nonneg
    refine ⟨?_, by omega⟩
    split at nonneg <;> omega
  · rename_i notNegative
    rw [int64, Int.bmod_def] at nonneg
    refine ⟨by omega, ?_⟩
    split at nonneg <;> omega

def Decoder.Between (dec : Decoder) : Prop := dec.value = 0 ∧ dec.weight = 1

def Decoder.field (dec : Decoder) (number : Int) : Decoder :=
  { dec with fields := dec.fields ++ [number] }

/-- The text of a writer takes the decoder from one state to another. It is returned exactly where
a condition holds, and then every loop ends within 2 ^ 64 turns. -/
structure Codes (condition : Prop) (write : Nat → Option Bytes) (start stop : Decoder) : Prop where
  reads : ∀ fuel bytes, write fuel = some bytes →
    condition ∧ bytes.foldlM Decoder.step start = some stop
  ends : condition → ∃ bytes, write (2 ^ 64) = some bytes

lemma Codes.text {dec stop : Decoder} (read : bytes.foldlM Decoder.step dec = some stop) :
    Codes True (fun _ => some bytes) dec stop := by
  refine ⟨?_, fun _ => ⟨bytes, rfl⟩⟩
  rintro _ _ ⟨⟩
  exact ⟨trivial, read⟩

lemma Codes.append {cond later : Prop} {write next : Nat → Option Bytes}
    {start between stop : Decoder} (first : Codes cond write start between)
    (second : Codes later next between stop) :
    Codes (cond ∧ later) (fun fuel => do
        let front ← write fuel
        let behind ← next fuel
        return front ++ behind) start stop := by
  refine ⟨fun fuel bytes written => ?_, fun holds => ?_⟩
  · simp only [Option.bind_eq_bind, Option.bind_eq_some_iff] at written
    obtain ⟨front, writtenFront, behind, writtenBehind, ⟨⟩⟩ := written
    obtain ⟨holds, read⟩ := first.reads fuel front writtenFront
    obtain ⟨holdsLater, readBehind⟩ := second.reads fuel behind writtenBehind
    rw [foldlM_append, read]
    exact ⟨⟨holds, holdsLater⟩, readBehind⟩
  · obtain ⟨front, written⟩ := first.ends holds.1
    obtain ⟨behind, writtenBehind⟩ := second.ends holds.2
    rw [written, writtenBehind]
    exact ⟨_, rfl⟩

lemma difference_codes {left right : Int} {dec : Decoder} (leftInRange : 0 ≤ left ∧ left < 2 ^ 63)
    (rightInRange : 0 ≤ right ∧ right < 2 ^ 63) (between : dec.Between) :
    Codes (Fits (left - right)) (fun fuel => appendBase64VLQ fuel (int64 (left - right))) dec
      (dec.field (left - right)) := by
  rw [int64_of_small (by omega) (by omega)]
  generalize isDifference : left - right = diff
  refine ⟨fun fuel bytes written => ?_, fun fits => ?_⟩
  · have nonneg := appendDigits_nonneg written
    have fits := fits_of_shifted (by omega) (by omega) nonneg
    rw [appendBase64VLQ, ← Int.toNat_of_nonneg nonneg] at written
    rw [dec.foldlM_appendDigits written, Decoder.push, between.1, between.2, Nat.zero_add,
      Nat.mul_one, (shifted_of_fits fits).2, ← between.1, ← between.2]
    exact ⟨fits, rfl⟩
  · have nonneg := (shifted_of_fits fits).1
    have bounded : (shifted diff).toNat < 2 ^ 64 := by
      rw [shifted, int64, int64, int64] at *
      split <;> simp only [Int.bmod_def] at * <;> split_ifs <;> omega
    obtain ⟨bytes, written⟩ := appendDigits_ends bounded
    rw [Int.toNat_of_nonneg nonneg] at written
    exact ⟨bytes, written⟩

/-! ### A segment -/

/-- The numbers of a mapping as the program has them: not negative, and 64 bits wide. -/
structure SourceMapMapping.InRange (mapping : SourceMapMapping) : Prop where
  generatedLine : 0 ≤ mapping.generatedLine ∧ mapping.generatedLine < 2 ^ 63
  generatedColumn : 0 ≤ mapping.generatedColumn ∧ mapping.generatedColumn < 2 ^ 63
  sourceLine : 0 ≤ mapping.sourceLine ∧ mapping.sourceLine < 2 ^ 63
  sourceColumn : 0 ≤ mapping.sourceColumn ∧ mapping.sourceColumn < 2 ^ 63

def SegmentFits (last mapping : SourceMapMapping) : Prop :=
  Fits (mapping.generatedColumn - last.generatedColumn) ∧
    Fits (mapping.sourceLine - last.sourceLine) ∧ Fits (mapping.sourceColumn - last.sourceColumn)

instance (last mapping : SourceMapMapping) : Decidable (SegmentFits last mapping) :=
  instDecidableAnd

variable {line : Int} {last : SourceMapMapping} {decoded : List Decoded} {dec : Decoder}
  {first : Bool}

lemma SourceMapMapping.InRange.onLine (inRange : last.InRange)
    (lineInRange : 0 ≤ line ∧ line < 2 ^ 63) : (last.onLine line).InRange := by
  rw [SourceMapMapping.onLine]
  split
  · exact ⟨lineInRange, by simp, inRange.sourceLine, inRange.sourceColumn⟩
  · exact inRange

lemma segment_codes {mapping : SourceMapMapping} (lastInRange : last.InRange)
    (inRange : mapping.InRange) (between : dec.Between) (empty : dec.fields = []) :
    Codes (SegmentFits last mapping) (fun fuel => segment fuel last mapping) dec { dec with
        fields := [mapping.generatedColumn - last.generatedColumn, 0,
          mapping.sourceLine - last.sourceLine, mapping.sourceColumn - last.sourceColumn] } := by
  have whole := (((difference_codes inRange.generatedColumn lastInRange.generatedColumn
    between).append (@difference_codes 0 0 _ (by decide) (by decide) between)).append
      (difference_codes inRange.sourceLine lastInRange.sourceLine between)).append
        (difference_codes inRange.sourceColumn lastInRange.sourceColumn between)
  convert whole using 1
  · rw [and_assoc, and_assoc, and_iff_right (show Fits (0 - 0) by decide)]
    rfl
  · funext fuel
    simp [segment, Option.bind_assoc]
    rfl
  · simp [Decoder.field, empty]

/-! ### All mappings -/

def Decoder.behind (last : SourceMapMapping) (decoded : List Decoded) : Decoder :=
  ⟨last.generatedLine, last.generatedColumn, 0, last.sourceLine, last.sourceColumn, 0, 0, 1, [],
    decoded⟩

lemma Decoder.foldlM_semicolons (flushed : dec.flush = some (.behind last decoded))
    (count : Nat) :
    (List.replicate (count + 1) 59).foldlM Decoder.step dec = some (.behind
      { last with generatedLine := last.generatedLine + (count + 1), generatedColumn := 0 }
      decoded) := by
  induction count generalizing dec last with
  | zero =>
    simp only [List.replicate, foldlM_cons, foldlM_nil, Decoder.step, if_pos, flushed]
    rfl
  | succ count ih =>
    rw [replicate_succ, foldlM_cons, Decoder.step, if_pos rfl, flushed]
    have next : ({ Decoder.behind last decoded with
        line := last.generatedLine + 1, column := 0 } : Decoder).flush = some (.behind
          { last with generatedLine := last.generatedLine + 1, generatedColumn := 0 }
          decoded) := rfl
    refine (ih next).trans ?_
    push_cast
    simp only [Decoder.behind, add_assoc, add_comm (1 : Int)]

/-- The separators in front of a segment: semicolons up to its line, or a comma if the line has a
segment already. -/
theorem Decoder.foldlM_separators (sorted : last.generatedLine ≤ line)
    (flushed : dec.flush = some (.behind last decoded))
    (onFirst : first → dec = .behind last decoded) :
    (List.replicate (line - last.generatedLine).toNat (59 : UInt8) ++
        if (first || decide (last.generatedLine < line)) = true then [] else [44]).foldlM
      Decoder.step dec = some (.behind (last.onLine line) decoded) := by
  rw [SourceMapMapping.onLine]
  by_cases later : last.generatedLine < line
  · obtain ⟨count, isCount⟩ : ∃ count : Nat, line = last.generatedLine + (count + 1) :=
      ⟨(line - last.generatedLine - 1).toNat, by omega⟩
    have turns : (line - last.generatedLine).toNat = count + 1 := by omega
    rw [if_pos later, decide_eq_true later, Bool.or_true, if_pos rfl, append_nil, turns,
      foldlM_semicolons flushed, isCount]
  · have none' : (line - last.generatedLine).toNat = 0 := by omega
    rw [if_neg later, decide_eq_false later, Bool.or_false, none', replicate_zero, nil_append]
    cases first with
    | true =>
      rw [onFirst rfl]
      rfl
    | false =>
      simp only [Bool.false_eq_true, if_false, foldlM_cons, foldlM_nil, Decoder.step]
      rw [if_neg (by decide), if_pos trivial, flushed]
      rfl

def StepsFit (last : SourceMapMapping) : List SourceMapMapping → Prop
  | [] => True
  | mapping :: maps =>
    SegmentFits (last.onLine mapping.generatedLine) mapping ∧ StepsFit mapping maps

def SourceMapMapping.Before (left right : SourceMapMapping) : Prop :=
  left.generatedLine < right.generatedLine ∨
    left.generatedLine = right.generatedLine ∧ left.generatedColumn ≤ right.generatedColumn

lemma SourceMapMapping.Before.line_le {left right : SourceMapMapping}
    (before : left.Before right) : left.generatedLine ≤ right.generatedLine := by
  rcases before with less | ⟨same, -⟩ <;> omega

lemma onLine_generatedLine (sorted : last.generatedLine ≤ line) :
    (last.onLine line).generatedLine = line := by
  rw [SourceMapMapping.onLine]
  split
  · rfl
  · omega

structure EmittedMapping.InRange (mapping : EmittedMapping) : Prop where
  generatedLine : 0 ≤ mapping.generatedLine ∧ mapping.generatedLine < 2 ^ 63
  generatedColumn : 0 ≤ mapping.generatedColumn ∧ mapping.generatedColumn < 2 ^ 63
  source : ∀ position ∈ mapping.source,
    (0 ≤ position.1 ∧ position.1 < 2 ^ 63) ∧ 0 ≤ position.2 ∧ position.2 < 2 ^ 63

variable {mapping : EmittedMapping} {maps : List EmittedMapping}

lemma EmittedMapping.InRange.behind (inRange : mapping.InRange) (lastInRange : last.InRange) :
    (mapping.behind last).InRange := by
  obtain ⟨line, column, source⟩ := mapping
  cases source with
  | none =>
    exact ⟨inRange.generatedLine, inRange.generatedColumn, lastInRange.sourceLine,
      lastInRange.sourceColumn⟩
  | some position =>
    obtain ⟨line, column⟩ := inRange.source position rfl
    exact ⟨inRange.generatedLine, inRange.generatedColumn, line, column⟩

lemma EmittedMapping.segment_codes (lastInRange : last.InRange) (inRange : mapping.InRange)
    (onLine : last.generatedLine = mapping.generatedLine) (decoded : List Decoded) :
    ∃ stop, Codes (SegmentFits last (mapping.behind last)) (fun fuel => mapping.segment fuel last)
        (.behind last decoded) stop ∧
      stop.flush = some (.behind (mapping.behind last) (decoded ++ [mapping.decoded])) := by
  have back : ∀ left right : Int, right + (left - right) = left := fun left right => by omega
  obtain ⟨line, column, source⟩ := mapping
  cases source with
  | none =>
    have fits : SegmentFits last (EmittedMapping.behind ⟨line, column, none⟩ last) =
        Fits (column - last.generatedColumn) := by
      simp [SegmentFits, EmittedMapping.behind, Fits]
    rw [fits]
    refine ⟨_, difference_codes inRange.generatedColumn lastInRange.generatedColumn ⟨rfl, rfl⟩, ?_⟩
    simp [Decoder.flush, Decoder.behind, Decoder.field, EmittedMapping.behind,
      EmittedMapping.decoded, back]
    exact onLine
  | some position =>
    refine ⟨_, SourceMap.segment_codes lastInRange (inRange.behind lastInRange) ⟨rfl, rfl⟩ rfl, ?_⟩
    simp [Decoder.flush, Decoder.behind, EmittedMapping.behind, EmittedMapping.decoded, back]
    exact onLine

def EmittedFit (last : SourceMapMapping) : List EmittedMapping → Prop
  | [] => True
  | mapping :: maps =>
    SegmentFits (last.onLine mapping.generatedLine) (mapping.behind last) ∧
      EmittedFit (mapping.behind last) maps

lemma behind_onLine : mapping.behind (last.onLine line) = mapping.behind last := by
  rw [SourceMapMapping.onLine]
  split <;> rfl

lemma encodeEmittedFrom_codes (lastInRange : last.InRange)
    (inRange : ∀ mapping ∈ maps, mapping.InRange)
    (sorted : (last.generatedLine :: maps.map (·.generatedLine)).Pairwise (· ≤ ·))
    (flushed : dec.flush = some (.behind last decoded))
    (onFirst : first → dec = .behind last decoded) :
    ∃ stop final, Codes (EmittedFit last maps) (fun fuel => encodeEmittedFrom fuel last first maps)
        dec stop ∧
      stop.flush = some (.behind final (decoded ++ maps.map EmittedMapping.decoded)) := by
  induction maps generalizing last first dec decoded with
  | nil => exact ⟨dec, last, Codes.text rfl, by rwa [map_nil, append_nil]⟩
  | cons mapping maps ih =>
    rw [map_cons, pairwise_cons] at sorted
    have ordered := sorted.1 _ mem_cons_self
    have line := onLine_generatedLine ordered
    rw [forall_mem_cons] at inRange
    obtain ⟨next, segment, flushedNext⟩ := EmittedMapping.segment_codes
      (lastInRange.onLine inRange.1.generatedLine) inRange.1 line decoded
    rw [behind_onLine] at segment flushedNext
    obtain ⟨stop, final, rest, flushedStop⟩ := @ih _ _ _ false (inRange.1.behind lastInRange)
      inRange.2 sorted.2 flushedNext nofun
    have separators := Codes.text (Decoder.foldlM_separators ordered flushed onFirst)
    refine ⟨stop, final, ?_, by rwa [map_cons, append_cons]⟩
    convert (separators.append segment).append rest using 1
    · rw [true_and]
      rfl
    · funext fuel
      simp [encodeEmittedFrom, behind_onLine, line, Option.bind_assoc]
      rfl

lemma decode_encodeEmitted_iff (inRange : ∀ mapping ∈ maps, mapping.InRange)
    (sorted : (maps.map (·.generatedLine)).Pairwise (· ≤ ·)) :
    (∃ fuel text, encodeEmittedMappings fuel maps = some text ∧
        decode text = some (maps.map EmittedMapping.decoded)) ↔
      EmittedFit ⟨0, 0, 0, 0⟩ maps := by
  have startInRange : (⟨0, 0, 0, 0⟩ : SourceMapMapping).InRange := by
    constructor <;> decide
  have lines : ((0 : Int) :: maps.map (·.generatedLine)).Pairwise (· ≤ ·) := by
    refine pairwise_cons.mpr ⟨fun line mem => ?_, sorted⟩
    obtain ⟨mapping, inside, rfl⟩ := mem_map.mp mem
    exact (inRange mapping inside).generatedLine.1
  have flushed : Decoder.start.flush = some (.behind ⟨0, 0, 0, 0⟩ []) := rfl
  obtain ⟨stop, final, codes, flushedStop⟩ :=
    @encodeEmittedFrom_codes _ _ _ true _ startInRange inRange lines flushed fun _ => rfl
  constructor
  · rintro ⟨fuel, text, written, -⟩
    exact (codes.reads fuel text written).1
  · intro fits
    obtain ⟨text, written⟩ := codes.ends fits
    refine ⟨2 ^ 64, text, written, ?_⟩
    rw [decode, (codes.reads _ text written).2, Option.bind_some, flushedStop]
    rfl

/-! ### Mappings that all have a source -/

def SourceMapMapping.emitted (mapping : SourceMapMapping) : EmittedMapping :=
  ⟨mapping.generatedLine, mapping.generatedColumn, some (mapping.sourceLine, mapping.sourceColumn)⟩

lemma encodeFrom_emitted (fuel : Nat) (last : SourceMapMapping) (first : Bool)
    (maps : List SourceMapMapping) : encodeFrom fuel last first maps =
      encodeEmittedFrom fuel last first (maps.map SourceMapMapping.emitted) := by
  induction maps generalizing last first with
  | nil => rfl
  | cons mapping maps ih =>
    simp only [encodeFrom, ih]
    rfl

lemma stepsFit_emitted (last : SourceMapMapping) (maps : List SourceMapMapping) :
    EmittedFit last (maps.map SourceMapMapping.emitted) ↔ StepsFit last maps := by
  induction maps generalizing last with
  | nil => exact Iff.rfl
  | cons mapping maps ih => exact and_congr_right fun _ => ih mapping

/-- The mappings of a sorted list are read back from the text that is written for them exactly
when the differences between neighbours, doubled, still fit into an `int`; otherwise no text is
ever returned. -/
theorem decode_encode_iff {maps : List SourceMapMapping}
    (inRange : ∀ mapping ∈ maps, mapping.InRange) (sorted : maps.Pairwise SourceMapMapping.Before) :
    (∃ fuel text, encodeSourceMapMappings fuel maps = some text ∧
        decode text = some (maps.map SourceMapMapping.decoded)) ↔
      StepsFit ⟨0, 0, 0, 0⟩ maps := by
  have emitted : ∀ mapping ∈ maps.map SourceMapMapping.emitted, mapping.InRange := by
    intro mapping mem
    obtain ⟨mapping, inside, rfl⟩ := mem_map.mp mem
    obtain ⟨line, column, sourceLine, sourceColumn⟩ := inRange mapping inside
    refine ⟨line, column, ?_⟩
    rintro _ ⟨⟩
    exact ⟨sourceLine, sourceColumn⟩
  have lines : ((maps.map SourceMapMapping.emitted).map (·.generatedLine)).Pairwise (· ≤ ·) := by
    rw [map_map, pairwise_map]
    exact sorted.imp SourceMapMapping.Before.line_le
  rw [← stepsFit_emitted, ← decode_encodeEmitted_iff emitted lines, map_map]
  simp only [encodeSourceMapMappings, encodeFrom_emitted]
  rfl

theorem decode_encode_backwards : ∃ fuel text,
      encodeSourceMapMappings fuel [⟨0, 0, 7, 2⟩, ⟨0, 40, 8, 0⟩, ⟨3, 1, 5, 900⟩] = some text ∧
        decode text = some [⟨0, 0, some (0, 7, 2), none⟩, ⟨0, 40, some (0, 8, 0), none⟩,
          ⟨3, 1, some (0, 5, 900), none⟩] := by
  refine (@decode_encode_iff [⟨0, 0, 7, 2⟩, ⟨0, 40, 8, 0⟩, ⟨3, 1, 5, 900⟩] ?_ ?_).mpr ?_
  · simp only [mem_cons, not_mem_nil, or_false, forall_eq_or_imp, forall_eq]
    refine ⟨?_, ?_, ?_⟩ <;> constructor <;> decide
  · simp [SourceMapMapping.Before]
  · exact ⟨by decide, by decide, by decide, trivial⟩

/-- A column of 2 ^ 62 becomes negative when it is doubled, and the loop over its digits never
ends. -/
theorem encode_endless :
    ¬ ∃ fuel text, encodeSourceMapMappings fuel [⟨0, 2 ^ 62, 0, 0⟩] = some text := by
  rintro ⟨fuel, text, written⟩
  simp only [encodeSourceMapMappings, encodeFrom, segment, Option.bind_eq_bind,
    Option.bind_eq_some_iff] at written
  obtain ⟨_, ⟨column, writtenColumn, -⟩, -⟩ := written
  have nonneg := appendDigits_nonneg writtenColumn
  exact absurd nonneg (by decide)

end Rotor.Transformer.SourceMap
