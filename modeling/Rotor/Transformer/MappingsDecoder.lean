import Rotor.Transformer.SourceMap

/-!
Reading the mappings of a source map (`sourcemap/decoder.go`).

The program reads one number after the other, each 64 bits wide, where `decode` goes from byte to
byte with numbers of any size. Both read the same mappings where the numbers fit.
-/

namespace Rotor.Transformer.SourceMap

open List

def base64FormatDecode (ch : UInt8) : Option Nat :=
  if 65 ≤ ch ∧ ch ≤ 90 then some (ch - 65).toNat
  else if 97 ≤ ch ∧ ch ≤ 122 then some (ch - 97 + 26).toNat
  else if 48 ≤ ch ∧ ch ≤ 57 then some (ch - 48 + 52).toNat
  else if ch = 43 then some 62
  else if ch = 47 then some 63
  else none

/-- The loop of `base64VLQFormatDecode`, with the text behind the number. Two digits have no bit in
common, so that `|` is a sum. -/
def decodeDigits (shiftCount : Nat) (value : Int) : Bytes → Option (Int × Bytes)
  | [] => none
  | ch :: rest => do
    let currentByte ← base64FormatDecode ch
    let value := int64 (value + (currentByte % 32 * 2 ^ shiftCount : Nat))
    if currentByte < 32 then some (value, rest) else decodeDigits (shiftCount + 5) value rest

def base64VLQFormatDecode (text : Bytes) : Option (Int × Bytes) := do
  let (value, rest) ← decodeDigits 0 0 text
  return (if value % 2 = 0 then value / 2 else -(value / 2), rest)

/-- A running number and the next one of the text, which must not make it negative. -/
def advance (number : Int) (text : Bytes) : Option (Int × Bytes) := do
  let (value, rest) ← base64VLQFormatDecode text
  let number := int64 (number + value)
  if number < 0 then none else some (number, rest)

def isSourceMappingSegmentEnd : Bytes → Bool
  | [] => true
  | ch :: _ => ch = 44 || ch = 59

/-- The running numbers. -/
structure MappingsDecoder where
  generatedLine : Int := 0
  generatedCharacter : Int := 0
  sourceIndex : Int := 0
  sourceLine : Int := 0
  sourceCharacter : Int := 0
  nameIndex : Int := 0

namespace MappingsDecoder

variable (d : MappingsDecoder)

/-- The segment at the start of a text; `none` is an error. -/
def next (text : Bytes) : Option (Decoded × Bytes) := do
  let (generatedCharacter, text) ← advance d.generatedCharacter text
  if isSourceMappingSegmentEnd text then
    return (⟨d.generatedLine, generatedCharacter, none, none⟩, text)
  let (sourceIndex, text) ← advance d.sourceIndex text
  guard !isSourceMappingSegmentEnd text
  let (sourceLine, text) ← advance d.sourceLine text
  guard !isSourceMappingSegmentEnd text
  let (sourceCharacter, text) ← advance d.sourceCharacter text
  let original := some (sourceIndex, sourceLine, sourceCharacter)
  if isSourceMappingSegmentEnd text then
    return (⟨d.generatedLine, generatedCharacter, original, none⟩, text)
  let (nameIndex, text) ← advance d.nameIndex text
  guard (isSourceMappingSegmentEnd text)
  return (⟨d.generatedLine, generatedCharacter, original, some nameIndex⟩, text)

/-- The running numbers behind a segment: what it lacks stays. -/
def behind (mapping : Decoded) : MappingsDecoder :=
  let (sourceIndex, sourceLine, sourceCharacter) :=
    mapping.original.getD (d.sourceIndex, d.sourceLine, d.sourceCharacter)
  ⟨mapping.generatedLine, mapping.generatedColumn, sourceIndex, sourceLine, sourceCharacter,
    mapping.name.getD d.nameIndex⟩

/-- The loops of `Values` and `Next`. -/
def values : Nat → MappingsDecoder → Bytes → Option (List Decoded)
  | 0, _, _ => none
  | _ + 1, _, [] => some []
  | fuel + 1, d, ch :: rest =>
    if ch = 59 then
      values fuel { d with generatedLine := d.generatedLine + 1, generatedCharacter := 0 } rest
    else if ch = 44 then values fuel d rest
    else do
      let (mapping, text) ← d.next (ch :: rest)
      let maps ← values fuel (d.behind mapping) text
      return mapping :: maps

end MappingsDecoder

def decodeMappings (mappings : Bytes) : Option (List Decoded) :=
  MappingsDecoder.values (mappings.length + 1) {} mappings

/-! ### Numbers that fit -/

/-- A running number that 64 bits hold, as they do the difference to the one before, doubled. -/
def Near (last number : Int) : Prop := (0 ≤ number ∧ number < 2 ^ 63) ∧ Fits (number - last)

structure MappingsDecoder.Reaches (d : MappingsDecoder) (mapping : Decoded) : Prop where
  generatedLine : mapping.generatedLine < 2 ^ 63
  generatedColumn : Near (if d.generatedLine < mapping.generatedLine then 0
    else d.generatedCharacter) mapping.generatedColumn
  original : ∀ original ∈ mapping.original, Near d.sourceIndex original.1 ∧
    Near d.sourceLine original.2.1 ∧ Near d.sourceCharacter original.2.2
  name : ∀ name ∈ mapping.name, Near d.nameIndex name

def MappingsDecoder.Fit (d : MappingsDecoder) : List Decoded → Prop
  | [] => True
  | mapping :: maps => d.Reaches mapping ∧ (d.behind mapping).Fit maps

/-! ### Both readers -/

section Both

variable {dec final : Decoder} {text : Bytes}

def Decoder.finish (dec : Decoder) (text : Bytes) : Option Decoder :=
  (text.foldlM Decoder.step dec).bind Decoder.flush

lemma finish_cons (dec : Decoder) (ch : UInt8) (rest : Bytes) :
    dec.finish (ch :: rest) = (dec.step ch).bind (·.finish rest) := by
  rw [Decoder.finish, foldlM_cons, Option.bind_eq_bind, Option.bind_assoc]
  rfl

lemma base64Digit_eq : ∀ ch : UInt8, base64Digit ch = base64FormatDecode ch ∧
    (base64Digit ch).all (· < 64) ∧ (ch = 44 ∨ ch = 59 → base64Digit ch = none) :=
  forall_byte (by decide +kernel)

lemma flush_number {shift : Nat} (weight : dec.weight = 2 ^ shift)
    (inside : shift = 0 → isSourceMappingSegmentEnd text = false)
    (ends : isSourceMappingSegmentEnd text) : dec.flush = none := by
  have positive : shift ≠ 0 := by
    intro zero
    rw [inside zero] at ends
    cases ends
  rw [Decoder.flush, if_pos]
  rw [weight]
  exact (Nat.one_lt_two_pow positive).ne'

lemma int64_natCast {num : Nat} (fits : num < 2 ^ 63) : int64 num = num :=
  int64_of_small (by omega) (by omega)

/-- One number, from the digits that have been read already on. -/
lemma finish_number {shift : Nat} (weight : dec.weight = 2 ^ shift)
    (inside : shift = 0 → isSourceMappingSegmentEnd text = false)
    (done : dec.finish text = some final) :
    ∃ (num : Nat) (rest : Bytes), rest.length < text.length ∧ dec.value ≤ num ∧
      ({ dec with value := 0, weight := 1, fields := dec.fields ++ [unshifted num] } :
        Decoder).finish rest = some final ∧
      (num < 2 ^ 63 → decodeDigits shift dec.value text = some ((num : Int), rest)) := by
  induction text generalizing dec shift with
  | nil => cases (flush_number weight inside rfl).symm.trans done
  | cons ch text ih =>
    obtain ⟨format, small, separator⟩ := base64Digit_eq ch
    rw [finish_cons, Decoder.step] at done
    by_cases ends : ch = 44 ∨ ch = 59
    · rw [flush_number weight inside (by simpa [isSourceMappingSegmentEnd] using ends)] at done
      rcases ends with rfl | rfl <;> cases done
    · rw [not_or] at ends
      rw [if_neg ends.2, if_neg ends.1] at done
      cases found : base64Digit ch with
      | none =>
        rw [found] at done
        cases done
      | some digit =>
        rw [found, Option.all_some, decide_eq_true_eq] at small
        rw [found, Option.map_some, Option.bind_some, Decoder.digit] at done
        simp only [decodeDigits, ← format, found, Option.bind_eq_bind, Option.bind_some,
          ← weight]
        by_cases last : digit < 32
        · rw [if_pos last] at done
          refine ⟨_, text, Nat.lt_succ_self _, Nat.le_add_right .., done, fun fits => ?_⟩
          rw [if_pos last, Nat.mod_eq_of_lt last, ← Nat.cast_add, int64_natCast fits]
        · rw [if_neg last] at done
          have low : digit % 32 = digit - 32 := by omega
          obtain ⟨num, rest, shorter, above, later, digits⟩ :=
            @ih _ (shift + 5) (by rw [Nat.pow_add, ← weight]) (fun zero => by omega) done
          refine ⟨num, rest, Nat.lt_succ_of_lt shorter, Nat.le_trans (Nat.le_add_right ..) above,
            later, fun fits => ?_⟩
          rw [if_neg last, low, ← digits fits, ← Nat.cast_add,
            int64_natCast (Nat.lt_of_le_of_lt above fits)]

lemma finish_advance (between : dec.Between) (inside : isSourceMappingSegmentEnd text = false)
    (done : dec.finish text = some final) :
    ∃ diff rest, rest.length < text.length ∧ (dec.field diff).finish rest = some final ∧
      ∀ number, Near number (number + diff) → advance number text = some (number + diff, rest) := by
  obtain ⟨num, rest, shorter, -, later, digits⟩ := @finish_number _ _ _ 0 between.2
    (fun _ => inside) done
  refine ⟨unshifted num, rest, shorter, ?_, fun number near => ?_⟩
  · rw [Decoder.field, ← later, ← between.1, ← between.2]
  · obtain ⟨range, fits⟩ := near
    rw [add_sub_cancel_left] at fits
    have read : base64VLQFormatDecode text = some (unshifted num, rest) := by
      have bound : num < 2 ^ 63 := by
        simp only [Fits, unshifted] at fits
        split at fits <;> omega
      rw [between.1] at digits
      simp only [base64VLQFormatDecode, Int.ofNat_zero ▸ digits bound, Option.bind_eq_bind,
        Option.bind_some, unshifted]
      split <;> split <;> first | rfl | omega
    simp only [advance, read, Option.bind_eq_bind, Option.bind_some]
    rw [int64_of_small (by omega) range.2, if_neg (by omega)]

lemma flush_flush {dec' : Decoder} (flushed : dec.flush = some dec') :
    dec'.flush = some dec' := by
  rw [Decoder.flush] at flushed
  split at flushed
  · cases flushed
  · rename_i weight
    split at flushed <;> cases flushed <;> simp_all [Decoder.flush]

lemma finish_end (ends : isSourceMappingSegmentEnd text) (done : dec.finish text = some final) :
    ∃ dec', dec.flush = some dec' ∧ dec'.finish text = some final := by
  cases text with
  | nil => exact ⟨final, done, flush_flush done⟩
  | cons ch text =>
    rw [finish_cons] at done
    obtain ⟨stepped, isStep, later⟩ := Option.bind_eq_some_iff.mp done
    simp only [isSourceMappingSegmentEnd, Bool.or_eq_true, decide_eq_true_eq] at ends
    obtain ⟨dec', flushed⟩ : ∃ dec', dec.flush = some dec' := by
      rcases ends with rfl | rfl
      · exact ⟨_, isStep⟩
      · exact (Option.map_eq_some_iff.mp isStep).imp fun _ found => found.1
    refine ⟨dec', flushed, ?_⟩
    have same : dec'.step ch = dec.step ch := by
      rcases ends with rfl | rfl <;> simp [Decoder.step, flushed, flush_flush flushed]
    rw [finish_cons, same, isStep]
    exact later

lemma flush_long (long : 5 < dec.fields.length) : dec.flush = none := by
  rw [Decoder.flush]
  split
  · rfl
  · split <;> simp_all

lemma finish_long (long : 5 < dec.fields.length) : dec.finish text = none := by
  induction text generalizing dec with
  | nil => exact flush_long long
  | cons ch text ih =>
    rw [finish_cons, Decoder.step, flush_long long]
    cases base64Digit ch with
    | none => split_ifs <;> rfl
    | some digit =>
      have longer : 5 < (dec.digit digit).fields.length := by
        rw [Decoder.digit]
        split
        · rw [length_append]
          exact Nat.lt_add_right _ long
        · exact long
      split_ifs
      · rfl
      · rfl
      · exact ih longer

namespace MappingsDecoder

variable {d : MappingsDecoder} {fields : List Int} {decoded : List Decoded}

/-- The state of the other reader behind these fields of a segment. -/
def state (d : MappingsDecoder) (fields : List Int) (decoded : List Decoded) : Decoder :=
  ⟨d.generatedLine, d.generatedCharacter, d.sourceIndex, d.sourceLine, d.sourceCharacter,
    d.nameIndex, 0, 1, fields, decoded⟩

lemma state_advance (inside : ¬ isSourceMappingSegmentEnd text)
    (done : (d.state fields decoded).finish text = some final) :
    ∃ diff rest, rest.length < text.length ∧
      (d.state (fields ++ [diff]) decoded).finish rest = some final ∧
      ∀ number, Near number (number + diff) → advance number text = some (number + diff, rest) :=
  finish_advance ⟨rfl, rfl⟩ (Bool.eq_false_iff.mpr inside) done

lemma next_eq (inside : ¬ isSourceMappingSegmentEnd text)
    (done : (d.state [] decoded).finish text = some final) : ∃ mapping rest,
      rest.length < text.length ∧ mapping.generatedLine = d.generatedLine ∧
      ((d.behind mapping).state [] (decoded ++ [mapping])).finish rest = some final ∧
      (d.Reaches mapping → d.next text = some (mapping, rest)) := by
  obtain ⟨column, text₁, short₁, done, readColumn⟩ := state_advance inside done
  have nearColumn {original : Option (Int × Int × Int)} {name : Option Int}
      (reaches : d.Reaches ⟨d.generatedLine, d.generatedCharacter + column, original, name⟩) :
      Near d.generatedCharacter (d.generatedCharacter + column) := by
    have near := reaches.generatedColumn
    rwa [if_neg (Int.lt_irrefl _)] at near
  by_cases ends₁ : isSourceMappingSegmentEnd text₁
  · obtain ⟨_, ⟨⟩, done⟩ := finish_end ends₁ done
    refine ⟨⟨d.generatedLine, d.generatedCharacter + column, none, none⟩, text₁, short₁, rfl, done,
      fun reaches => ?_⟩
    simp [next, readColumn _ (nearColumn reaches), ends₁]
  obtain ⟨source, text₂, short₂, done, readSource⟩ := state_advance ends₁ done
  by_cases ends₂ : isSourceMappingSegmentEnd text₂
  · obtain ⟨_, ⟨⟩, _⟩ := finish_end ends₂ done
  obtain ⟨line, text₃, short₃, done, readLine⟩ := state_advance ends₂ done
  by_cases ends₃ : isSourceMappingSegmentEnd text₃
  · obtain ⟨_, ⟨⟩, _⟩ := finish_end ends₃ done
  obtain ⟨sourceColumn, text₄, short₄, done, readSourceColumn⟩ := state_advance ends₃ done
  by_cases ends₄ : isSourceMappingSegmentEnd text₄
  · obtain ⟨_, ⟨⟩, done⟩ := finish_end ends₄ done
    refine ⟨⟨d.generatedLine, d.generatedCharacter + column, some (d.sourceIndex + source,
      d.sourceLine + line, d.sourceCharacter + sourceColumn), none⟩, text₄, by omega, rfl, done,
      fun reaches => ?_⟩
    obtain ⟨nearSource, nearLine, nearSourceColumn⟩ := reaches.original _ rfl
    simp [next, readColumn _ (nearColumn reaches), ends₁, readSource _ nearSource, ends₂,
      readLine _ nearLine, ends₃, readSourceColumn _ nearSourceColumn, ends₄]
  obtain ⟨name, text₅, short₅, done, readName⟩ := state_advance ends₄ done
  by_cases ends₅ : isSourceMappingSegmentEnd text₅
  · obtain ⟨_, ⟨⟩, done⟩ := finish_end ends₅ done
    refine ⟨⟨d.generatedLine, d.generatedCharacter + column, some (d.sourceIndex + source,
      d.sourceLine + line, d.sourceCharacter + sourceColumn), some (d.nameIndex + name)⟩, text₅,
      by omega, rfl, done, fun reaches => ?_⟩
    obtain ⟨nearSource, nearLine, nearSourceColumn⟩ := reaches.original _ rfl
    simp [next, readColumn _ (nearColumn reaches), ends₁, readSource _ nearSource, ends₂,
      readLine _ nearLine, ends₃, readSourceColumn _ nearSourceColumn, ends₄,
      readName _ (reaches.name _ rfl), ends₅]
  · obtain ⟨_, _, _, done, _⟩ := state_advance ends₅ done
    cases (finish_long (by simp [state])).symm.trans done

/-- Between two segments both readers have the same numbers, and so they read the rest alike. -/
lemma values_eq {fuel : Nat} (enough : text.length < fuel)
    (done : (d.state [] decoded).finish text = some final) : ∃ maps,
      final.decoded = decoded ++ maps ∧
      (d.generatedLine :: maps.map (·.generatedLine)).Pairwise (· ≤ ·) ∧
      (d.Fit maps → d.values fuel text = some maps) := by
  induction fuel generalizing d decoded text with
  | zero => exact absurd enough (Nat.not_lt_zero _)
  | succ fuel ih =>
    cases text with
    | nil =>
      cases done
      exact ⟨[], (append_nil _).symm, pairwise_singleton .., fun _ => rfl⟩
    | cons ch text =>
      rw [length_cons, Nat.add_lt_add_iff_right] at enough
      by_cases line : ch = 59
      · subst line
        obtain ⟨maps, isFinal, sorted, reads⟩ := @ih _
          { d with generatedLine := d.generatedLine + 1, generatedCharacter := 0 } _ enough done
        have later : ∀ mapping ∈ maps, d.generatedLine < mapping.generatedLine :=
          fun mapping mem => (pairwise_cons.mp sorted).1 _ (mem_map_of_mem mem)
        refine ⟨maps, isFinal, pairwise_cons.mpr ⟨?_, (pairwise_cons.mp sorted).2⟩, fun fit => ?_⟩
        · simpa using fun mapping mem => (later mapping mem).le
        · refine reads ?_
          cases maps with
          | nil => trivial
          | cons mapping maps =>
            obtain ⟨⟨inRange, column, original, name⟩, fit⟩ := fit
            rw [if_pos (later mapping (.head _))] at column
            exact ⟨⟨inRange, by rwa [ite_self], original, name⟩, fit⟩
      · by_cases comma : ch = 44
        · subst comma
          obtain ⟨maps, isFinal, sorted, reads⟩ := ih enough done
          exact ⟨maps, isFinal, sorted, reads⟩
        · obtain ⟨mapping, rest, shorter, onLine, done, isNext⟩ :=
            next_eq (by simp [isSourceMappingSegmentEnd, line, comma]) done
          obtain ⟨maps, isFinal, sorted, reads⟩ := ih (Nat.lt_of_lt_of_le shorter enough) done
          refine ⟨mapping :: maps, by simpa using isFinal, ?_, fun fit => ?_⟩
          · have sorted : (d.generatedLine :: maps.map (·.generatedLine)).Pairwise (· ≤ ·) :=
              onLine ▸ sorted
            rw [map_cons, onLine, pairwise_cons]
            exact ⟨forall_mem_cons.mpr ⟨le_rfl, (pairwise_cons.mp sorted).1⟩, sorted⟩
          · simp [values, line, comma, isNext fit.1, reads fit.2]

end MappingsDecoder

/-- The program reads what the rules of the format give, where the numbers fit. -/
theorem decodeMappings_eq {maps : List Decoded} (read : decode text = some maps) :
    (0 :: maps.map (·.generatedLine)).Pairwise (· ≤ ·) ∧
      (MappingsDecoder.Fit {} maps → decodeMappings text = some maps) := by
  obtain ⟨final, done, rfl⟩ := Option.map_eq_some_iff.mp read
  obtain ⟨maps, isFinal, sorted, reads⟩ :=
    @MappingsDecoder.values_eq _ _ {} [] _ (Nat.lt_succ_self _) done
  rw [isFinal, nil_append]
  exact ⟨sorted, reads⟩

end Both

end Rotor.Transformer.SourceMap
