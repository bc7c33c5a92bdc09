import Rotor.Luau.Lex.Scanner
import Mathlib.Algebra.GroupWithZero.Nat

/-!
What a string literal of Luau stands for.

This is the language's own reading of a literal, not a routine of the repository. In a quoted
literal a backslash begins an escape, and a bare line break or zero byte ends the text before the
literal is closed. A literal in long brackets stands for the text between them without a line
break at its beginning; Luau then makes a line feed of every line break.
-/

namespace Rotor.Luau

open List Luau.Lex

def hexValue (c : UInt8) : Option Nat :=
  if isDigit c then some (c.toNat - 48)
  else if 97 ≤ c && c ≤ 102 then some (c.toNat - 87)
  else if 65 ≤ c && c ≤ 70 then some (c.toNat - 55)
  else none

def hexNumber (digits : Bytes) : Nat :=
  digits.foldl (fun number c => 16 * number + (hexValue c).getD 0) 0

def decimalNumber (digits : Bytes) : Nat :=
  digits.foldl (fun number c => 10 * number + (c.toNat - 48)) 0

def utf8 (code : Nat) : Option Bytes :=
  let byte (number : Nat) : UInt8 := number.toUInt8
  let tail (shift : Nat) := byte (128 + code / 64 ^ shift % 64)
  if code < 0x80 then some [byte code]
  else if code < 0x800 then some [byte (192 + code / 64), tail 0]
  else if code < 0x10000 then some [byte (224 + code / 64 ^ 2), tail 1, tail 0]
  else if code < 0x110000 then some [byte (240 + code / 64 ^ 3), tail 2, tail 1, tail 0]
  else none

def controlEscape (c : UInt8) : Option UInt8 :=
  if c = 97 then some 7
  else if c = 98 then some 8
  else if c = 102 then some 12
  else if c = 110 then some 10
  else if c = 114 then some 13
  else if c = 116 then some 9
  else if c = 118 then some 11
  else none

def readHexEscape : Bytes → Option (Bytes × Bytes)
  | high :: low :: rest =>
    if isHex high && isHex low then some ([(hexNumber [high, low]).toUInt8], rest) else none
  | _ => none

def readCodePoint : Bytes → Option (Bytes × Bytes)
  | 123 :: rest =>
    let digits := rest.takeWhile isHex
    if digits = [] ∨ 16 < digits.length then none
    else match rest.dropWhile isHex with
      | 125 :: rest => (utf8 (hexNumber digits)).map (·, rest)
      | _ => none
  | _ => none

def readDecimal (first : UInt8) (rest : Bytes) : Option (Bytes × Bytes) :=
  let more := (rest.take 2).takeWhile isDigit
  let number := decimalNumber (first :: more)
  if number < 256 then some ([number.toUInt8], rest.drop more.length) else none

/-- What an escape stands for, and what is behind it. The text begins behind the backslash. -/
def readEscape : Bytes → Option (Bytes × Bytes)
  | [] => none
  | c :: rest =>
    if c = 120 then readHexEscape rest
    else if c = 117 then readCodePoint rest
    else if c = 122 then some ([], rest.dropWhile isSpace)
    else if isDigit c then readDecimal c rest
    else if c = 13 then some ([10], if rest.head? = some 10 then rest.tail else rest)
    else if c = 0 then none
    else some ([(controlEscape c).getD c], rest)

def isBroken (c : UInt8) : Bool := c == 10 || c == 13 || c == 0

/-- The value of a quoted literal behind its opening quote, and what follows the literal. Every
turn consumes a byte. -/
def shortValue (quote : UInt8) : Nat → Bytes → Option (Bytes × Bytes)
  | 0, _ => none
  | _ + 1, [] => none
  | fuel + 1, c :: rest =>
    if c = quote then some ([], rest)
    else if c = 92 then
      (readEscape rest).bind fun (bytes, rest) =>
        (shortValue quote fuel rest).map fun (value, after) => (bytes ++ value, after)
    else if isBroken c then none
    else (shortValue quote fuel rest).map fun (value, after) => (c :: value, after)

/-- The text up to the closing bracket, as it is written: a carriage return in front of a line feed
is kept. -/
def longText (closing : Bytes) : Bytes → Option (Bytes × Bytes)
  | [] => none
  | c :: rest =>
    if closing.isPrefixOf (c :: rest) then some ([], (c :: rest).drop closing.length)
    else if c = 0 then none
    else (longText closing rest).map fun (text, after) => (c :: text, after)

def dropLineBreak : Bytes → Bytes
  | 13 :: 10 :: rest => rest
  | 10 :: rest => rest
  | text => text

/-- The value of the literal a text begins with, and what follows it. -/
def readLiteral (text : Bytes) : Option (Bytes × Bytes) :=
  match text with
  | [] => none
  | c :: rest =>
    if c = 34 || c = 39 then shortValue c rest.length rest
    else (longBracketLevel text).bind fun level =>
      (longText (closingBracket level) (text.drop (level + 2))).map fun (text, after) =>
        (dropLineBreak text, after)

/-- The value of a literal, with the line breaks in long brackets as they are written. -/
def literalValue (text : Bytes) : Option Bytes :=
  (readLiteral (text.dropWhile isSpace)).bind fun (value, after) =>
    if after.all isSpace then some value else none

def unifyLineBreaks : Bytes → Bytes
  | 13 :: 10 :: rest => 10 :: unifyLineBreaks rest
  | c :: rest => c :: unifyLineBreaks rest
  | [] => []

/-- The value of a literal in a running program. -/
def evaluateLiteral (text : Bytes) : Option Bytes :=
  if (text.dropWhile isSpace).head? = some 91 then (literalValue text).map unifyLineBreaks
  else literalValue text

example : literalValue (str "\"a\\x41\\65\\u\x7be9\x7d\\z  b\\n\"") =
    some [97, 65, 65, 195, 169, 98, 10] := by decide +kernel
example : literalValue (str " [=[\na]]]=] ") = some (str "a]]") := by decide +kernel
example : literalValue (str "\"a\\\"") = none := by decide +kernel
example : evaluateLiteral (str "[[\r\na\r\n\r]]") = some (str "a\n\r") := by decide +kernel

/-! ### How much of a text an escape takes -/

/-- The text behind the letter of an escape is a front without a backslash and what is behind
the escape. -/
def Takes (rest skipped after : Bytes) : Prop := rest = skipped ++ after ∧ 92 ∉ skipped

lemma takes_takeWhile {pred : UInt8 → Bool} (plain : pred 92 = false) (rest : Bytes) :
    Takes rest (rest.takeWhile pred) (rest.dropWhile pred) := by
  refine ⟨takeWhile_append_dropWhile.symm, fun mem => ?_⟩
  nomatch plain.symm.trans (mem_takeWhile_imp mem)

variable {after bytes rest : Bytes}

lemma readHexEscape_takes (read : readHexEscape rest = some (bytes, after)) :
    ∃ skipped, Takes rest skipped after ∧ bytes.length = 1 ∧ skipped.length = 2 := by
  rw [readHexEscape.eq_def] at read
  split at read
  · rename_i high low rest
    split at read
    · rename_i digits
      cases read
      refine ⟨[high, low], ⟨rfl, fun mem => ?_⟩, rfl, rfl⟩
      simp only [mem_cons, not_mem_nil, or_false] at mem
      rcases mem with rfl | rfl <;> simp [isHex, isDigit] at digits
    · nomatch read
  · nomatch read

lemma hexValue_lt (c : UInt8) : (hexValue c).getD 0 < 16 := by
  have bounds : ∀ low high : UInt8, (decide (low ≤ c) && decide (c ≤ high)) →
      low.toNat ≤ c.toNat ∧ c.toNat ≤ high.toNat := by
    intro low high between
    simpa [UInt8.le_iff_toNat_le] using between
  rw [hexValue, isDigit]
  split_ifs with digit lower upper
  · have := bounds 48 57 digit
    simp at this ⊢
    omega
  · have := bounds 97 102 lower
    simp at this ⊢
    omega
  · have := bounds 65 70 upper
    simp at this ⊢
    omega
  · decide

lemma hexNumber_single (c : UInt8) : hexNumber [c] < 16 := by
  have small := hexValue_lt c
  simpa [hexNumber] using small

lemma utf8_length {code : Nat} (encoded : utf8 code = some bytes) :
    bytes.length ≤ 4 ∧ (code < 16 → bytes.length = 1) := by
  rw [utf8] at encoded
  dsimp only at encoded
  split_ifs at encoded <;> cases encoded <;> simp <;> omega

lemma readCodePoint_takes (read : readCodePoint rest = some (bytes, after)) :
    ∃ skipped, Takes rest skipped after ∧ bytes.length ≤ skipped.length := by
  rw [readCodePoint.eq_def] at read
  split at read
  · rename_i rest
    dsimp only at read
    split at read
    · nomatch read
    · rename_i some
      split at read
      · rename_i after' behind
        obtain ⟨encoded, isBytes, same⟩ := Option.map_eq_some_iff.mp read
        cases same
        have taken : Takes rest (rest.takeWhile isHex) (rest.dropWhile isHex) :=
          takes_takeWhile (by decide) rest
        obtain ⟨split', noSlash⟩ := taken
        rw [behind] at split'
        refine ⟨123 :: rest.takeWhile isHex ++ [125], ⟨?_, ?_⟩, ?_⟩
        · simpa using split'
        · simp [noSlash]
        · obtain ⟨short, single⟩ := utf8_length isBytes
          simp only [length_append, length_cons, length_nil]
          generalize rest.takeWhile isHex = digits at *
          match digits with
          | [] => simp at some
          | [c] => have := single (hexNumber_single c); simp; omega
          | _ :: _ :: _ => simp; omega
      · nomatch read
  · nomatch read

lemma readDecimal_takes {first : UInt8} (read : readDecimal first rest = some (bytes, after)) :
    ∃ skipped, Takes rest skipped after ∧ bytes = [(decimalNumber (first :: skipped)).toUInt8] := by
  rw [readDecimal] at read
  split at read
  · cases read
    have front : (rest.take 2).takeWhile isDigit <+: rest :=
      (List.takeWhile_prefix _).trans (List.take_prefix _ _)
    refine ⟨_, ⟨(prefix_iff_eq_append.mp front).symm, fun mem => ?_⟩, rfl⟩
    exact absurd (mem_takeWhile_imp mem) (by decide)
  · nomatch read

end Rotor.Luau
