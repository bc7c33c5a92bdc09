import Rotor.Transformer.Literals
import Mathlib.Algebra.Ring.Int.Defs

/-!
Parts of template strings.

A template string becomes an interpolated string of Luau, part by part.  The text of a part is kept
as it is written, except that the renderer puts a backslash in front of braces and line breaks;
braces of a unicode escape are left alone.  In Luau an opening brace without a backslash begins an
expression.
-/

namespace Rotor.Transformer.TemplateParts

open List Luau Luau.Lex Luau.Cst Luau.Render Literals

variable {rest digits following : Bytes} {c : UInt8}

/-! ### Parts in TypeScript -/

/-- A line break as it may stand in a template string. -/
inductive LineBreak
  | lineFeed
  | carriageReturn
  | both

def LineBreak.text : LineBreak → Bytes
  | .lineFeed => [10]
  | .carriageReturn => [13]
  | .both => [13, 10]

/-- A plain byte, a line break, an escape of one letter, the two digits of `\x`, or the digits of
a unicode escape. -/
inductive PartItem
  | char (c : UInt8)
  | lineBreak (kind : LineBreak)
  | letter (e : UInt8)
  | hex (high low : UInt8)
  | unicode (digits : Bytes)

def PartItem.text : PartItem → Bytes
  | .char c => [c]
  | .lineBreak kind => kind.text
  | .letter e => [92, e]
  | .hex high low => [92, 120, high, low]
  | .unicode digits => [92, 117, 123] ++ digits ++ [125]

def partText (items : List PartItem) : Bytes := items.flatMap PartItem.text

/-- The escapes of a backslash, a backtick, a dollar sign and the braces, `\n` and `\t`. -/
def isPartLetter (e : UInt8) : Bool := [110, 116, 92, 96, 36, 123, 125].contains e

def codePoint (digits : Bytes) : Bytes := (utf8 (hexNumber digits)).getD []

def isHighSurrogate (code : Nat) : Bool := 0xD800 ≤ code && code < 0xDC00

def isLowSurrogate (code : Nat) : Bool := 0xDC00 ≤ code && code < 0xE000

/-- What an item stands for in TypeScript, in UTF-8: every line break is a line feed. Half of a
surrogate pair has no UTF-8 form. -/
def PartItem.value : PartItem → Option Bytes
  | .char c => some [c]
  | .lineBreak _ => some [10]
  | .letter e => some [unescapeByte e]
  | .hex high low => some (codePoint [high, low])
  | .unicode digits =>
    if isHighSurrogate (hexNumber digits) || isLowSurrogate (hexNumber digits) then none
    else some (codePoint digits)

/-- The code point of two code units of UTF-16. -/
def joinSurrogates (high low : Nat) : Nat := 0x10000 + (high - 0xD800) * 0x400 + (low - 0xDC00)

/-- The text of a part in TypeScript, in UTF-8; none where that has no form for it. -/
def cookedPart : List PartItem → Option Bytes
  | [] => some []
  | .unicode high :: .unicode low :: rest =>
    if isHighSurrogate (hexNumber high) && isLowSurrogate (hexNumber low) then
      (utf8 (joinSurrogates (hexNumber high) (hexNumber low))).bind fun bytes =>
        (cookedPart rest).map (bytes ++ ·)
    else (PartItem.unicode high).value.bind fun bytes =>
      (cookedPart (.unicode low :: rest)).map (bytes ++ ·)
  | item :: rest => item.value.bind fun bytes => (cookedPart rest).map (bytes ++ ·)

def PartItem.valid : PartItem → Bool
  | .char c => c != 96 && c != 92 && c != 10 && c != 13
  | .lineBreak _ => true
  | .letter e => isPartLetter e
  | .hex high low => isHex high && isHex low
  | .unicode digits => digits.all isHex && !digits.isEmpty && decide (hexNumber digits < 0x110000)

/-- Two items that are not read as one or as the start of an expression: a dollar sign is not
followed by an opening brace, and a carriage return not by a line feed. -/
def PartItem.separate : PartItem → PartItem → Bool
  | .char 36, .char 123 => false
  | .lineBreak .carriageReturn, .lineBreak .lineFeed => false
  | _, _ => true

def separated : List PartItem → Bool
  | first :: second :: rest => first.separate second && separated (second :: rest)
  | _ => true

structure TemplatePart where
  items : List PartItem
  valid : ∀ item ∈ items, item.valid = true
  separated : separated items = true

/-- `transformInterpolatedStringPart` of a template string without expressions, rendered. -/
def renderPart (part : TemplatePart) : Bytes :=
  renderInterpolatedStringPart
    (createStringFromLiteral .noSubstitutionTemplateLiteral (96 :: (partText part.items ++ [96])))

lemma renderPart_eq (part : TemplatePart) :
    renderPart part = renderInterpolatedStringPart (partText part.items) := by
  simp [renderPart, createStringFromLiteral]

/-! ### Parts in Luau -/

/-- What the text of a part stands for in Luau.  Without a backslash, a backtick ends the string,
an opening brace begins an expression and a line break is an error. -/
def interpolatedValue : Nat → Bytes → Option Bytes
  | 0, _ => none
  | _ + 1, [] => some []
  | fuel + 1, c :: rest =>
    if c = 96 ∨ c = 123 then none
    else if c = 92 then
      (readEscape rest).bind fun (bytes, rest) => (interpolatedValue fuel rest).map (bytes ++ ·)
    else if isBroken c then none
    else (interpolatedValue fuel rest).map (c :: ·)

/-! ### The renderer, item by item -/

lemma skipUnicodeEscape_length {text after : Bytes}
    (skipped : skipUnicodeEscape text = some after) :
    ∃ digits, text = 92 :: 117 :: 123 :: (digits ++ 125 :: after) := by
  rw [skipUnicodeEscape.eq_def] at skipped
  split at skipped
  · rename_i rest
    split at skipped
    · nomatch skipped
    · split at skipped
      · rename_i after' behind
        cases skipped
        refine ⟨rest.takeWhile isHexDigit, ?_⟩
        rw [← behind, takeWhile_append_dropWhile]
      · nomatch skipped
  · nomatch skipped

lemma escapeBraces_fuel {first second : Nat} {text : Bytes} (enough : text.length ≤ first)
    (enough' : text.length ≤ second) : escapeBraces first text = escapeBraces second text := by
  induction first generalizing second text with
  | zero =>
    obtain rfl := length_eq_zero_iff.mp (Nat.le_zero.mp enough)
    cases second <;> rfl
  | succ first ih =>
    cases text with
    | nil => cases second <;> rfl
    | cons c rest =>
      obtain ⟨second, rfl⟩ :=
        Nat.exists_eq_succ_of_ne_zero (Nat.ne_of_gt (Nat.zero_lt_of_lt enough'))
      simp only [length_cons, Nat.succ_eq_add_one, Nat.add_le_add_iff_right]
        at enough enough'
      rw [escapeBraces, escapeBraces]
      cases skipped : skipUnicodeEscape (c :: rest) with
      | none => simp only [ih enough enough']
      | some after =>
        obtain ⟨digits, text⟩ := skipUnicodeEscape_length skipped
        have lengths := congrArg List.length text
        simp only [length_cons, length_append] at lengths
        simp only [ih (show after.length ≤ first by omega) (show after.length ≤ second by omega)]

def braced (text : Bytes) : Bytes := escapeBraces text.length text

lemma braced_cons (plain : skipUnicodeEscape (c :: rest) = none) :
    braced (c :: rest) = (if c = 123 ∨ c = 125 then [92, c] else [c]) ++ braced rest := by
  rw [braced, length_cons, escapeBraces, plain]
  rfl

lemma braced_unicode {after : Bytes}
    (skipped : skipUnicodeEscape (92 :: 117 :: 123 :: (digits ++ 125 :: after)) = some after) :
    braced (92 :: 117 :: 123 :: (digits ++ 125 :: after)) =
      92 :: 117 :: 123 :: (digits ++ 125 :: braced after) := by
  rw [braced, length_cons, escapeBraces, skipped]
  have taken : (92 :: 117 :: 123 :: (digits ++ 125 :: after)).length - after.length =
      (92 :: 117 :: 123 :: (digits ++ [125])).length := by
    simp only [length_cons, length_append, length_nil]
    omega
  have split' : (92 :: 117 :: 123 :: (digits ++ 125 :: after) : Bytes) =
      (92 :: 117 :: 123 :: (digits ++ [125])) ++ after := by simp
  have front : (92 :: 117 :: 123 :: (digits ++ 125 :: after)).take
      ((92 :: 117 :: 123 :: (digits ++ 125 :: after)).length - after.length) =
      92 :: 117 :: 123 :: (digits ++ [125]) := by
    rw [taken, split', take_left]
  simp only [front]
  rw [braced, @escapeBraces_fuel _ after.length after]
  · simp
  · simp only [length_cons, length_append]
    omega
  · exact le_rfl

lemma skipUnicodeEscape_of_ne (other : c ≠ 92) : skipUnicodeEscape (c :: rest) = none := by
  rw [skipUnicodeEscape.eq_def]
  split
  · rename_i same
    exact absurd (List.cons.inj same).1 other
  · rfl

lemma skipUnicodeEscape_of_letter (other : c ≠ 117) :
    skipUnicodeEscape (92 :: c :: rest) = none := by
  rw [skipUnicodeEscape.eq_def]
  split
  · rename_i same
    exact absurd (List.cons.inj (List.cons.inj same).2).1 other
  · rfl

lemma skipUnicodeEscape_digits (all : digits.all isHex) (some' : digits ≠ []) (after : Bytes) :
    skipUnicodeEscape (92 :: 117 :: 123 :: (digits ++ 125 :: after)) = some after := by
  have same : ∀ c : UInt8, isHex c → isHexDigit c := by grind [isHex, isDigit, isHexDigit]
  have hexadecimal : ∀ c ∈ digits, isHexDigit c = true := fun c mem =>
    same c (all_eq_true.mp all c mem)
  have taken : (digits ++ 125 :: after).takeWhile isHexDigit = digits := by
    rw [takeWhile_append_of_pos hexadecimal, takeWhile_cons_of_neg (by decide), append_nil]
  have dropped : (digits ++ 125 :: after).dropWhile isHexDigit = 125 :: after := by
    rw [dropWhile_append_of_pos hexadecimal, dropWhile_cons_of_neg (by decide)]
  rw [skipUnicodeEscape, taken, dropped, if_neg (by simpa using some')]
  rfl

lemma escapeNewlines_cons (single : c = 13 → rest.head? ≠ some 10) : escapeNewlines (c :: rest) =
      (if c = 10 ∨ c = 13 then [92, c] else [c]) ++ escapeNewlines rest := by
  rw [escapeNewlines.eq_def]
  split
  · rename_i contradiction'
    nomatch contradiction'
  · rename_i rest' same
    obtain ⟨rfl, rfl⟩ := List.cons.inj same
    exact absurd rfl (single rfl)
  · rename_i same
    obtain ⟨rfl, rfl⟩ := List.cons.inj same
    rfl

lemma escapeNewlines_append {front : Bytes} (plain : ∀ c ∈ front, c ≠ 10 ∧ c ≠ 13)
    (rest : Bytes) : escapeNewlines (front ++ rest) = front ++ escapeNewlines rest := by
  induction front with
  | nil => rfl
  | cons c front ih =>
    obtain ⟨noLine, noReturn⟩ := plain c mem_cons_self
    rw [cons_append, escapeNewlines_cons (fun same => absurd same noReturn),
      if_neg (by simp [noLine, noReturn]),
      ih fun d mem => plain d (mem_cons_of_mem _ mem)]
    rfl

lemma render_eq (text : Bytes) :
    renderInterpolatedStringPart text = escapeNewlines (braced text) := rfl

def PartItem.rendered : PartItem → Bytes
  | .char c => if c = 123 ∨ c = 125 then [92, c] else [c]
  | .lineBreak kind => 92 :: kind.text
  | .letter e => 92 :: if e = 123 ∨ e = 125 then [92, e] else [e]
  | .hex high low => [92, 120, high, low]
  | .unicode digits => [92, 117, 123] ++ digits ++ [125]

lemma render_cons (plain : skipUnicodeEscape (c :: rest) = none) (noLine : c ≠ 10)
    (noReturn : c ≠ 13) :
    renderInterpolatedStringPart (c :: rest) =
      (if c = 123 ∨ c = 125 then [92, c] else [c]) ++ renderInterpolatedStringPart rest := by
  rw [render_eq, braced_cons plain, escapeNewlines_append]
  · rfl
  · intro d mem
    split at mem
    · rcases mem_cons.mp mem with rfl | mem
      · decide
      · rw [mem_singleton.mp mem]
        exact ⟨noLine, noReturn⟩
    · rw [mem_singleton.mp mem]
      exact ⟨noLine, noReturn⟩

lemma head_braced (head : (braced rest).head? = some 10) : rest.head? = some 10 := by
  cases rest with
  | nil => nomatch head
  | cons c rest =>
    cases skipped : skipUnicodeEscape (c :: rest) with
    | none =>
      rw [braced_cons skipped] at head
      split at head
      · exact absurd (Option.some.inj head) (by decide)
      · exact head
    | some after =>
      obtain ⟨digits, text⟩ := skipUnicodeEscape_length skipped
      rw [text] at skipped head
      rw [braced_unicode skipped] at head
      exact absurd (Option.some.inj head) (by decide)

lemma isHex_plain : ∀ c : UInt8, isHex c → c ≠ 92 ∧ c ≠ 10 ∧ c ≠ 13 ∧ ¬(c = 123 ∨ c = 125) := by
  grind [isHex, isDigit]

lemma render_hexDigit (digit : isHex c) (rest : Bytes) :
    renderInterpolatedStringPart (c :: rest) = c :: renderInterpolatedStringPart rest := by
  obtain ⟨noSlash, noLine, noReturn, noBrace⟩ := isHex_plain c digit
  rw [render_cons (skipUnicodeEscape_of_ne noSlash) noLine noReturn, if_neg noBrace]
  rfl

lemma render_letter {e : UInt8} (letter : isPartLetter e)
    (plain : skipUnicodeEscape (e :: rest) = none) :
    renderInterpolatedStringPart (92 :: e :: rest) =
      (PartItem.letter e).rendered ++ renderInterpolatedStringPart rest := by
  have other : ∀ e : UInt8, isPartLetter e → e ≠ 117 ∧ e ≠ 10 ∧ e ≠ 13 :=
    forall_byte (by decide +kernel)
  obtain ⟨noUnicode, noLine, noReturn⟩ := other e letter
  rw [render_cons (skipUnicodeEscape_of_letter noUnicode) (by decide) (by decide),
    if_neg (by decide), render_cons plain noLine noReturn]
  rfl

variable {item : PartItem} {items : List PartItem}

/-- An item is rendered by itself, unless it is an escaped backslash that the text behind it makes
look like a unicode escape. -/
theorem render_item (valid : item.valid)
    (escaped : item = .letter 92 → skipUnicodeEscape (92 :: rest) = none)
    (single : item = .lineBreak .carriageReturn → rest.head? ≠ some 10) :
    renderInterpolatedStringPart (item.text ++ rest) =
      item.rendered ++ renderInterpolatedStringPart rest := by
  cases item with
  | char c =>
    simp only [PartItem.valid, Bool.and_eq_true, bne_iff_ne] at valid
    obtain ⟨⟨⟨-, noSlash⟩, noLine⟩, noReturn⟩ := valid
    exact render_cons (skipUnicodeEscape_of_ne noSlash) noLine noReturn
  | lineBreak kind =>
    have plain : ∀ c : UInt8, ∀ more : Bytes, c = 10 ∨ c = 13 →
        braced (c :: more) = c :: braced more := by
      intro c more isBreak
      have noSlash : c ≠ 92 := by rcases isBreak with rfl | rfl <;> decide
      have noBrace : ¬(c = 123 ∨ c = 125) := by rcases isBreak with rfl | rfl <;> decide
      rw [braced_cons (skipUnicodeEscape_of_ne noSlash), if_neg noBrace]
      rfl
    cases kind with
    | lineFeed =>
      simp only [PartItem.text, LineBreak.text, singleton_append, render_eq]
      rfl
    | carriageReturn =>
      simp only [PartItem.text, LineBreak.text, singleton_append, render_eq]
      rw [plain 13 _ (.inr rfl), escapeNewlines_cons fun _ head => single rfl (head_braced head)]
      rfl
    | both =>
      simp only [PartItem.text, LineBreak.text, cons_append, nil_append, render_eq]
      rfl
  | letter e =>
    by_cases slash : e = 92
    · subst slash
      exact render_letter valid (escaped rfl)
    · exact render_letter valid (skipUnicodeEscape_of_ne slash)
  | hex high low =>
    simp only [PartItem.valid, Bool.and_eq_true] at valid
    simp only [PartItem.text, PartItem.rendered, cons_append, nil_append]
    rw [render_cons (skipUnicodeEscape_of_letter (by decide)) (by decide) (by decide),
      if_neg (by decide),
      render_cons (skipUnicodeEscape_of_ne (by decide)) (by decide) (by decide),
      if_neg (by decide), render_hexDigit valid.1, render_hexDigit valid.2]
    rfl
  | unicode digits =>
    simp only [PartItem.valid, Bool.and_eq_true, Bool.not_eq_true', isEmpty_eq_false_iff]
      at valid
    obtain ⟨⟨all, some'⟩, -⟩ := valid
    simp only [PartItem.text, PartItem.rendered, cons_append, nil_append, append_assoc, render_eq]
    rw [braced_unicode (skipUnicodeEscape_digits all some' rest)]
    have plain : ∀ c ∈ 92 :: 117 :: 123 :: (digits ++ [125]), c ≠ 10 ∧ c ≠ 13 := by
      have digit : ∀ c ∈ digits, c ≠ 10 ∧ c ≠ 13 := fun c mem =>
        have facts := isHex_plain c (all_eq_true.mp all c mem)
        ⟨facts.2.1, facts.2.2.1⟩
      intro c mem
      simp only [mem_cons, mem_append, not_mem_nil, or_false] at mem
      rcases mem with rfl | rfl | rfl | mem | rfl
      · decide
      · decide
      · decide
      · exact digit c mem
      · decide
    have split' : (92 :: 117 :: 123 :: (digits ++ 125 :: braced rest) : Bytes) =
        (92 :: 117 :: 123 :: (digits ++ [125])) ++ braced rest := by simp
    rw [split', escapeNewlines_append plain]
    simp

/-! ### Reading the rendered text -/

/-- An escaped backslash whose rendering leaves a brace open: with the text behind it, it looks
like a unicode escape. -/
def looksUnicode (following : Bytes) : Bool := (skipUnicodeEscape (92 :: following)).isSome

def PartItem.read (following : Bytes) : PartItem → Option Bytes
  | .char c => if c = 0 then none else some [c]
  | .lineBreak _ => some [10]
  | .letter e =>
    if e = 123 ∨ e = 92 ∧ looksUnicode following = true then none
    else if e = 125 then some [92, 125]
    else some [unescapeByte e]
  | .hex high low => some [(hexCode high low).toUInt8]
  | .unicode digits => if 16 < digits.length then none else some (codePoint digits)

def readItems : List PartItem → Option Bytes
  | [] => some []
  | item :: rest =>
    (item.read (partText rest)).bind fun bytes => (readItems rest).map (bytes ++ ·)

def Reads (text : Bytes) (value : Option Bytes) : Prop :=
  ∀ fuel, text.length < fuel → interpolatedValue fuel text = value

variable {val : Option Bytes}

lemma reads_escape {text bytes : Bytes} (read : readEscape text = some (bytes, rest))
    (shorter : rest.length ≤ text.length) (reads : Reads rest val) :
    Reads (92 :: text) (val.map (bytes ++ ·)) := by
  rintro (_ | fuel) enough
  · exact absurd enough (Nat.not_lt_zero _)
  · rw [length_cons] at enough
    rw [interpolatedValue, if_neg (by decide), if_pos rfl, read, Option.bind_some]
    dsimp only
    rw [reads fuel (by omega)]

lemma reads_plainEscape {e : UInt8} (plain : plainEscape e) (reads : Reads rest val) :
    Reads (92 :: e :: rest) (val.map (unescapeByte e :: ·)) :=
  reads_escape (readEscape_plain plain rest) (Nat.le_succ _) reads

lemma reads_char (noTick : c ≠ 96) (noBrace : c ≠ 123) (noSlash : c ≠ 92) (noLine : c ≠ 10)
    (noReturn : c ≠ 13) (reads : Reads rest val) :
    Reads (c :: rest) (if c = 0 then none else val.map (c :: ·)) := by
  rintro (_ | fuel) enough
  · exact absurd enough (Nat.not_lt_zero _)
  · rw [interpolatedValue, if_neg (by simp [noTick, noBrace]), if_neg noSlash,
      reads fuel (Nat.lt_of_succ_lt_succ enough)]
    simp [isBroken, noLine, noReturn]

lemma reads_brace (rest : Bytes) : Reads (123 :: rest) none := by
  rintro (_ | fuel) _
  · rfl
  · rw [interpolatedValue, if_pos (.inr rfl)]

lemma readEscape_lineBreak (kind : LineBreak)
    (single : kind = .carriageReturn → rest.head? ≠ some 10) :
    readEscape (kind.text ++ rest) = some ([10], rest) := by
  cases kind with
  | lineFeed => rfl
  | carriageReturn =>
    change some ([10], if rest.head? = some 10 then rest.tail else rest) = some ([10], rest)
    rw [if_neg (single rfl)]
  | both => rfl

lemma utf8_codePoint {code : Nat} (small : code < 0x110000) :
    utf8 code = some ((utf8 code).getD []) := by
  rw [utf8]
  split_ifs <;> rfl

lemma readEscape_unicode (valid : (PartItem.unicode digits).valid) (rest : Bytes) :
    readEscape (117 :: 123 :: (digits ++ 125 :: rest)) =
      if 16 < digits.length then none else some (codePoint digits, rest) := by
  simp only [PartItem.valid, Bool.and_eq_true, Bool.not_eq_true', isEmpty_eq_false_iff,
    decide_eq_true_eq] at valid
  obtain ⟨⟨all, some'⟩, small⟩ := valid
  have hexadecimal : ∀ c ∈ digits, isHex c := all_eq_true.mp all
  have taken : (digits ++ 125 :: rest).takeWhile isHex = digits := by
    rw [takeWhile_append_of_pos hexadecimal, takeWhile_cons_of_neg (by decide), append_nil]
  have dropped : (digits ++ 125 :: rest).dropWhile isHex = 125 :: rest := by
    rw [dropWhile_append_of_pos hexadecimal, dropWhile_cons_of_neg (by decide)]
  rw [readEscape, if_neg (by decide), if_pos rfl, readCodePoint, taken, dropped]
  simp only [some', false_or]
  split
  · rfl
  · rw [codePoint, utf8_codePoint small]
    rfl

lemma reads_item (valid : item.valid) (escaped : item = .letter 92 → looksUnicode following = false)
    (single : item = .lineBreak .carriageReturn → rest.head? ≠ some 10) (reads : Reads rest val) :
    Reads (item.rendered ++ rest)
      ((item.read following).bind fun bytes => val.map (bytes ++ ·)) := by
  cases item with
  | char c =>
    simp only [PartItem.valid, Bool.and_eq_true, bne_iff_ne] at valid
    obtain ⟨⟨⟨noTick, noSlash⟩, noLine⟩, noReturn⟩ := valid
    simp only [PartItem.rendered, PartItem.read]
    by_cases brace : c = 123 ∨ c = 125
    · rw [if_pos brace]
      rcases brace with rfl | rfl
      · exact reads_plainEscape rfl reads
      · exact reads_plainEscape rfl reads
    · rw [if_neg brace]
      have plain := reads_char noTick (fun same => brace (.inl same)) noSlash noLine noReturn reads
      split at plain <;> rename_i zero
      · rw [if_pos zero]
        exact plain
      · rw [if_neg zero]
        exact plain
  | lineBreak kind =>
    have read := readEscape_lineBreak kind fun same => single (congrArg _ same)
    exact reads_escape read (by simp) reads
  | letter e =>
    have plainLetter : ∀ e : UInt8, isPartLetter e → plainEscape e :=
      forall_byte (by decide +kernel)
    simp only [PartItem.rendered, PartItem.read]
    by_cases opening : e = 123
    · -- the escaped backslash leaves the brace open
      rw [if_pos (.inl opening), if_pos (.inl opening), opening]
      exact reads_plainEscape rfl (reads_brace rest)
    · have goesOn : ¬(e = 123 ∨ e = 92 ∧ looksUnicode following) := by
        rintro (same | ⟨rfl, looks⟩)
        · exact opening same
        · exact Bool.false_ne_true ((escaped rfl).symm.trans looks)
      rw [if_neg goesOn]
      by_cases closing : e = 125
      · rw [if_pos (.inr closing), if_pos closing, closing]
        have brace := reads_char (c := 125) (by decide) (by decide) (by decide) (by decide)
          (by decide) reads
        have both := reads_plainEscape (e := 92) rfl brace
        rw [if_neg (by decide), Option.map_map] at both
        exact both
      · rw [if_neg (by simp [opening, closing]), if_neg closing]
        exact reads_plainEscape (plainLetter e valid) reads
  | hex high low =>
    simp only [PartItem.valid, Bool.and_eq_true] at valid
    have read : readEscape (120 :: high :: low :: rest) =
        some ([(hexCode high low).toUInt8], rest) := by
      rw [readEscape, if_pos rfl, readHexEscape, valid.1, valid.2]
      rfl
    exact reads_escape read (Nat.le_add_right _ 3) reads
  | unicode digits =>
    have read := readEscape_unicode valid rest
    simp only [PartItem.rendered, PartItem.read, cons_append, nil_append, append_assoc]
    split at read <;> rename_i many
    · rw [if_pos many]
      rintro (_ | fuel) _
      · rfl
      · rw [interpolatedValue, if_neg (by decide), if_pos rfl, read]
        rfl
    · rw [if_neg many]
      exact reads_escape read (by simp only [length_cons, length_append]; omega) reads

lemma head_render (text : Bytes) : (renderInterpolatedStringPart text).head? ≠ some 10 := by
  rw [render_eq]
  generalize braced text = text
  rw [escapeNewlines.eq_def]
  split
  · exact fun impossible => nomatch impossible
  · exact fun same => absurd (Option.some.inj same) (by decide)
  · rename_i c rest _
    split
    · exact fun same => absurd (Option.some.inj same) (by decide)
    · rename_i noBreak
      exact fun same => noBreak (.inl (Option.some.inj same))

lemma head_partText (valid : ∀ item ∈ items, item.valid)
    (head : (partText items).head? = some 10) : ∃ rest, items = .lineBreak .lineFeed :: rest := by
  cases items with
  | nil => nomatch head
  | cons item rest =>
    have first := valid item mem_cons_self
    cases item with
    | char c =>
      simp only [PartItem.valid, Bool.and_eq_true, bne_iff_ne] at first
      exact absurd (Option.some.inj head) first.1.2
    | lineBreak kind =>
      cases kind with
      | lineFeed => exact ⟨rest, rfl⟩
      | carriageReturn => exact absurd (Option.some.inj head) (by decide)
      | both => exact absurd (Option.some.inj head) (by decide)
    | letter e => exact absurd (Option.some.inj head) (by decide)
    | hex high low => exact absurd (Option.some.inj head) (by decide)
    | unicode digits => exact absurd (Option.some.inj head) (by decide)

/-- An escaped backslash that the text behind it makes look like a unicode escape: its brace stays
as it is, and begins an expression. -/
theorem reads_looksUnicode (looks : looksUnicode following) :
    Reads (renderInterpolatedStringPart (92 :: 92 :: following)) none := by
  obtain ⟨after, skipped⟩ := Option.isSome_iff_exists.mp looks
  obtain ⟨digits, text⟩ := skipUnicodeEscape_length skipped
  rw [text] at skipped
  rw [text, render_cons (skipUnicodeEscape_of_letter (by decide)) (by decide) (by decide),
    if_neg (by decide), render_eq, braced_unicode skipped]
  have front : ∀ c ∈ [92, 117, 123], (c : UInt8) ≠ 10 ∧ c ≠ 13 := by simp
  have kept := escapeNewlines_append front (digits ++ 125 :: braced after)
  simp only [cons_append, nil_append] at kept
  have letter := reads_char (c := 117) (by decide) (by decide) (by decide) (by decide) (by decide)
    (reads_brace (escapeNewlines (digits ++ 125 :: braced after)))
  exact reads_plainEscape (e := 92) rfl letter

lemma reads_render (valid : ∀ item ∈ items, item.valid) (apart : separated items) :
    Reads (renderInterpolatedStringPart (partText items)) (readItems items) := by
  induction items with
  | nil =>
    rintro (_ | fuel) enough
    · exact absurd enough (Nat.not_lt_zero _)
    · rfl
  | cons item rest ih =>
    rw [forall_mem_cons] at valid
    have restApart : separated rest := by
      cases rest with
      | nil => rfl
      | cons second rest => exact (Bool.and_eq_true_iff.mp apart).2
    have text : partText (item :: rest) = item.text ++ partText rest := rfl
    rw [text, readItems]
    by_cases looks : item = .letter 92 ∧ looksUnicode (partText rest)
    · obtain ⟨rfl, looks⟩ := looks
      have read : PartItem.read (partText rest) (.letter 92) = none := if_pos (.inr ⟨rfl, looks⟩)
      rw [read]
      exact reads_looksUnicode looks
    · have escaped : item = .letter 92 → looksUnicode (partText rest) = false := fun same =>
        Bool.eq_false_iff.mpr fun true' => looks ⟨same, true'⟩
      have skips : item = .letter 92 → skipUnicodeEscape (92 :: partText rest) = none :=
        fun same => Option.not_isSome_iff_eq_none.mp (Bool.eq_false_iff.mp (escaped same))
      have single : item = .lineBreak .carriageReturn → (partText rest).head? ≠ some 10 := by
        rintro rfl head
        obtain ⟨more, rfl⟩ := head_partText valid.2 head
        exact absurd (Bool.and_eq_true_iff.mp apart).1 (by decide)
      rw [render_item valid.1 skips single]
      exact reads_item valid.1 escaped (fun _ => head_render _) (ih valid.2 restApart)

/-! ### Parts that are kept -/

/-- The items that keep their value in front of a text: not a zero byte, an escaped brace, an
escaped backslash in front of what looks like a unicode escape with it, `\x` from 128 on, or a
unicode escape of more than sixteen digits or of a surrogate. -/
def PartItem.kept (following : Bytes) : PartItem → Bool
  | .char c => c != 0
  | .lineBreak _ => true
  | .letter e => e != 123 && e != 125 && !(e == 92 && looksUnicode following)
  | .hex high low => decide (hexCode high low < 128)
  | .unicode digits => decide (digits.length ≤ 16) &&
    !(isHighSurrogate (hexNumber digits) || isLowSurrogate (hexNumber digits))

def keptItems : List PartItem → Bool
  | [] => true
  | item :: rest => item.kept (partText rest) && keptItems rest

lemma codePoint_ascii (small : hexNumber digits < 128) :
    codePoint digits = [(hexNumber digits).toUInt8] := by
  rw [codePoint, utf8, if_pos small]
  rfl

lemma PartItem.read_of_kept (kept : item.kept following) :
    item.read following = item.value := by
  cases item with
  | char c => exact if_neg (by simpa [PartItem.kept] using kept)
  | lineBreak kind => rfl
  | letter e =>
    simp only [PartItem.kept, Bool.and_eq_true, bne_iff_ne, Bool.not_eq_true',
      Bool.and_eq_false_iff, beq_eq_false_iff_ne] at kept
    obtain ⟨⟨noOpening, noClosing⟩, noUnicode⟩ := kept
    have reads : ¬(e = 123 ∨ e = 92 ∧ looksUnicode following) := by
      rintro (same | ⟨same, looks⟩)
      · exact noOpening same
      · rcases noUnicode with other | no
        · exact other same
        · rw [looks] at no
          nomatch no
    rw [PartItem.read, if_neg reads, if_neg noClosing]
    rfl
  | hex high low =>
    have small : hexNumber [high, low] < 128 := of_decide_eq_true kept
    rw [PartItem.read, PartItem.value, codePoint_ascii small]
    rfl
  | unicode digits =>
    simp only [PartItem.kept, Bool.and_eq_true, decide_eq_true_eq, Bool.not_eq_true'] at kept
    rw [PartItem.read, PartItem.value, if_neg (Nat.not_lt.mpr kept.1), kept.2]
    rfl

/-- The ASCII bytes of a text and those that begin a surrogate, less the others.  A part that is not
kept weighs too much. -/
def weight (bytes : Bytes) : Int :=
  (bytes.map fun b => if b.toNat < 128 ∨ b.toNat = 237 then 1 else -1).sum

lemma weight_append (front back : Bytes) :
    weight (front ++ back) = weight front + weight back := by
  simp [weight]

lemma weight_surrogate {code : Nat} (surrogate : isHighSurrogate code ∨ isLowSurrogate code) :
    weight ((utf8 code).getD []) = -1 := by
  simp only [isHighSurrogate, isLowSurrogate, Bool.and_eq_true, decide_eq_true_eq] at surrogate
  have lead : code / 4096 = 13 := by omega
  rw [utf8, if_neg (by omega), if_neg (by omega), if_pos (by omega)]
  simp only [Option.getD_some, weight, map_cons, map_nil, sum_cons, sum_nil, Nat.toUInt8_eq,
    UInt8.toNat_ofNat', Nat.reducePow, lead, or_true, if_true]
  split_ifs <;> omega

lemma joinSurrogates_range {high low : Nat} (isHigh : isHighSurrogate high)
    (isLow : isLowSurrogate low) :
    0x10000 ≤ joinSurrogates high low ∧ joinSurrogates high low < 0x110000 := by
  simp only [isHighSurrogate, isLowSurrogate, Bool.and_eq_true, decide_eq_true_eq] at isHigh isLow
  unfold joinSurrogates
  constructor <;> omega

lemma weight_four {code : Nat} (range : 0x10000 ≤ code ∧ code < 0x110000) {bytes : Bytes}
    (encoded : utf8 code = some bytes) : weight bytes = -4 := by
  rw [utf8, if_neg (by omega), if_neg (by omega), if_neg (by omega), if_pos (by omega)] at encoded
  cases encoded
  simp only [weight, map_cons, map_nil, sum_cons, sum_nil, Nat.toUInt8_eq, UInt8.toNat_ofNat',
    Nat.reducePow]
  split_ifs <;> omega

lemma PartItem.read_weight {bytes val : Bytes} (read : item.read following = some bytes)
    (cooked : item.value = some val) :
    item.kept following ∧ bytes = val ∨ weight val < weight bytes := by
  cases kept : item.kept following with
  | true =>
    rw [PartItem.read_of_kept kept, cooked] at read
    exact .inl ⟨rfl, (Option.some.inj read).symm⟩
  | false =>
    right
    cases item with
    | char c =>
      have zero : c = 0 := by simpa [PartItem.kept] using kept
      rw [PartItem.read, if_pos zero] at read
      nomatch read
    | lineBreak kind => nomatch kept
    | letter e =>
      simp only [PartItem.kept, Bool.and_eq_false_iff, bne_eq_false_iff_eq,
        Bool.not_eq_false', Bool.and_eq_true, beq_iff_eq] at kept
      rw [PartItem.read, Option.ite_none_left_eq_some] at read
      obtain ⟨reads, read⟩ := read
      rcases kept with (opening | rfl) | looks
      · exact absurd (.inl opening) reads
      · cases read
        cases cooked
        decide
      · exact absurd (.inr looks) reads
    | hex high low =>
      cases read
      cases cooked
      have latin : ∀ code < 256, ¬ code < 128 →
          weight ((utf8 code).getD []) < weight [code.toUInt8] := by decide +kernel
      exact latin _ (hexCode_lt high low) (of_decide_eq_false kept)
    | unicode digits =>
      rw [PartItem.read, Option.ite_none_left_eq_some] at read
      rw [PartItem.value, Option.ite_none_left_eq_some] at cooked
      simp only [PartItem.kept, Bool.and_eq_false_iff, decide_eq_false_iff_not,
        Bool.not_eq_false'] at kept
      exact (kept.elim (fun many => read.1 (Nat.not_le.mp many)) cooked.1).elim

lemma readItems_weight {bytes val : Bytes} (read : readItems items = some bytes)
    (cooked : cookedPart items = some val) :
    keptItems items ∧ bytes = val ∨ weight val < weight bytes := by
  -- One item and the rest.
  have one : ∀ {item : PartItem} {rest : List PartItem} {bytes val : Bytes},
      (∀ {bytes val}, readItems rest = some bytes → cookedPart rest = some val →
        keptItems rest ∧ bytes = val ∨ weight val < weight bytes) →
      readItems (item :: rest) = some bytes →
      (item.value.bind fun front => (cookedPart rest).map (front ++ ·)) = some val →
      keptItems (item :: rest) ∧ bytes = val ∨ weight val < weight bytes := by
    intro item rest bytes val ih read cooked
    obtain ⟨front, readFront, read⟩ := Option.bind_eq_some_iff.mp read
    obtain ⟨back, readBack, rfl⟩ := Option.map_eq_some_iff.mp read
    obtain ⟨front', cookedFront, cooked⟩ := Option.bind_eq_some_iff.mp cooked
    obtain ⟨back', cookedBack, rfl⟩ := Option.map_eq_some_iff.mp cooked
    rw [keptItems, Bool.and_eq_true, weight_append, weight_append]
    rcases PartItem.read_weight readFront cookedFront with ⟨kept, rfl⟩ | heavy <;>
      rcases ih readBack cookedBack with ⟨keptRest, rfl⟩ | heavyRest
    · exact .inl ⟨⟨kept, keptRest⟩, rfl⟩
    all_goals
      right
      omega
  fun_induction cookedPart items generalizing bytes val with
  | case1 =>
    cases read
    cases cooked
    exact .inl ⟨rfl, rfl⟩
  | case2 high low rest surrogates ih =>
    -- A pair is read as two code points of three bytes each.
    right
    rw [Bool.and_eq_true] at surrogates
    obtain ⟨first, readFirst, read⟩ := Option.bind_eq_some_iff.mp read
    obtain ⟨later, readLater, rfl⟩ := Option.map_eq_some_iff.mp read
    obtain ⟨second, readSecond, readLater⟩ := Option.bind_eq_some_iff.mp readLater
    obtain ⟨back, readBack, rfl⟩ := Option.map_eq_some_iff.mp readLater
    obtain ⟨pair, encoded, cooked⟩ := Option.bind_eq_some_iff.mp cooked
    obtain ⟨back', cookedBack, rfl⟩ := Option.map_eq_some_iff.mp cooked
    rw [PartItem.read, Option.ite_none_left_eq_some] at readFirst readSecond
    cases readFirst.2
    cases readSecond.2
    have high' := weight_surrogate (.inl surrogates.1)
    have low' := weight_surrogate (.inr surrogates.2)
    have pair' := weight_four (joinSurrogates_range surrogates.1 surrogates.2) encoded
    have rest' : weight back' ≤ weight back := by
      rcases ih readBack cookedBack with ⟨-, rfl⟩ | heavy
      · exact Int.le_refl _
      · exact Int.le_of_lt heavy
    rw [weight_append, weight_append, weight_append, codePoint, codePoint]
    omega
  | case3 high low rest _ ih => exact one ih read cooked
  | case4 item rest _ ih => exact one ih read cooked

lemma cookedPart_cons {item : PartItem} {rest : List PartItem} (kept : item.kept (partText rest)) :
    cookedPart (item :: rest) =
      item.value.bind fun bytes => (cookedPart rest).map (bytes ++ ·) := by
  rw [cookedPart.eq_def]
  split
  · next none => nomatch none
  · next high low rest' same =>
    obtain ⟨rfl, rfl⟩ := List.cons.inj same
    simp only [PartItem.kept, Bool.and_eq_true, Bool.not_eq_true', Bool.or_eq_false_iff] at kept
    rw [if_neg (by simp [kept.2.1])]
  · next other same =>
    obtain ⟨rfl, rfl⟩ := List.cons.inj same
    rfl

lemma readItems_of_kept (kept : keptItems items) :
    ∃ val, readItems items = some val ∧ cookedPart items = some val := by
  induction items with
  | nil => exact ⟨[], rfl, rfl⟩
  | cons item rest ih =>
    rw [keptItems, Bool.and_eq_true] at kept
    obtain ⟨back, readBack, cookedBack⟩ := ih kept.2
    obtain ⟨front, cooked⟩ : ∃ front, item.value = some front := by
      cases item with
      | unicode digits =>
        have known := kept.1
        simp only [PartItem.kept, Bool.and_eq_true, Bool.not_eq_true'] at known
        exact ⟨codePoint digits, by rw [PartItem.value, known.2]; rfl⟩
      | _ => exact ⟨_, rfl⟩
    refine ⟨front ++ back, ?_, ?_⟩
    · rw [readItems, PartItem.read_of_kept kept.1, cooked, readBack]
      rfl
    · rw [cookedPart_cons kept.1, cooked, cookedBack]
      rfl

/-- A rendered part has no bare backtick and no bare opening brace, and stands for what the part
stands for in TypeScript, exactly when all its items are kept. -/
theorem renderPart_reads_iff (part : TemplatePart) :
    (∃ value, interpolatedValue ((renderPart part).length + 1) (renderPart part) = some value ∧
      cookedPart part.items = some value) ↔ keptItems part.items = true := by
  rw [renderPart_eq, reads_render part.valid part.separated _ (Nat.lt_succ_self _)]
  refine ⟨?_, readItems_of_kept⟩
  rintro ⟨value, read, cooked⟩
  rcases readItems_weight read cooked with ⟨kept, -⟩ | heavy
  · exact kept
  · exact absurd heavy (Int.lt_irrefl _)

/-- An escaped brace is rendered as an escaped backslash and a bare brace. -/
theorem renderPart_opensExpression : renderPart ⟨[.letter 123], by decide, rfl⟩ = [92, 92, 123] ∧
      interpolatedValue 4 [92, 92, 123] = none ∧ cookedPart [.letter 123] = some [123] := by
  decide +kernel

example : cookedPart [.unicode (str "D83D"), .unicode (str "DE00")] =
        some [0xF0, 0x9F, 0x98, 0x80] ∧ cookedPart [.unicode (str "DE00")] = none := by
  decide +kernel

end Rotor.Transformer.TemplateParts
