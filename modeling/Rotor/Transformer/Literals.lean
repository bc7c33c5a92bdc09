import Rotor.Luau.Render.Literals

/-!
String literals of TypeScript.

The transformer takes the text of a literal as it is written, without its quotes, and the renderer
puts it between quotes that do not occur in it, or else in long brackets.  A literal's body is a
sequence of plain bytes and escapes; this module compares what it stands for in TypeScript with
what the rendered literal stands for in Luau.
-/

namespace Rotor.Transformer.Literals

open List Luau Luau.Lex Luau.Cst Luau.Render

/-- The kinds of literals that `createStringFromLiteral` takes the delimiters off. -/
inductive LiteralKind
  | stringLiteral
  | noSubstitutionTemplateLiteral
  | templateHead
  | templateMiddle
  | templateTail

/-- The text between the delimiters: `${` ends a head and a middle part. -/
def createStringFromLiteral (kind : LiteralKind) (text : Bytes) : Bytes :=
  match kind with
  | .stringLiteral | .noSubstitutionTemplateLiteral | .templateTail =>
    (text.drop 1).take (text.length - 2)
  | .templateHead | .templateMiddle => (text.drop 1).take (text.length - 3)

/-! ### Bodies -/

/-- A plain byte, an escape of one letter, or the two digits of `\x`. -/
inductive BodyItem
  | char (c : UInt8)
  | letter (e : UInt8)
  | hex (high low : UInt8)

/-- The escapes `\n`, `\t`, `\r`, `\\`, `\"` and `\'`. -/
def isEscapeLetter (e : UInt8) : Bool := [110, 116, 114, 92, 34, 39].contains e

def BodyItem.text : BodyItem → Bytes
  | .char c => [c]
  | .letter e => [92, e]
  | .hex high low => [92, 120, high, low]

def hexCode (high low : UInt8) : Nat := hexNumber [high, low]

/-- What an item stands for in TypeScript, in UTF-8: the digits of `\x` are a code point. -/
def BodyItem.value : BodyItem → Bytes
  | .char c => [c]
  | .letter e => [unescapeByte e]
  | .hex high low => (utf8 (hexCode high low)).getD []

/-- The items of a literal in these quotes: there is no bare quote and no line break in it. -/
def BodyItem.valid (quote : UInt8) : BodyItem → Bool
  | .char c => c != quote && c != 92 && c != 10 && c != 13
  | .letter e => isEscapeLetter e
  | .hex high low => isHex high && isHex low

structure StringLiteral where
  quote : UInt8
  items : List BodyItem
  isQuote : quote = 34 ∨ quote = 39
  valid : ∀ item ∈ items, item.valid quote = true

def bodyText (items : List BodyItem) : Bytes := items.flatMap BodyItem.text

def cooked (items : List BodyItem) : Bytes := items.flatMap BodyItem.value

def StringLiteral.text (literal : StringLiteral) : Bytes :=
  literal.quote :: (bodyText literal.items ++ [literal.quote])

def renderLiteral (slot : Slot) (literal : StringLiteral) : Bytes :=
  renderStringLiteral slot (createStringFromLiteral .stringLiteral literal.text)

lemma createStringFromLiteral_text (literal : StringLiteral) :
    createStringFromLiteral .stringLiteral literal.text = bodyText literal.items := by
  simp [createStringFromLiteral, StringLiteral.text]

/-! ### Between quotes -/

def BodyItem.bytes : BodyItem → Bytes
  | .char c => [c]
  | .letter e => [unescapeByte e]
  | .hex high low => [(hexCode high low).toUInt8]

lemma plainEscape_of_letter : ∀ e : UInt8, isEscapeLetter e → plainEscape e :=
  forall_byte (by decide +kernel)

lemma ne_zero_of_isHex : ∀ c : UInt8, isHex c → c ≠ 0 := by grind [isHex, isDigit]

lemma ne_zero_of_letter : ∀ c : UInt8, isEscapeLetter c → c ≠ 0 := by grind [isEscapeLetter]

variable {other quote : UInt8} {item : BodyItem}

lemma shortValue_item (valid : item.valid other) (absent : quote ∉ item.text)
    (notSlash : quote ≠ 92) (fuel : Nat) (rest : Bytes) :
    shortValue quote (fuel + 1) (item.text ++ rest) =
      if 0 ∈ item.text then none
      else (shortValue quote fuel rest).map fun (val, after) =>
        (item.bytes ++ val, after) := by
  cases item with
  | char c =>
    simp only [BodyItem.valid, Bool.and_eq_true, bne_iff_ne] at valid
    obtain ⟨⟨⟨-, plain⟩, noLine⟩, noReturn⟩ := valid
    have notQuote : c ≠ quote := fun same => absent (by simp [BodyItem.text, same])
    simp only [BodyItem.text, singleton_append, shortValue, if_neg notQuote, if_neg plain,
      mem_singleton]
    by_cases zero : 0 = c
    · rw [if_pos zero, ← zero]
      rfl
    · have unbroken : isBroken c = false := by
        simp [isBroken, noLine, noReturn, Ne.symm zero]
      rw [if_neg zero, unbroken]
      rfl
  | letter e =>
    have nonzero : ¬ (0 : UInt8) ∈ (BodyItem.letter e).text := by
      have := ne_zero_of_letter e valid
      simp [BodyItem.text, Ne.symm this]
    rw [if_neg nonzero]
    simp only [BodyItem.text, cons_append, nil_append]
    rw [shortValue, if_neg (Ne.symm notSlash), if_pos rfl,
      readEscape_plain (plainEscape_of_letter e valid)]
    rfl
  | hex high low =>
    simp only [BodyItem.valid, Bool.and_eq_true] at valid
    have nonzero : ¬ (0 : UInt8) ∈ (BodyItem.hex high low).text := by
      have first := ne_zero_of_isHex high valid.1
      have second := ne_zero_of_isHex low valid.2
      simp [BodyItem.text, Ne.symm first, Ne.symm second]
    rw [if_neg nonzero]
    simp only [BodyItem.text, cons_append, nil_append]
    rw [shortValue, if_neg (Ne.symm notSlash), if_pos rfl, readEscape, if_pos rfl,
      readHexEscape, valid.1, valid.2]
    rfl

lemma shortValue_items {items : List BodyItem} (valid : ∀ item ∈ items, item.valid other)
    (absent : quote ∉ bodyText items) (notSlash : quote ≠ 92) {fuel : Nat}
    (enough : items.length < fuel) :
    shortValue quote fuel (bodyText items ++ [quote]) =
      if 0 ∈ bodyText items then none else some (items.flatMap BodyItem.bytes, []) := by
  induction items generalizing fuel with
  | nil =>
    obtain ⟨fuel, rfl⟩ := Nat.exists_eq_succ_of_ne_zero (Nat.ne_of_gt enough)
    simp [bodyText, shortValue]
  | cons item items ih =>
    obtain ⟨fuel, rfl⟩ := Nat.exists_eq_succ_of_ne_zero (Nat.ne_of_gt (Nat.zero_lt_of_lt enough))
    rw [bodyText, flatMap_cons, mem_append, not_or] at absent
    have read := ih (fun other mem => valid other (mem_cons_of_mem _ mem)) absent.2
      (Nat.lt_of_succ_lt_succ enough)
    have text : bodyText (item :: items) = item.text ++ bodyText items := rfl
    rw [text, append_assoc, shortValue_item (valid item mem_cons_self) absent.1 notSlash, read]
    by_cases here : (0 : UInt8) ∈ item.text
    · rw [if_pos here, if_pos (mem_append_left _ here)]
    · by_cases later : (0 : UInt8) ∈ bodyText items
      · rw [if_neg here, if_pos later, if_pos (mem_append_right _ later)]
        rfl
      · rw [if_neg here, if_neg later, if_neg (by simp [here, later])]
        rfl

/-! ### Values -/

/-- Code points up to 127 are single bytes. -/
def BodyItem.ascii : BodyItem → Bool
  | .hex high low => decide (hexCode high low < 128)
  | _ => true

lemma hexCode_lt (high low : UInt8) : hexCode high low < 256 := by
  have first := hexValue_lt high
  have second := hexValue_lt low
  simp only [hexCode, hexNumber, foldl_cons, foldl_nil]
  omega

lemma BodyItem.bytes_of_ascii (ascii : item.ascii) : item.bytes = item.value := by
  cases item with
  | char c => rfl
  | letter e => rfl
  | hex high low =>
    have small : hexCode high low < 0x80 := of_decide_eq_true ascii
    rw [BodyItem.bytes, BodyItem.value, utf8, if_pos small]
    rfl

lemma BodyItem.length_value (item : BodyItem) :
    item.bytes.length = 1 ∧ item.value.length = if item.ascii then 1 else 2 := by
  cases item with
  | char c => exact ⟨rfl, rfl⟩
  | letter e => exact ⟨rfl, rfl⟩
  | hex high low =>
    refine ⟨rfl, ?_⟩
    have bound := hexCode_lt high low
    simp only [BodyItem.value, BodyItem.ascii, decide_eq_true_eq, utf8]
    split_ifs with small
    · rfl
    · rfl
    · omega
    · omega
    · omega

lemma length_bytes_le (items : List BodyItem) :
    (items.flatMap BodyItem.bytes).length ≤ (cooked items).length ∧
      ((items.flatMap BodyItem.bytes).length = (cooked items).length →
        ∀ item ∈ items, item.ascii) := by
  induction items with
  | nil => exact ⟨le_rfl, fun _ item mem => nomatch mem⟩
  | cons item items ih =>
    obtain ⟨one, length⟩ := item.length_value
    obtain ⟨shorter, same⟩ := ih
    simp only [cooked] at shorter same
    simp only [cooked, flatMap_cons, length_append, mem_cons, forall_eq_or_imp]
    cases ascii : item.ascii with
    | true =>
      rw [ascii, if_pos rfl] at length
      exact ⟨by omega, fun equal => ⟨rfl, same (by omega)⟩⟩
    | false =>
      rw [ascii, if_neg Bool.false_ne_true] at length
      exact ⟨by omega, fun equal => by omega⟩

/-- The bytes that Luau reads are those of TypeScript exactly when each `\x` is below 128. -/
theorem bytes_eq_cooked (items : List BodyItem) :
    items.flatMap BodyItem.bytes = cooked items ↔ ∀ item ∈ items, item.ascii := by
  constructor
  · intro same
    exact (length_bytes_le items).2 (congrArg List.length same)
  · intro ascii
    exact flatMap_congr fun item mem => BodyItem.bytes_of_ascii (ascii item mem)

lemma length_cooked_le (items : List BodyItem) : (cooked items).length ≤ (bodyText items).length ∧
      (cooked items = bodyText items → ∀ item ∈ items, ∃ c, item = .char c) := by
  induction items with
  | nil => exact ⟨le_rfl, fun _ item mem => nomatch mem⟩
  | cons item items ih =>
    obtain ⟨shorter, same⟩ := ih
    have length := item.length_value.2
    simp only [cooked, bodyText] at shorter same
    simp only [cooked, bodyText, flatMap_cons, length_append, mem_cons, forall_eq_or_imp]
    cases item with
    | char c =>
      refine ⟨by simp only [BodyItem.value, BodyItem.text, length_singleton]; omega, ?_⟩
      intro equal
      exact ⟨⟨c, rfl⟩, same (append_cancel_left equal)⟩
    | letter e =>
      have two : (BodyItem.letter e).text.length = 2 := rfl
      have one : (BodyItem.letter e).value.length = 1 := rfl
      refine ⟨by omega, fun equal => ?_⟩
      have lengths := congrArg List.length equal
      simp only [length_append] at lengths
      omega
    | hex high low =>
      have four : (BodyItem.hex high low).text.length = 4 := rfl
      have few : (BodyItem.hex high low).value.length ≤ 2 := by
        rw [length]
        split <;> omega
      refine ⟨by omega, fun equal => ?_⟩
      have lengths := congrArg List.length equal
      simp only [length_append] at lengths
      omega

/-! ### All forms -/

/-- The literals that keep their value: without a zero byte, with `\x` only below 128, and with
at most one kind of quotes in the body. -/
def StringLiteral.kept (literal : StringLiteral) : Bool :=
  let text := bodyText literal.items
  !text.contains 0 && literal.items.all BodyItem.ascii && !(text.contains 34 && text.contains 39)

lemma length_le_bodyText (items : List BodyItem) : items.length ≤ (bodyText items).length := by
  induction items with
  | nil => exact le_rfl
  | cons item items ih =>
    have some' : 1 ≤ item.text.length := by
      cases item <;> simp [BodyItem.text]
    rw [bodyText, flatMap_cons, length_append, length_cons]
    rw [bodyText] at ih
    omega

lemma literalValue_items {items : List BodyItem} (quoted : quote = 34 ∨ quote = 39)
    (valid : ∀ item ∈ items, item.valid other) (absent : quote ∉ bodyText items) :
    literalValue (quote :: (bodyText items ++ [quote])) = some (cooked items) ↔
      0 ∉ bodyText items ∧ ∀ item ∈ items, item.ascii := by
  have notSlash : quote ≠ 92 := by rcases quoted with rfl | rfl <;> decide
  have literal : readLiteral (quote :: (bodyText items ++ [quote])) =
      shortValue quote (bodyText items ++ [quote]).length (bodyText items ++ [quote]) := by
    rw [readLiteral, if_pos (by simpa using quoted)]
  have enough : items.length < (bodyText items ++ [quote]).length := by
    have shorter := length_le_bodyText items
    simp only [length_append, length_singleton]
    omega
  rw [literalValue_of_head (List.head?_cons ..) (isSpace_quote quoted), literal,
    shortValue_items valid absent notSlash enough]
  by_cases zero : (0 : UInt8) ∈ bodyText items
  · simp [zero]
  · rw [if_neg zero, ← bytes_eq_cooked]
    simp [zero]

lemma BodyItem.no_lineBreak (valid : item.valid quote) : 10 ∉ item.text := by
  have hexDigit : ∀ c : UInt8, isHex c → 10 ≠ c := by grind [isHex, isDigit]
  have letter : ∀ c : UInt8, isEscapeLetter c → 10 ≠ c := by grind [isEscapeLetter]
  cases item with
  | char c =>
    simp only [BodyItem.valid, Bool.and_eq_true, bne_iff_ne] at valid
    simpa [BodyItem.text] using Ne.symm valid.1.2
  | letter e => simpa [BodyItem.text] using letter e valid
  | hex high low =>
    simp only [BodyItem.valid, Bool.and_eq_true] at valid
    simp [BodyItem.text, hexDigit high valid.1, hexDigit low valid.2]

lemma StringLiteral.no_lineBreak (literal : StringLiteral) : 10 ∉ bodyText literal.items := by
  intro mem
  obtain ⟨item, isItem, inItem⟩ := mem_flatMap.mp mem
  exact BodyItem.no_lineBreak (literal.valid item isItem) inItem

lemma dropLineBreak_of_absent {text : Bytes} (absent : 10 ∉ text) :
    dropLineBreak text = text := by
  rw [dropLineBreak.eq_def]
  split
  · simp at absent
  · simp at absent
  · rfl

/-- A quote of the literal's own kind is escaped in it, so long brackets do not keep it. -/
theorem StringLiteral.cooked_ne_of_quote {literal : StringLiteral}
    (inside : literal.quote ∈ bodyText literal.items) :
    cooked literal.items ≠ bodyText literal.items := by
  intro same
  obtain ⟨item, isItem, inItem⟩ := mem_flatMap.mp inside
  obtain ⟨c, rfl⟩ := (length_cooked_le literal.items).2 same item isItem
  have valid := literal.valid _ isItem
  simp only [BodyItem.valid, Bool.and_eq_true, bne_iff_ne] at valid
  exact valid.1.1.1 (mem_singleton.mp inItem).symm

/-- A rendered literal stands for what the literal stands for in TypeScript exactly when it is
one of those that are kept. -/
theorem renderLiteral_reads_iff (slot : Slot) (literal : StringLiteral) :
    literalValue (renderLiteral slot literal) = some (cooked literal.items) ↔
      literal.kept = true := by
  rw [renderLiteral, createStringFromLiteral_text, StringLiteral.kept]
  have oneLine : (bodyText literal.items).contains 10 = false := by
    simpa using literal.no_lineBreak
  by_cases double : (34 : UInt8) ∈ bodyText literal.items
  · by_cases single : (39 : UInt8) ∈ bodyText literal.items
    · -- With both kinds of quotes the text goes into long brackets, as it is.
      have inside : literal.quote ∈ bodyText literal.items := by
        rcases literal.isQuote with same | same <;> rw [same] <;> assumption
      obtain ⟨spacing, spaces, level, unclosed, rendered⟩ := @renderStringLiteral_long
        (bodyText literal.items) slot (by simp [double]) (by simp [single])
      rw [rendered, literalValue_unclosed unclosed spaces,
        dropLineBreak_of_absent literal.no_lineBreak]
      have changed := StringLiteral.cooked_ne_of_quote inside
      split
      · simp [double, single]
      · simp [double, single, Ne.symm changed]
    · rw [renderStringLiteral_single slot (by simp [double]) (by simpa [single] using oneLine)]
      have read := literalValue_items (.inr rfl) literal.valid single
      rw [read]
      simp [single]
  · rw [renderStringLiteral_double slot (by simpa [double] using oneLine)]
    have read := literalValue_items (.inl rfl) literal.valid double
    rw [read]
    simp [double]

/-- An apostrophe and an escaped quote between double quotes: the backslash stays in the
string. -/
theorem renderLiteral_misreads :
    literalValue (renderLiteral .other ⟨34, [.char 39, .letter 34], .inl rfl, by decide⟩) =
        some [39, 92, 34] ∧
      cooked [.char 39, .letter 34] = [39, 34] := by
  decide +kernel

end Rotor.Transformer.Literals
