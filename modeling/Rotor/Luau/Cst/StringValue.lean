import Rotor.Luau.Ast
import Rotor.Luau.Cst.Nodes
import Rotor.Luau.Lex.Reads
import Rotor.Luau.Strings

/-!
The value of a string token (`cst/transform.go`) and the field names made from it
(`cst/dense.go`).

The decoder knows three of the escapes and keeps the byte behind every other backslash, and it
keeps a line break at the beginning of a long string. Its value is that of the language exactly
where this makes no difference.
-/

namespace Rotor.Luau.Cst

open List Luau.Lex
open Option (bind_some)

variable {quote c : UInt8} {rest text : Bytes} {interp : List Nat}

def unescapeByte (c : UInt8) : UInt8 :=
  if c = 110 then 10 else if c = 116 then 9 else if c = 114 then 13 else c

def unescapeShort : Bytes → Bytes
  | [] => []
  | [c] => [c]
  | c :: e :: rest =>
    if c = 92 then unescapeByte e :: unescapeShort rest else c :: unescapeShort (e :: rest)

def longStringBody (raw : Bytes) : Option Bytes :=
  (longBracketLevel raw).bind fun level =>
    if raw.length < 2 * (level + 2) then none
    else some ((raw.drop (level + 2)).take (raw.length - 2 * (level + 2)))

def stringValue (raw : Bytes) : Option Bytes :=
  if 2 ≤ raw.length ∧ (raw.head? = some 34 ∨ raw.head? = some 39) ∧ raw.getLast? = raw.head? then
    some (unescapeShort raw.tail.dropLast)
  else longStringBody raw

def keyFieldName : Node → Option Bytes
  | .string ref => (stringValue ref.token.text).filter isValidIdentifier
  | _ => none

/-- The escapes that stand for one byte, the one that the decoder writes. -/
def plainEscape (c : UInt8) : Bool :=
  !(isDigit c || [97, 98, 102, 118, 117, 120, 122, 13, 0].contains c)

/-- Every escape is a plain one, and nothing breaks the text off. -/
def plainText : Bytes → Bool
  | [] => true
  | [c] => c != 92 && !isBroken c
  | c :: e :: rest =>
    if c = 92 then plainEscape e && plainText rest else !isBroken c && plainText (e :: rest)

/-- The literals that the decoder reads as the language does. -/
def readsPlainly (raw : Bytes) : Bool :=
  if raw.head? = some 91 then
    let body := (longStringBody raw).getD []
    dropLineBreak body == body && !body.contains 0
  else plainText raw.tail.dropLast

/-! ### Quoted literals -/

lemma unescapeShort_cons (other : c ≠ 92) (rest : Bytes) :
    unescapeShort (c :: rest) = c :: unescapeShort rest := by
  cases rest with
  | nil => rfl
  | cons e rest => rw [unescapeShort, if_neg other]

lemma unescapeShort_escape (e : UInt8) (rest : Bytes) :
    unescapeShort (92 :: e :: rest) = unescapeByte e :: unescapeShort rest := rfl

lemma unescapeShort_append {front : Bytes} (plain : 92 ∉ front) (rest : Bytes) :
    unescapeShort (front ++ rest) = front ++ unescapeShort rest := by
  induction front with
  | nil => rfl
  | cons c front ih =>
    simp only [mem_cons, not_or] at plain
    rw [cons_append, unescapeShort_cons (Ne.symm plain.1), ih plain.2]
    rfl

lemma plainText_cons (other : c ≠ 92) (rest : Bytes) :
    plainText (c :: rest) = (!isBroken c && plainText rest) := by
  cases rest with
  | nil => simp [plainText, other]
  | cons e rest => rw [plainText, if_neg other]

lemma plainText_escape (e : UInt8) (rest : Bytes) :
    plainText (92 :: e :: rest) = (plainEscape e && plainText rest) := rfl

lemma readEscape_plain {e : UInt8} (plain : plainEscape e) (rest : Bytes) :
    readEscape (e :: rest) = some ([unescapeByte e], rest) := by
  simp only [plainEscape, contains_eq_mem, mem_cons, not_mem_nil, or_false,
    Bool.not_eq_true', Bool.or_eq_false_iff, decide_eq_false_iff_not, not_or] at plain
  obtain ⟨noDigit, notA, notB, notF, notV, notU, notX, notZ, notReturn, notZero⟩ := plain
  rw [readEscape]
  simp only [controlEscape, notA, notB, notF, notV, if_false, unescapeByte]
  split_ifs <;> simp_all

lemma decimalNumber_single (digit : isDigit c) : (decimalNumber [c]).toUInt8 ≠ c := by
  intro same
  have val := congrArg UInt8.toNat same
  simp only [isDigit, Bool.and_eq_true, decide_eq_true_eq, UInt8.le_iff_toNat_le] at digit
  simp [decimalNumber] at val digit
  omega

/-- An escape is at least as long as what it stands for, and only a plain one stands for what
the decoder writes. -/
theorem readEscape_spec {e : UInt8} {bytes after : Bytes}
    (read : readEscape (e :: rest) = some (bytes, after)) :
    ∃ skipped, Takes rest skipped after ∧ bytes.length ≤ skipped.length + 1 ∧
      (bytes = unescapeByte e :: skipped → plainEscape e) := by
  have differs : ∀ {skipped : Bytes}, bytes.length < skipped.length + 1 →
      bytes = unescapeByte e :: skipped → plainEscape e := by
    intro skipped shorter same
    rw [same] at shorter
    simp at shorter
  rw [readEscape] at read
  split at read
  · obtain ⟨skipped, takes, one, two⟩ := readHexEscape_takes read
    exact ⟨skipped, takes, by omega, differs (by omega)⟩
  split at read
  · obtain ⟨skipped, takes, shorter⟩ := readCodePoint_takes read
    exact ⟨skipped, takes, by omega, differs (by omega)⟩
  split at read
  · cases read
    exact ⟨_, takes_takeWhile (by decide) rest, by simp, differs (by simp)⟩
  split at read
  · rename_i digit
    obtain ⟨skipped, takes, rfl⟩ := readDecimal_takes read
    refine ⟨skipped, takes, by simp, fun same => ?_⟩
    obtain ⟨val, rfl⟩ := List.cons.inj same
    have kept : unescapeByte e = e := by
      rw [unescapeByte]
      split_ifs <;> simp_all [isDigit]
    exact absurd (val.trans kept) (decimalNumber_single digit)
  split at read
  · rename_i isReturn
    cases read
    subst isReturn
    split
    · rename_i newline
      obtain ⟨tail, rfl⟩ := head?_eq_some_iff.mp newline
      exact ⟨[10], ⟨rfl, by decide⟩, by simp, fun same => by cases same⟩
    · exact ⟨[], ⟨rfl, by simp⟩, by simp, fun same => by simp [unescapeByte] at same⟩
  split at read
  · cases read
  · rename_i notX notU notZ notDigit notReturn notZero
    cases read
    refine ⟨[], ⟨rfl, by simp⟩, by simp, fun same => ?_⟩
    have val := (List.cons.inj same).1
    simp only [plainEscape, contains_eq_mem, mem_cons, not_mem_nil, or_false,
      Bool.not_eq_true', Bool.or_eq_false_iff, decide_eq_false_iff_not, not_or]
    rw [controlEscape, unescapeByte] at val
    refine ⟨by simpa using notDigit, ?_, ?_, ?_, ?_, notU, notX, notZ, notReturn, notZero⟩ <;>
      (rintro rfl; simp at val)

variable {inner : Bytes} {skip : Bool} {level : Nat}

/-- A quoted literal is at least as long as its value, and the decoder finds that value only in
a plain text. -/
theorem shortValue_spec (fuel : Nat) {val after : Bytes}
    (read : shortValue quote fuel inner = some (val, after)) :
    ∃ body, inner = body ++ quote :: after ∧ val.length ≤ (unescapeShort body).length ∧
      (val = unescapeShort body → plainText body) := by
  induction fuel generalizing inner val with
  | zero => nomatch read
  | succ fuel ih =>
    cases inner with
    | nil => nomatch read
    | cons c rest =>
      rw [shortValue] at read
      split at read
      · rename_i closes
        cases read
        exact ⟨[], by rw [closes]; rfl, by simp [unescapeShort], fun _ => rfl⟩
      split at read
      · rename_i isEscape
        obtain ⟨⟨bytes, behind⟩, isRead, mapped⟩ := Option.bind_eq_some_iff.mp read
        obtain ⟨⟨val', after'⟩, isRead', same⟩ := Option.map_eq_some_iff.mp mapped
        cases same
        obtain ⟨body, rfl, shorter, plain⟩ := ih isRead'
        cases rest with
        | nil => nomatch isRead
        | cons e rest =>
          obtain ⟨skipped, ⟨taken, noEscape⟩, short, plainly⟩ := readEscape_spec isRead
          have written : unescapeShort (92 :: e :: (skipped ++ body)) =
              (unescapeByte e :: skipped) ++ unescapeShort body := by
            rw [unescapeShort_escape, unescapeShort_append noEscape]
            rfl
          refine ⟨92 :: e :: (skipped ++ body), by simp [isEscape, taken], ?_, fun same => ?_⟩
          · rw [written]
            simp only [length_append, length_cons]
            omega
          · rw [written] at same
            have lengths := congrArg List.length same
            simp only [length_append, length_cons] at lengths
            obtain ⟨sameBytes, sameValue⟩ := append_inj same (by simp; omega)
            have isPlain := plainly sameBytes
            have behindPlain := readEscape_plain isPlain rest
            rw [isRead, Option.some.injEq, Prod.mk.injEq] at behindPlain
            have noneSkipped : skipped = [] := by
              rw [← behindPlain.2] at taken
              simpa using taken
            rw [noneSkipped, plainText_escape, isPlain, nil_append, plain sameValue]
            rfl
      split at read
      · nomatch read
      · rename_i notQuote notEscape unbroken
        obtain ⟨⟨val', after'⟩, isRead, same⟩ := Option.map_eq_some_iff.mp read
        cases same
        obtain ⟨body, rfl, shorter, plain⟩ := ih isRead
        refine ⟨c :: body, rfl, ?_, fun same => ?_⟩
        · rw [unescapeShort_cons notEscape]
          simp only [length_cons]
          omega
        · rw [unescapeShort_cons notEscape] at same
          rw [plainText_cons notEscape, plain (List.cons.inj same).2]
          simpa using unbroken

lemma getLast?_shortStringBody (closed : (shortStringBody quote skip rest).closed) :
    (shortStringBody quote skip rest).text.getLast? = some quote := by
  fun_induction shortStringBody quote skip rest with
  | case1 => cases closed
  | case2 skip c more _ ih =>
    simp [Scanned.cons, getLast?_cons, ih closed]
  | case3 => cases closed
  | case4 skip e after _ ih =>
    simp [Scanned.cons, getLast?_cons, ih closed]
  | case5 => simp
  | case6 => cases closed
  | case7 skip c more _ _ _ _ ih =>
    simp [Scanned.cons, getLast?_cons, ih closed]

lemma dropLast_cons_shortStringBody (closed : (shortStringBody quote skip rest).closed)
    (c : UInt8) :
    (c :: (shortStringBody quote skip rest).text).dropLast =
      c :: (shortStringBody quote skip rest).text.dropLast := by
  have last := getLast?_shortStringBody closed
  cases text : (shortStringBody quote skip rest).text with
  | nil => rw [text] at last; nomatch last
  | cons first more => rfl

lemma shortValue_of_plain {fuel : Nat} (quoted : quote ≠ 92) (unskipped : skip = false)
    (closed : (shortStringBody quote skip rest).closed)
    (plain : plainText (shortStringBody quote skip rest).text.dropLast)
    (enough : (shortStringBody quote skip rest).text.length ≤ fuel) :
    shortValue quote fuel (shortStringBody quote skip rest).text =
      some (unescapeShort (shortStringBody quote skip rest).text.dropLast, []) := by
  fun_induction shortStringBody quote skip rest generalizing fuel with
  | case1 => cases closed
  | case2 skip c more skips _ => simp [unskipped] at skips
  | case3 => cases closed
  | case4 skip e after _ ih =>
    simp only [Scanned.cons, cons_append, nil_append] at closed plain enough ⊢
    have behind := dropLast_cons_shortStringBody closed
    have whole : (92 :: e :: (shortStringBody quote (e == 122) after).text).dropLast =
        92 :: e :: (shortStringBody quote (e == 122) after).text.dropLast := by
      rw [dropLast_cons_of_ne_nil (by simp), behind]
    rw [whole, plainText_escape, Bool.and_eq_true_iff] at plain
    obtain ⟨fuel, rfl⟩ : ∃ smaller, fuel = smaller + 1 :=
      Nat.exists_eq_succ_of_ne_zero (by simp only [length_cons] at enough; omega)
    simp only [length_cons] at enough
    have notSkip : (e == 122) = false := by
      cases isSkip : (e == 122) with
      | false => rfl
      | true =>
        obtain rfl : e = 122 := by simpa using isSkip
        cases plain.1
    rw [shortValue, if_neg (Ne.symm quoted), if_pos rfl, readEscape_plain plain.1]
    simp only [bind_some]
    rw [ih notSkip closed plain.2 (by omega), whole, unescapeShort_escape]
    rfl
  | case5 skip more _ _ =>
    obtain ⟨fuel, rfl⟩ : ∃ smaller, fuel = smaller + 1 :=
      Nat.exists_eq_succ_of_ne_zero (by simp only [length_cons] at enough; omega)
    rw [shortValue, if_pos rfl]
    rfl
  | case6 => cases closed
  | case7 skip c more _ notEscape notQuote _ ih =>
    simp only [Scanned.cons, cons_append, nil_append] at closed plain enough ⊢
    have behind := dropLast_cons_shortStringBody closed c
    rw [behind, plainText_cons notEscape, Bool.and_eq_true_iff] at plain
    obtain ⟨fuel, rfl⟩ : ∃ smaller, fuel = smaller + 1 :=
      Nat.exists_eq_succ_of_ne_zero (by simp only [length_cons] at enough; omega)
    simp only [length_cons] at enough
    rw [shortValue, if_neg notQuote, if_neg notEscape, if_neg (by simpa using plain.1),
      ih rfl closed plain.2 (by omega), behind, unescapeShort_cons notEscape]
    rfl

/-! ### Literals in long brackets -/

/-- What the scanner closes, the language closes at the same place, unless there is a zero byte. -/
theorem longText_of_closed {closing : Bytes}
    (closed : longBodyTail closing text = ⟨text, [], true⟩) :
    ∃ body, text = body ++ closing ∧
      longText closing text = if body.contains 0 then none else some (body, []) := by
  induction text with
  | nil => nomatch closed
  | cons c rest ih =>
    rw [longBodyTail] at closed
    rw [longText]
    split at closed
    · rename_i found
      have whole := congrArg Scanned.text closed
      dsimp only at whole
      refine ⟨[], whole.symm, ?_⟩
      rw [if_pos found, ← whole, drop_length]
      rfl
    · rename_i unseen
      have closed' : longBodyTail closing rest = ⟨rest, [], true⟩ := by
        cases tail : longBodyTail closing rest with
        | mk text' rest' closed' =>
          rw [tail] at closed
          simpa [Scanned.cons] using closed
      obtain ⟨body, rfl, read⟩ := ih closed'
      refine ⟨c :: body, rfl, ?_⟩
      rw [if_neg unseen, read]
      by_cases zero : c = 0
      · simp [zero]
      · rw [if_neg zero, contains_cons, beq_eq_false_iff_ne.2 (Ne.symm zero), Bool.false_or]
        cases body.contains 0 with
        | true => rfl
        | false => rfl

/-! ### String tokens -/

inductive StringText : Bytes → Prop where
  | short {quote : UInt8} {more : Bytes} (quoted : quote = 34 ∨ quote = 39)
      (closed : (shortStringBody quote false more).closed = true) :
      StringText (quote :: (shortStringBody quote false more).text)
  | long {level : Nat} {more : Bytes}
      (closed : (longBodyTail (closingBracket level) more).closed = true) :
      StringText (openingBracket level ++ (longBodyTail (closingBracket level) more).text)

lemma closed_of_clean {kind : Kind} {message : String} {scanned : Scanned}
    (clean : (closedLexeme kind interp message scanned).error = none) : scanned.closed := by
  by_contra unclosed
  rw [closedLexeme, if_neg unclosed] at clean
  cases clean

lemma stringText_of_lexeme (more : rest ≠ []) (isString : (scanLexeme interp rest).kind = .string)
    (clean : (scanLexeme interp rest).error = none) : StringText (scanLexeme interp rest).text := by
  obtain ⟨c, m, rfl⟩ := exists_cons_of_ne_nil more
  cases start_cases interp c m with
  | space space =>
    rw [scanLexeme_space space] at isString
    cases isString
  | comment dash second =>
    rw [scanLexeme_comment dash second] at isString
    cases isString
  | name name =>
    rw [scanLexeme_name name] at isString
    cases isString
  | number num =>
    rw [scanLexeme_number num] at isString
    cases isString
  | quote quote =>
    rw [scanLexeme_quote quote] at clean ⊢
    have closed : (scanShortString (c :: m)).closed := closed_of_clean clean
    exact .short quote closed
  | long level long =>
    rw [scanLexeme_long long] at clean ⊢
    obtain ⟨body, whole⟩ := longBracketLevel_eq_some.1 long
    rw [whole, consumeLongBody_openingBracket] at clean ⊢
    have closed := closed_of_clean clean
    exact .long closed
  | backtick backtick =>
    subst backtick
    rw [scanLexeme_backtick, scanInterpStart] at isString
    split at isString
    all_goals cases isString
  | resume brace top =>
    subst brace
    rw [scanLexeme_resume top, scanInterpResume] at isString
    split at isString
    all_goals cases isString
  | symbol start =>
    rw [scanLexeme_symbol start, scanSymbol] at isString
    split at isString
    all_goals cases isString

lemma stringText_of_mem {src : Bytes} {lexemes : List Lexeme} (read : Lexes interp src lexemes)
    {lexeme : Lexeme} (mem : lexeme ∈ lexemes) (isString : lexeme.kind = .string)
    (clean : lexeme.error = none) : StringText lexeme.text := by
  induction read with
  | done => nomatch mem
  | next more _ ih =>
    rcases mem_cons.1 mem with rfl | later
    · exact stringText_of_lexeme more isString clean
    · exact ih later

lemma stringValue_short (quoted : quote = 34 ∨ quote = 39) (last : inner.getLast? = some quote) :
    stringValue (quote :: inner) = some (unescapeShort inner.dropLast) := by
  have nonempty : inner ≠ [] := by
    rintro rfl
    nomatch last
  have two : 2 ≤ (quote :: inner).length := by
    have positive := length_pos_iff.2 nonempty
    simp only [length_cons]
    omega
  have ends : (quote :: inner).getLast? = some quote := by
    rw [getLast?_cons, last]
    rfl
  have begins : some quote = some 34 ∨ some quote = some 39 := by simpa using quoted
  rw [stringValue, ends, if_pos ⟨two, begins, rfl⟩]
  rfl

lemma stringValue_long (level : Nat) (body : Bytes) :
    stringValue (openingBracket level ++ (body ++ closingBracket level)) = some body := by
  have level' : longBracketLevel (openingBracket level ++ (body ++ closingBracket level)) =
      some level := longBracketLevel_eq_some.2 ⟨_, rfl⟩
  have length : (openingBracket level ++ (body ++ closingBracket level)).length =
      body.length + 2 * (level + 2) := by
    simp [openingBracket_length, closingBracket, repeatByte]
    omega
  have notQuoted : (openingBracket level ++ (body ++ closingBracket level)).head? = some 91 := rfl
  rw [stringValue, notQuoted, if_neg (by simp), longStringBody, level', bind_some, length,
    if_neg (by omega), Nat.add_sub_cancel, ← openingBracket_length level, drop_left,
    take_left]

lemma literalValue_of_head (begins : text.head? = some c) (solid : isSpace c = false) :
    literalValue text = (readLiteral text).bind fun (val, after) =>
      if after.all isSpace then some val else none := by
  obtain ⟨rest, rfl⟩ := head?_eq_some_iff.1 begins
  rw [literalValue, dropWhile_cons_of_neg (by simp [solid])]

lemma readLiteral_of_level (long : longBracketLevel text = some level) :
    readLiteral text = (longText (closingBracket level) (text.drop (level + 2))).map
      fun (text, after) => (dropLineBreak text, after) := by
  cases text with
  | nil => nomatch long
  | cons c rest =>
    obtain rfl := longBracketLevel_ne long
    rw [readLiteral, if_neg (by decide), long, bind_some]

lemma isSpace_quote (quoted : quote = 34 ∨ quote = 39) : isSpace quote = false := by
  rcases quoted with rfl | rfl
  · rfl
  · rfl

lemma after_eq_nil {body after : Bytes} (quoted : quote = 34 ∨ quote = 39)
    (last : inner.getLast? = some quote) (split : inner = body ++ quote :: after)
    (spaces : after.all isSpace) : after = [] := by
  rcases eq_nil_or_concat after with none | ⟨front, c, rfl⟩
  · exact none
  · rw [concat_eq_append] at split spaces
    rw [split, ← cons_append, ← append_assoc, List.getLast?_concat] at last
    have space : isSpace c := all_eq_true.1 spaces c (by simp)
    rw [Option.some.inj last, isSpace_quote quoted] at space
    nomatch space

lemma reads_short {more : Bytes} (quoted : quote = 34 ∨ quote = 39)
    (closed : (shortStringBody quote false more).closed) :
    literalValue (quote :: (shortStringBody quote false more).text) =
        some (unescapeShort (shortStringBody quote false more).text.dropLast) ↔
      plainText (shortStringBody quote false more).text.dropLast := by
  have last := getLast?_shortStringBody closed
  generalize inner_eq : (shortStringBody quote false more).text = inner at last ⊢
  have literal : readLiteral (quote :: inner) = shortValue quote inner.length inner := by
    rw [readLiteral, if_pos (by simpa using quoted)]
  rw [literalValue_of_head (head?_cons ..) (isSpace_quote quoted), literal]
  constructor
  · intro same
    obtain ⟨⟨val, after⟩, read, kept⟩ := Option.bind_eq_some_iff.1 same
    dsimp only at kept
    split at kept
    · rename_i spaces
      obtain ⟨body, split, -, plain⟩ := shortValue_spec _ read
      obtain rfl := after_eq_nil quoted last split spaces
      rw [split, dropLast_concat] at kept ⊢
      exact plain (Option.some.inj kept)
    · nomatch kept
  · intro plain
    have notEscape : quote ≠ 92 := by
      rcases quoted with rfl | rfl
      · decide
      · decide
    subst inner_eq
    rw [shortValue_of_plain notEscape rfl closed plain le_rfl]
    rfl

lemma literalValue_long {body : Bytes}
    (read : longText (closingBracket level) (body ++ closingBracket level) =
      if body.contains 0 then none else some (body, [])) :
    literalValue (openingBracket level ++ (body ++ closingBracket level)) =
      if body.contains 0 then none else some (dropLineBreak body) := by
  have level' : longBracketLevel (openingBracket level ++ (body ++ closingBracket level)) =
      some level := longBracketLevel_eq_some.2 ⟨_, rfl⟩
  have behind : (openingBracket level ++ (body ++ closingBracket level)).drop (level + 2) =
      body ++ closingBracket level := by
    rw [← openingBracket_length level, drop_left]
  have solid : (openingBracket level ++ (body ++ closingBracket level)).head? = some 91 := rfl
  rw [literalValue_of_head solid rfl, readLiteral_of_level level', behind, read]
  cases body.contains 0 with
  | true => rfl
  | false => rfl

lemma reads_long {more : Bytes} (closed : (longBodyTail (closingBracket level) more).closed) :
    ∃ body, (longBodyTail (closingBracket level) more).text = body ++ closingBracket level ∧
      literalValue (openingBracket level ++ (longBodyTail (closingBracket level) more).text) =
        if body.contains 0 then none else some (dropLineBreak body) := by
  have whole := longBodyTail_closed (closingBracket level) more closed (by simp [closingBracket]) []
  rw [append_nil] at whole
  obtain ⟨body, split, read⟩ := longText_of_closed whole
  rw [split] at read
  exact ⟨body, split, split ▸ literalValue_long read⟩

lemma StringText.reads_iff (literal : StringText text) :
    (∀ val, stringValue text = some val → literalValue text = some val) ↔
      readsPlainly text := by
  cases literal with
  | @short quote more quoted closed =>
    have notBracket : ¬some quote = some 91 := fun same => by
      rw [Option.some.inj same] at quoted
      exact absurd quoted (by decide)
    rw [stringValue_short quoted (getLast?_shortStringBody closed), readsPlainly, head?_cons,
      if_neg notBracket, tail_cons, ← reads_short quoted closed]
    simp
  | @long level more closed =>
    obtain ⟨body, split, read⟩ := reads_long closed
    have val := stringValue_long level body
    rw [split] at read ⊢
    have inside : longStringBody (openingBracket level ++ (body ++ closingBracket level)) =
        some body := by
      rw [stringValue, if_neg (by simp [openingBracket])] at val
      exact val
    have bracket : (openingBracket level ++ (body ++ closingBracket level)).head? = some 91 := rfl
    rw [val, read, readsPlainly, bracket, if_pos rfl, inside, Option.getD_some]
    simp [and_comm]

/-- A string token gets the value it has in the language, and a key the name it has, exactly where
the literal reads plainly. -/
theorem stringValue_reads_iff {src : Bytes} {lexemes : List Lexeme} (read : Lexes [] src lexemes)
    {lexeme : Lexeme} (member : lexeme ∈ lexemes) (isString : lexeme.kind = .string)
    (clean : lexeme.error = none) :
    ((∀ value, stringValue lexeme.text = some value → literalValue lexeme.text = some value) ∧
      ∀ (ref : TokenRef) (name : Bytes), ref.token.text = lexeme.text →
        keyFieldName (.string ref) = some name → literalValue lexeme.text = some name) ↔
      readsPlainly lexeme.text = true := by
  rw [← (stringText_of_mem read member isString clean).reads_iff]
  refine ⟨fun both => both.1, fun values => ⟨values, fun ref name same found => ?_⟩⟩
  rw [keyFieldName, same] at found
  exact values name (Option.filter_eq_some_iff.1 found).1

lemma lexes_of_eq {lexeme : Lexeme} {lexemes : List Lexeme} (more : rest ≠ [])
    (scanned : scanLexeme interp rest = lexeme) (read : Lexes lexeme.interp lexeme.rest lexemes) :
    Lexes interp rest (lexeme :: lexemes) := by
  subst scanned
  exact .next more read

theorem stringValue_reads_tab : Lexes [] (str "\"a\\t\"") [scanLexeme [] (str "\"a\\t\"")] ∧
      literalValue (str "\"a\\t\"") = some [97, 9] := by
  have read : Lexes [] (str "\"a\\t\"") [scanLexeme [] (str "\"a\\t\"")] := .next (by decide) .done
  have decoded := (stringValue_reads_iff read (mem_singleton.2 rfl) (by decide) (by decide)).2
    (by decide)
  exact ⟨read, decoded.1 [97, 9] (by decide)⟩

/-- The escape of a hexadecimal number loses its meaning: the index becomes another field. -/
theorem stringValue_misreads :
    ∃ lexemes lexeme, Lexes [] (str "return t[\"\\x41\"]") lexemes ∧ lexeme ∈ lexemes ∧
      lexeme.kind = .string ∧ lexeme.error = none ∧
      stringValue lexeme.text = some (str "x41") ∧ literalValue lexeme.text = some (str "A") ∧
      keyFieldName (.string ⟨[], ⟨.string, lexeme.text, ⟨0, 0, 0⟩, ⟨0, 0, 0⟩⟩, []⟩) =
        some (str "x41") := by
  let literal : Lexeme := ⟨.string, str "\"\\x41\"", str "]", [], none⟩
  refine ⟨[⟨.name, str "return", str " t[\"\\x41\"]", [], none⟩,
    ⟨.whitespace, str " ", str "t[\"\\x41\"]", [], none⟩,
    ⟨.name, str "t", str "[\"\\x41\"]", [], none⟩,
    ⟨.symbol, str "[", str "\"\\x41\"]", [], none⟩, literal,
    ⟨.symbol, str "]", [], [], none⟩], literal, ?_, by simp, rfl, rfl, by decide, by decide,
    by decide⟩
  refine lexes_of_eq (by decide) (by decide +kernel) (lexes_of_eq (by decide) (by decide +kernel)
    (lexes_of_eq (by decide) (by decide +kernel) (lexes_of_eq (by decide) (by decide +kernel)
      (lexes_of_eq (by decide) (by decide +kernel)
        (lexes_of_eq (by decide) (by decide +kernel) .done)))))

end Rotor.Luau.Cst
