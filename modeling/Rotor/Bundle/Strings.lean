import Rotor.Luau.Render.Literals

/-!
String literals that are written into generated code.

The bundler embeds data and text files, the packer names of instances, as literals of Luau.  Short
ones are written between double quotes with escapes, of which the decimal ones have as many digits
as the byte needs; text files are written in long brackets of the first level whose brackets the
text does not have.
-/

namespace Rotor.Bundle

open Luau Luau.Lex Luau.Cst Luau.Render

/-! ### Short strings -/

/-- `strconv.Itoa` of a byte. -/
def itoa (c : UInt8) : Bytes := (Nat.toDigits 10 c.toNat).map fun digit => digit.toNat.toUInt8

def writeByte (c : UInt8) : Bytes :=
  if c = 34 then str "\\\""
  else if c = 92 then str "\\\\"
  else if c = 10 then str "\\n"
  else if c = 13 then str "\\r"
  else if c = 9 then str "\\t"
  else if c < 32 then str "\\" ++ itoa c
  else [c]

def quoted (s : Bytes) : Bytes := str "\"" ++ s.flatMap writeByte ++ str "\""

def luauShortString (s : Bytes) : Bytes := quoted s

end Rotor.Bundle

/-- The packer's literal, written by the same switch over the bytes. -/
def Rotor.Pack.luauString (s : Rotor.Bytes) : Rotor.Bytes := Rotor.Bundle.quoted s

namespace Rotor.Bundle

open List Luau Luau.Lex Luau.Cst Luau.Render

def isDecimal (c : UInt8) : Bool := decide (c < 32) && c != 9 && c != 10 && c != 13

/-- No decimal escape has a digit behind it. -/
def escapesEnd : Bytes → Bool
  | [] => true
  | c :: rest =>
    !(isDecimal c && (rest.head?.any isDigit)) && escapesEnd rest

def spare (c : UInt8) : Nat := if c < 10 then 2 else 1

def swallowed (c : UInt8) (rest : Bytes) : Bytes := (rest.take (spare c)).takeWhile isDigit

lemma writeByte_digit {c : UInt8} (digit : isDigit c) : writeByte c = [c] := by
  grind [writeByte, isDigit]

lemma head_writeByte : ∀ c : UInt8, isDigit c = false →
    ∃ d rest, writeByte c = d :: rest ∧ isDigit d = false := by
  intro c other
  rw [writeByte]
  split_ifs
  all_goals exact ⟨_, _, rfl, by first | rfl | exact other⟩

lemma takeWhile_written (s after : Bytes) (noDigit : after.head?.any isDigit = false)
    (count : Nat) :
    ((s.flatMap writeByte ++ after).take count).takeWhile isDigit =
      (s.take count).takeWhile isDigit := by
  induction s generalizing count with
  | nil =>
    cases count with
    | zero => rfl
    | succ count =>
      cases after with
      | nil => rfl
      | cons d after =>
        have other : isDigit d = false := noDigit
        simp [other]
  | cons c s ih =>
    cases count with
    | zero => rfl
    | succ count =>
      cases digit : isDigit c with
      | true =>
        simp only [flatMap_cons, writeByte_digit digit, cons_append,
          nil_append, take_succ_cons, takeWhile_cons_of_pos digit,
          ih]
      | false =>
        obtain ⟨d, rest, written, other⟩ := head_writeByte c digit
        simp [flatMap_cons, written, other, digit]

variable {s : Bytes}

lemma drop_written {digits : Bytes} (all : ∀ d ∈ digits, isDigit d) (after : Bytes) :
    ((digits ++ s).flatMap writeByte ++ after).drop digits.length =
      s.flatMap writeByte ++ after := by
  have plain : digits.flatMap writeByte = digits := by
    induction digits with
    | nil => rfl
    | cons d digits ih =>
      rw [flatMap_cons, writeByte_digit (all d mem_cons_self),
        ih fun e mem => all e (mem_cons_of_mem _ mem)]
      rfl
  rw [flatMap_append, plain, append_assoc, drop_left]

lemma itoa_spec : ∀ c : UInt8, c < 32 → decimalNumber (itoa c) = c.toNat ∧
    if c < 10 then itoa c = [c + 48] ∧ isDigit (c + 48)
    else itoa c = [c / 10 + 48, c % 10 + 48] ∧ isDigit (c / 10 + 48) ∧ isDigit (c % 10 + 48) :=
  forall_byte (by decide +kernel)

def written (s : Bytes) : Bytes := s.flatMap writeByte ++ [34]

lemma readEscape_digit {d : UInt8} (digit : isDigit d) (rest : Bytes) :
    readEscape (d :: rest) = readDecimal d rest := by
  have notHex : d ≠ 120 := by rintro rfl; nomatch digit
  have notCode : d ≠ 117 := by rintro rfl; nomatch digit
  have notSpace : d ≠ 122 := by rintro rfl; nomatch digit
  rw [readEscape, if_neg notHex, if_neg notCode, if_neg notSpace, if_pos digit]

lemma swallowed_isPrefix (c : UInt8) (s : Bytes) : swallowed c s <+: s := by
  have front : swallowed c s <+: s.take (spare c) := takeWhile_prefix _
  exact front.trans <| take_prefix _ _

lemma drop_swallowed (c : UInt8) (s : Bytes) :
    (written s).drop (swallowed c s).length = written (s.drop (swallowed c s).length) := by
  have front := swallowed_isPrefix c s
  have all : ∀ d ∈ swallowed c s, isDigit d = true := fun d mem =>
    mem_takeWhile_imp mem
  generalize swallowed c s = digits at front all ⊢
  obtain ⟨behind, rfl⟩ := front
  rw [drop_left]
  exact drop_written all [34]

lemma readEscape_itoa {c : UInt8} (small : c < 32) (s : Bytes) :
    readEscape (itoa c ++ written s) =
      let num := decimalNumber (itoa c ++ swallowed c s)
      if num < 256 then
        some ([num.toUInt8], written (s.drop (swallowed c s).length))
      else none := by
  have taken : ∀ count, ((written s).take count).takeWhile isDigit =
      (s.take count).takeWhile isDigit := takeWhile_written s [34] rfl
  have spec := (itoa_spec c small).2
  split_ifs at spec with short
  · obtain ⟨digits, digit⟩ := spec
    have two : (s.take 2).takeWhile isDigit = swallowed c s := by
      rw [swallowed, spare, if_pos short]
    simp only [digits, cons_append, nil_append]
    rw [readEscape_digit digit, readDecimal, taken, two, drop_swallowed]
  · obtain ⟨digits, first, second⟩ := spec
    have one : (s.take 1).takeWhile isDigit = swallowed c s := by
      rw [swallowed, spare, if_neg short]
    simp only [digits, cons_append, nil_append]
    rw [readEscape_digit first, readDecimal, take_succ_cons,
      takeWhile_cons_of_pos second, taken, one, length_cons, drop_succ_cons,
      drop_swallowed]

lemma writeByte_decimal {c : UInt8} (decimal : isDecimal c) :
    c < 32 ∧ writeByte c = 92 :: itoa c := by
  simp only [isDecimal, Bool.and_eq_true, decide_eq_true_eq, bne_iff_ne] at decimal
  obtain ⟨⟨⟨small, notTab⟩, notLine⟩, notReturn⟩ := decimal
  have notQuote : c ≠ 34 := by rintro rfl; exact absurd small (by decide)
  have notSlash : c ≠ 92 := by rintro rfl; exact absurd small (by decide)
  refine ⟨small, ?_⟩
  rw [writeByte, if_neg notQuote, if_neg notSlash, if_neg notLine, if_neg notReturn,
    if_neg notTab, if_pos small]
  rfl

lemma shortValue_plainEscape {e c : UInt8} (plain : plainEscape e)
    (stands : unescapeByte e = c) (fuel : Nat) (rest : Bytes) :
    shortValue 34 (fuel + 1) (92 :: e :: rest) =
      (shortValue 34 fuel rest).map fun (val, after) => (c :: val, after) := by
  rw [shortValue, if_neg (by decide), if_pos rfl, readEscape_plain plain, Option.bind_some, stands]
  rfl

lemma shortValue_writeByte {c : UInt8} (plain : isDecimal c = false) (fuel : Nat) (rest : Bytes) :
    shortValue 34 (fuel + 1) (writeByte c ++ rest) =
      (shortValue 34 fuel rest).map fun (val, after) => (c :: val, after) := by
  rw [writeByte]
  split_ifs with quote slash line return' tab small
  · exact @shortValue_plainEscape 34 c rfl quote.symm fuel rest
  · exact @shortValue_plainEscape 92 c rfl slash.symm fuel rest
  · exact @shortValue_plainEscape 110 c rfl line.symm fuel rest
  · exact @shortValue_plainEscape 114 c rfl return'.symm fuel rest
  · exact @shortValue_plainEscape 116 c rfl tab.symm fuel rest
  · simp [isDecimal, small, line, return', tab] at plain
  · have unbroken : isBroken c = false := by
      have notZero : c ≠ 0 := by rintro rfl; exact small (by decide)
      simp [isBroken, line, return', notZero]
    rw [singleton_append, shortValue, if_neg quote, if_neg slash, unbroken]
    rfl

lemma shortValue_decimal {c : UInt8} (decimal : isDecimal c) (fuel : Nat) (s : Bytes) :
    shortValue 34 (fuel + 1) (writeByte c ++ written s) =
      let num := decimalNumber (itoa c ++ swallowed c s)
      if num < 256 then
        (shortValue 34 fuel (written (s.drop (swallowed c s).length))).map
          fun (val, after) => (num.toUInt8 :: val, after)
      else none := by
  obtain ⟨small, escape⟩ := writeByte_decimal decimal
  rw [escape, cons_append, shortValue, if_neg (by decide), if_pos rfl, readEscape_itoa small]
  dsimp only
  split <;> rfl

lemma written_cons (c : UInt8) (s : Bytes) : written (c :: s) = writeByte c ++ written s := by
  rw [written, flatMap_cons, append_assoc, written]

lemma swallowed_eq_nil {c : UInt8} (noDigit : s.head?.any isDigit = false) :
    swallowed c s = [] := by
  cases s with
  | nil => rw [swallowed, take_nil]; rfl
  | cons d s =>
    have other : ¬ isDigit d := by simpa using noDigit
    rw [swallowed, spare]
    split
    · rw [take_succ_cons, takeWhile_cons_of_neg other]
    · rw [take_succ_cons, takeWhile_cons_of_neg other]

lemma swallowed_ne_nil {c : UInt8} (digit : s.head?.any isDigit) :
    swallowed c s ≠ [] := by
  cases s with
  | nil => nomatch digit
  | cons d s =>
    have first : isDigit d := by simpa using digit
    rw [swallowed, spare]
    split
    · rw [take_succ_cons, takeWhile_cons_of_pos first]
      exact cons_ne_nil _ _
    · rw [take_succ_cons, takeWhile_cons_of_pos first]
      exact cons_ne_nil _ _

variable {fuel : Nat}

lemma shortValue_written (ends : escapesEnd s)
    (enough : s.length < fuel) : shortValue 34 fuel (written s) = some (s, []) := by
  induction s generalizing fuel with
  | nil =>
    obtain ⟨fuel, rfl⟩ := Nat.exists_eq_succ_of_ne_zero (Nat.ne_of_gt enough)
    rfl
  | cons c s ih =>
    obtain ⟨fuel, rfl⟩ := Nat.exists_eq_succ_of_ne_zero (Nat.ne_of_gt (Nat.zero_lt_of_lt enough))
    simp only [escapesEnd, Bool.and_eq_true, Bool.not_eq_true', Bool.and_eq_false_iff] at ends
    have read := ih ends.2 (Nat.lt_of_succ_lt_succ enough)
    rw [written_cons]
    cases decimal : isDecimal c with
    | false => rw [shortValue_writeByte decimal, read]; rfl
    | true =>
      have noDigit : s.head?.any isDigit = false := by simpa [decimal] using ends.1
      have num := (itoa_spec c (writeByte_decimal decimal).1).1
      rw [shortValue_decimal decimal, swallowed_eq_nil noDigit]
      simp only [append_nil, num, c.toNat_lt, if_true, length_nil, drop_zero,
        read, Option.map_some, UInt8.ofNat_toNat, Nat.toUInt8_eq]

variable {after : Bytes}

lemma shortValue_written_length {val : Bytes}
    (read : shortValue 34 fuel (written s) = some (val, after)) :
    val.length ≤ s.length ∧ (escapesEnd s = false → val.length < s.length) := by
  induction fuel generalizing s val with
  | zero => nomatch read
  | succ fuel ih =>
    cases s with
    | nil =>
      cases read
      exact ⟨le_rfl, fun impossible => nomatch impossible⟩
    | cons c s =>
      rw [written_cons] at read
      cases decimal : isDecimal c with
      | false =>
        rw [shortValue_writeByte decimal] at read
        obtain ⟨⟨rest, _⟩, readRest, same⟩ := Option.map_eq_some_iff.mp read
        cases same
        have shorter := ih readRest
        simp only [escapesEnd, decimal, Bool.false_and, Bool.not_false, Bool.true_and,
          length_cons, Nat.add_le_add_iff_right, Nat.add_lt_add_iff_right]
        exact shorter
      | true =>
        rw [shortValue_decimal decimal] at read
        dsimp only at read
        split at read
        · obtain ⟨⟨rest, _⟩, readRest, same⟩ := Option.map_eq_some_iff.mp read
          cases same
          have shorter := ih readRest
          rw [length_drop] at shorter
          simp only [length_cons]
          cases digit : s.head?.any isDigit with
          | true =>
            have some' := length_pos_iff.mpr (swallowed_ne_nil (c := c) digit)
            have front := (swallowed_isPrefix c s).length_le
            omega
          | false =>
            rw [swallowed_eq_nil digit] at shorter
            simp only [escapesEnd, decimal, digit, Bool.and_false, Bool.not_false, Bool.true_and]
            exact ⟨by omega, fun bad => by have := shorter.2 bad; omega⟩
        · nomatch read

lemma length_written (s : Bytes) : s.length < (written s).length := by
  induction s with
  | nil => decide
  | cons c s ih =>
    have some' : 0 < (writeByte c).length := by
      rw [writeByte]
      split_ifs <;> simp [str]
    rw [written_cons, length_append, length_cons]
    omega

lemma literalValue_quoted (s : Bytes) : literalValue (quoted s) = some s ↔ escapesEnd s := by
  have text : quoted s = 34 :: written s := by
    rfl
  have literal : literalValue (quoted s) =
      (shortValue 34 (written s).length (written s)).bind fun (val, after) =>
        if after.all isSpace then some val else none := by
    rfl
  rw [literal]
  constructor
  · intro same
    obtain ⟨⟨val, after⟩, read, kept⟩ := Option.bind_eq_some_iff.mp same
    dsimp only at kept
    split at kept
    · obtain rfl := Option.some.inj kept
      have shorter := (shortValue_written_length read).2
      cases ends : escapesEnd val with
      | true => rfl
      | false => exact absurd (shorter ends) (lt_irrefl _)
    · cases kept
  · intro ends
    rw [shortValue_written ends (length_written s)]
    rfl

/-- The literals of the bundler and of the packer stand for the string exactly when no byte that
is written as a decimal escape has a digit behind it. -/
theorem generatedString_reads_iff (s : Bytes) :
    (literalValue (luauShortString s) = some s ∧ literalValue (Pack.luauString s) = some s) ↔
      escapesEnd s = true := by
  rw [luauShortString, Pack.luauString, and_self]
  exact literalValue_quoted s

/-- The byte 1 in front of the digit 2 is read as the byte 12. -/
theorem generatedString_misreads : literalValue (luauShortString [1, 50]) = some [12] ∧
      literalValue (Pack.luauString [1, 50]) = some [12] := by
  decide +kernel

/-! ### Long strings -/

def hasBracket (s : Bytes) (level : Nat) : Bool :=
  containsBytes s (closingBracket level) || containsBytes s (openingBracket level)

/-- The search for a level; `none` is a search that is still going on after that many turns. -/
def searchLevel (s : Bytes) : Nat → Nat → Option Nat
  | 0, _ => none
  | fuel + 1, level =>
    if !hasBracket s level then some level else searchLevel s fuel (level + 1)

/-- The line break behind the opening bracket is the one that the language drops. -/
def luauLongString (fuel : Nat) (s : Bytes) : Option Bytes :=
  (searchLevel s fuel 0).map fun level =>
    let eq := repeatByte 61 level
    str "[" ++ eq ++ str "[\n" ++ s ++ str "]" ++ eq ++ str "]"

variable {level : Nat}

lemma searchLevel_first {start : Nat} (found : searchLevel s fuel start = some level) :
    start ≤ level ∧ hasBracket s level = false ∧
      ∀ lower, start ≤ lower → lower < level → hasBracket s lower := by
  induction fuel generalizing start with
  | zero => nomatch found
  | succ fuel ih =>
    rw [searchLevel] at found
    cases present : hasBracket s start with
    | false =>
      rw [present] at found
      cases found
      exact ⟨le_rfl, present, fun lower above below => absurd below (Nat.not_lt.mpr above)⟩
    | true =>
      rw [present] at found
      obtain ⟨above, free, taken⟩ := ih found
      refine ⟨by omega, free, fun lower from' below => ?_⟩
      rcases Nat.eq_or_lt_of_le from' with rfl | later
      · exact present
      · exact taken lower later below

lemma hasBracket_of_length (long : s.length ≤ level) :
    hasBracket s level = false := by
  rw [hasBracket, Bool.or_eq_false_iff, Bool.eq_false_iff, Bool.eq_false_iff, ne_eq, ne_eq,
    containsBytes_iff, containsBytes_iff]
  constructor
  · intro inside
    have fits := inside.length_le
    simp only [closingBracket, repeatByte, length_cons, length_append,
      length_replicate] at fits
    omega
  · intro inside
    have fits := inside.length_le
    rw [openingBracket_length] at fits
    omega

lemma searchLevel_ends {start : Nat} (enough : s.length < start + fuel)
    (within : start ≤ s.length) : ∃ level, searchLevel s fuel start = some level := by
  induction fuel generalizing start with
  | zero => omega
  | succ fuel ih =>
    rw [searchLevel]
    split
    · exact ⟨start, rfl⟩
    · rename_i present
      have before : start < s.length := by
        by_contra beyond
        exact present (by rw [hasBracket_of_length (Nat.not_lt.mp beyond)]; rfl)
      exact ih (by omega) before

/-- The texts that their long string stands for: without a zero byte, and without the front of
the closing bracket of the level that is chosen at their end. -/
def Embeds (s : Bytes) : Prop :=
  0 ∉ s ∧ ∀ level, hasBracket s level = false →
    (∀ lower < level, hasBracket s lower = true) → ¬(93 :: repeatByte 61 level) <:+ s

lemma longText_split {closing text body : Bytes}
    (read : longText closing text = some (body, after)) :
    text = body ++ (closing ++ after) ∧ 0 ∉ body := by
  induction text generalizing body with
  | nil => cases read
  | cons c text ih =>
    rw [longText] at read
    split at read
    · rename_i begins
      cases read
      have front := isPrefixOf_iff_prefix.mp begins
      exact ⟨(prefix_iff_eq_append.mp front).symm, not_mem_nil⟩
    · split at read
      · cases read
      · rename_i solid
        obtain ⟨⟨rest, behind⟩, readRest, same⟩ := Option.map_eq_some_iff.mp read
        cases same
        obtain ⟨split', zeroFree⟩ := ih readRest
        refine ⟨congrArg (c :: ·) split', fun mem => ?_⟩
        rcases mem_cons.mp mem with rfl | later
        · exact solid rfl
        · exact zeroFree later

lemma longText_length_le {closing front back body : Bytes} (some' : closing ≠ [])
    (closes : closing <+: back) (read : longText closing (front ++ back) = some (body, after)) :
    body.length ≤ front.length := by
  induction front generalizing body with
  | nil =>
    cases back with
    | nil => exact absurd (prefix_nil.mp closes) some'
    | cons c back =>
      have here := isPrefixOf_iff_prefix.mpr closes
      rw [nil_append, longText, if_pos here] at read
      cases read
      exact le_rfl
  | cons c front ih =>
    rw [cons_append, longText] at read
    split at read
    · cases read
      exact Nat.zero_le _
    · split at read
      · cases read
      · obtain ⟨⟨rest, behind⟩, readRest, same⟩ := Option.map_eq_some_iff.mp read
        cases same
        exact Nat.succ_le_succ (ih readRest)

lemma readLiteral_level (level : Nat) (s : Bytes) :
    readLiteral (str "[" ++ repeatByte 61 level ++ str "[\n" ++ s ++ str "]" ++
        repeatByte 61 level ++ str "]") =
      (longText (closingBracket level) ((10 :: s) ++ (closingBracket level ++ []))).map
        fun (text, after) => (dropLineBreak text, after) := by
  have text : str "[" ++ repeatByte 61 level ++ str "[\n" ++ s ++ str "]" ++
      repeatByte 61 level ++ str "]" =
        openingBracket level ++ ((10 :: s) ++ (closingBracket level ++ [])) := by
    simp only [openingBracket, closingBracket, append_assoc, cons_append,
      nil_append, append_nil]
    rfl
  have opens : longBracketLevel (openingBracket level ++
      ((10 :: s) ++ (closingBracket level ++ []))) = some level :=
    longBracketLevel_eq_some.2 ⟨_, rfl⟩
  rw [text, readLiteral_of_level opens, ← openingBracket_length level, drop_left]

lemma unclosed_lineBreak (inside : hasBracket s level = false)
    (atEnd : ¬(93 :: repeatByte 61 level) <:+ s) : Unclosed level (10 :: s) where
  inside infix' := by
    rcases infix_cons_iff.mp infix' with begins | later
    · exact absurd (cons_prefix_cons.mp begins).1 (by decide)
    · rw [hasBracket, Bool.or_eq_false_iff, Bool.eq_false_iff] at inside
      exact inside.1 (containsBytes_iff.mpr later)
  atEnd suffix := by
    rcases suffix_cons_iff.mp suffix with whole | later
    · exact absurd (List.cons.inj whole).1 (by decide)
    · exact atEnd later

/-- The long string of a text is found, and it is one literal that stands for the text, exactly
when the text embeds.  A text with carriage returns is left out: the language takes them off the
ends of lines, which `longText` does not. -/
theorem luauLongString_reads_iff {s : Bytes} (noReturn : 13 ∉ s) :
    (∃ fuel text, luauLongString fuel s = some text ∧ readLiteral text = some (s, [])) ↔
      Embeds s := by
  constructor
  · rintro ⟨fuel, text, found, read⟩
    obtain ⟨level, searched, rfl⟩ := Option.map_eq_some_iff.mp found
    obtain ⟨-, free, taken⟩ := searchLevel_first searched
    rw [readLiteral_level] at read
    obtain ⟨⟨body, after⟩, readBody, same⟩ := Option.map_eq_some_iff.mp read
    obtain ⟨dropped, rfl⟩ := Prod.mk.inj same
    obtain ⟨split', zeroFree⟩ := longText_split readBody
    obtain rfl := append_cancel_right split'
    refine ⟨fun zero => zeroFree (mem_cons_of_mem _ zero), fun other otherFree lower ends => ?_⟩
    -- Only one level is free with all the lower ones taken.
    have chosen : other = level := by
      rcases Nat.lt_trichotomy other level with less | equal | more
      · exact absurd (taken other (Nat.zero_le _) less) (by simp [otherFree])
      · exact equal
      · exact absurd (lower level more) (by simp [free])
    subst chosen
    obtain ⟨front, rfl⟩ := ends
    have closes : closingBracket other <+:
        (93 :: repeatByte 61 other) ++ (closingBracket other ++ []) :=
      ⟨repeatByte 61 other ++ [93], by simp [closingBracket]⟩
    have again : (10 :: (front ++ 93 :: repeatByte 61 other)) ++ (closingBracket other ++ []) =
        (10 :: front) ++ ((93 :: repeatByte 61 other) ++ (closingBracket other ++ [])) := by
      simp
    rw [again] at readBody
    have short := longText_length_le (cons_ne_nil _ _) closes readBody
    simp only [length_cons, length_append] at short
    omega
  · rintro ⟨zeroFree, ends⟩
    obtain ⟨level, searched⟩ := @searchLevel_ends s (s.length + 1) 0 (by omega) (Nat.zero_le _)
    obtain ⟨-, free, taken⟩ := searchLevel_first searched
    have unclosed := unclosed_lineBreak free
      (ends level free fun lower below => taken lower (Nat.zero_le _) below)
    refine ⟨s.length + 1, _, Option.map_eq_some_iff.mpr ⟨level, searched, rfl⟩, ?_⟩
    have noZero : ¬ (10 :: s).contains 0 = true := by simpa using zeroFree
    rw [readLiteral_level, longText_unclosed unclosed, if_neg noZero]
    rfl

theorem luauLongString_reads_brackets :
    ∃ fuel text, luauLongString fuel (str "\nx[[y]] ]=].") = some text ∧
      readLiteral text = some (str "\nx[[y]] ]=].", []) := by
  refine (@luauLongString_reads_iff (str "\nx[[y]] ]=].") (by decide)).mpr ⟨by decide, ?_⟩
  intro level free taken ends
  match level with
  | 0 => exact absurd free (by decide +kernel)
  | 1 => exact absurd free (by decide +kernel)
  | 2 => exact absurd ends (by decide +kernel)
  | level + 3 => exact absurd (taken 2 (by omega)) (by decide +kernel)

/-- The bracket at the end of the text closes the literal together with the first byte of the
closing bracket. -/
theorem luauLongString_closesEarly :
    (luauLongString 1 (str "a]")).bind readLiteral = some (str "a", str "]") := by
  decide +kernel

end Rotor.Bundle
