import Rotor.Luau.Lex.Lossless

/-!
Where a token ends.

The dispatch of `run` reads past the end of a token to see that it ends there.  How
far it reads depends on the kind: names, numbers and most symbols look at the next
byte, strings and interpolation chunks carry their own delimiter, and an opening
bracket reads on over any number of equals signs.
-/

namespace Rotor.Luau.Lex

open List

variable {c d : UInt8} {rest r : Bytes} {p : UInt8 → Bool}

/-! ### Numbers -/

def continuesNumber (c : UInt8) : Bool := isNameCont c || c == 46 || c == 43 || c == 45

/-- Replacing what follows a number by bytes that begin in the same way, or that no
number goes on with. -/
def SameStart (r r' : Bytes) : Prop :=
  (∀ c ∈ r'.head?, continuesNumber c = false) ∨ (r'.head? = r.head? ∧ r'.head? ≠ some 46)

lemma SameStart.not_dot {r' : Bytes} (same : SameStart r r') : r'.head? ≠ some 46 := by
  rcases same with free | ⟨-, notDot⟩
  · intro dot
    exact absurd (free 46 dot) (by decide)
  · exact notDot

lemma SameStart.head_ne {r' : Bytes} (same : SameStart r r')
    (continues : ∀ c, p c → continuesNumber c) (stops : ∀ c ∈ r.head?, p c = false) :
    ∀ c ∈ r'.head?, p c = false := by
  intro c begins
  rcases same with free | ⟨heads, -⟩
  · cases found : p c with
    | false => rfl
    | true => exact absurd (continues c found) (by simp [free c begins])
  · exact stops c (heads ▸ begins)

lemma consumeWhile_eq_iff {s : Bytes} :
    consumeWhile p (s ++ r) = (s, r) ↔ (∀ c ∈ s, p c) ∧ ∀ c ∈ r.head?, p c = false := by
  rw [consumeWhile, Prod.mk.injEq]
  induction s with
  | nil =>
    cases r with
    | nil => simp
    | cons c more => cases found : p c <;> simp [found]
  | cons c s ih => cases found : p c <;> simp [found, ih]

lemma digits_continue : ∀ c : UInt8, (isDigit c || c == 95) → continuesNumber c := by
  simp +contextual [continuesNumber, isNameCont, isNameStart, or_imp]

lemma hex_continue : ∀ c : UInt8, (isHex c || c == 95) → continuesNumber c := by
  grind [isHex, isDigit, continuesNumber, isNameCont, isNameStart]

def isSign (c : UInt8) : Bool := c == 43 || c == 45

lemma sign_continues : ∀ c : UInt8, isSign c → continuesNumber c := by
  simp +contextual [isSign, continuesNumber, or_imp]

lemma peekAt_zero_ne (notDot : rest.head? ≠ some 46) : peekAt rest 0 ≠ 46 := by
  cases rest with
  | nil => decide
  | cons c more => simpa [peekAt] using notDot

section Number

variable {ok ok' : Bytes → Prop} {first second next : Bytes → Bytes × Bytes} {e1 e2 : UInt8}
  {digit : UInt8 → Bool} {a r' : Bytes}

/-- What is consumed in front of `r`, with some admissible bytes between, is consumed in front of
`r'` as well. -/
def Local (r r' : Bytes) (ok : Bytes → Prop) (scan : Bytes → Bytes × Bytes) : Prop :=
  ∀ t s, ok s → scan (t ++ (s ++ r)) = (t, s ++ r) → scan (t ++ (s ++ r')) = (t, s ++ r')

def andThen (first second : Bytes → Bytes × Bytes) (rest : Bytes) : Bytes × Bytes :=
  ((first rest).1 ++ (second (first rest).2).1, (second (first rest).2).2)

/-- A byte that may be missing, and what comes behind it. -/
def afterByte (p : UInt8 → Bool) (next : Bytes → Bytes × Bytes) : Bytes → Bytes × Bytes
  | [] => ([], [])
  | c :: more => if p c then (c :: (next more).1, (next more).2) else ([], c :: more)

lemma Local.consumeWhile (same : SameStart r r')
    (continues : ∀ c, p c → continuesNumber c) : Local r r' ok (consumeWhile p) := by
  intro t s _ consumed
  obtain ⟨all, stops⟩ := consumeWhile_eq_iff.mp consumed
  refine consumeWhile_eq_iff.mpr ⟨all, ?_⟩
  cases s with
  | nil => exact same.head_ne continues stops
  | cons c s => simpa using stops

lemma Local.andThen (lossless : ∀ rest, (second rest).1 ++ (second rest).2 = rest)
    (admits : ∀ rest s, ok' s → ok ((second rest).1 ++ s)) (left : Local r r' ok first)
    (right : Local r r' ok' second) : Local r r' ok' (andThen first second) := by
  intro t s admissible consumed
  obtain ⟨texts, remains⟩ := Prod.ext_iff.mp consumed
  dsimp only [Lex.andThen] at texts remains
  have middle := lossless (first (t ++ (s ++ r))).2
  rw [remains] at middle
  have before := left (first (t ++ (s ++ r))).1 ((second (first (t ++ (s ++ r))).2).1 ++ s)
    (admits _ s admissible)
  have behind := right (second (first (t ++ (s ++ r))).2).1 s admissible
  rw [middle] at behind
  have behind := behind (Prod.ext rfl remains)
  rw [append_assoc, ← append_assoc, texts, append_assoc, middle] at before
  have before := before rfl
  rw [← append_assoc, texts] at before
  rw [Lex.andThen, before, behind, texts]

lemma Local.afterByte (same : SameStart r r')
    (continues : ∀ c, p c → continuesNumber c) (inner : Local r r' ok next) :
    Local r r' ok (afterByte p next) := by
  intro t s admissible consumed
  cases t with
  | cons c t =>
    rw [cons_append, Lex.afterByte] at consumed ⊢
    split at consumed
    · next begins =>
      rw [if_pos begins, inner t s admissible (by simpa [Prod.ext_iff] using consumed)]
    · nomatch congrArg Prod.fst consumed
  | nil =>
    have stops : ∀ c ∈ (s ++ r).head?, p c = false := by
      intro c begins
      obtain ⟨more, isCons⟩ := List.head?_eq_some_iff.mp begins
      cases found : p c with
      | false => rfl
      | true => simp [isCons, Lex.afterByte, found] at consumed
    have stops' : ∀ c ∈ (s ++ r').head?, p c = false := by
      cases s with
      | nil => exact same.head_ne continues stops
      | cons c s => exact stops
    rw [nil_append]
    cases isCons : s ++ r' with
    | nil => rfl
    | cons c more => rw [Lex.afterByte, if_neg (by simp [stops' c (by simp [isCons])])]

lemma consumeExponent_eq : consumeExponent e1 e2 = afterByte (fun c => c == e1 || c == e2)
    (andThen (afterByte isSign fun rest => ([], rest))
      (consumeWhile fun c => isDigit c || c == 95)) := by
  funext rest
  cases rest with
  | nil => rfl
  | cons c more =>
    cases more with
    | nil => simp [consumeExponent, afterByte, andThen, consumeWhile]
    | cons sign more =>
      by_cases signed : sign = 43 ∨ sign = 45
      · simp [consumeExponent, afterByte, andThen, isSign, signed]
      · simp [consumeExponent, afterByte, andThen, isSign, signed]

lemma Local.consumeExponent (same : SameStart r r')
    (letters : ∀ c, (c == e1 || c == e2) → continuesNumber c) :
    Local r r' ok (consumeExponent e1 e2) := by
  rw [consumeExponent_eq]
  have nothing : Local r r' (fun _ => True) fun rest => ([], rest) := by
    intro t s _ consumed
    cases t with
    | nil => rfl
    | cons c t => nomatch congrArg Prod.fst consumed
  exact .afterByte same letters (.andThen (consumeWhile_append _) (fun _ _ _ => trivial)
    (.afterByte same sign_continues nothing)
    (.consumeWhile same digits_continue))

lemma Local.consumeFraction (same : SameStart r r')
    (digits : ∀ c, (digit c || c == 95) → continuesNumber c) :
    Local r r' (·.head? ≠ some 46) (consumeFraction digit) := by
  intro t s notDot consumed
  cases t with
  | cons c t =>
    rw [cons_append, Lex.consumeFraction] at consumed ⊢
    split at consumed
    · next begins =>
      simp only [Bool.and_eq_true, decide_eq_true_eq] at begins
      have single : peekAt (t ++ (s ++ r')) 0 ≠ 46 := by
        cases t with
        | cons d t => exact begins.2
        | nil =>
          cases s with
          | cons d s => exact begins.2
          | nil => exact peekAt_zero_ne same.not_dot
      have inner : Local r r' (fun _ => True) (Lex.consumeWhile fun c => digit c || c == 95) :=
        .consumeWhile same digits
      rw [if_pos (by simp [begins.1, single]),
        inner t s trivial (by simpa [Prod.ext_iff] using consumed)]
    · cases congrArg Prod.fst consumed
  | nil =>
    have notDot' : (s ++ r').head? ≠ some 46 := by
      cases s with
      | nil => exact same.not_dot
      | cons c s => exact notDot
    cases isCons : s ++ r' with
    | nil => rfl
    | cons c more =>
      have other : c ≠ 46 := by simpa [isCons] using notDot'
      simp [Lex.consumeFraction, other]

lemma Local.digitsAndTail (same : SameStart r r') (continues : ∀ c, p c → continuesNumber c)
    (digits : ∀ c, (digit c || c == 95) → continuesNumber c)
    (letters : ∀ c, (c == e1 || c == e2) → continuesNumber c)
    (notLetter : (46 == e1 || 46 == e2) = false) : Local r r' (· = [])
      (Lex.andThen (Lex.consumeWhile p) (consumeFractionAndExponent digit e1 e2)) := by
  have tail : Local r r' (· = []) (consumeFractionAndExponent digit e1 e2) := by
    refine .andThen (consumeExponent_append e1 e2) (fun rest s empty dot => ?_)
      (.consumeFraction same digits) (.consumeExponent same letters)
    rw [empty, append_nil, consumeExponent_eq] at dot
    cases rest with
    | nil => nomatch dot
    | cons c more =>
      rw [Lex.afterByte] at dot
      split at dot
      · next letter =>
        obtain rfl : c = 46 := Option.some.inj dot
        exact absurd (notLetter.symm.trans letter) (by decide)
      · nomatch dot
  have front : Local r r' (fun _ => True) (Lex.consumeWhile p) := .consumeWhile same continues
  exact .andThen (consumeFractionAndExponent_append digit e1 e2) (fun _ _ _ => trivial) front tail

def isBasePrefix (x y : UInt8) (rest : Bytes) : Bool :=
  peekAt rest 0 = 48 && (peekAt rest 1 = x || peekAt rest 1 = y)

lemma scanNumber_hex (hex : isBasePrefix 120 88 (c :: d :: rest)) : scanNumber (c :: d :: rest) =
      let tail := andThen (consumeWhile fun c => isHex c || c == 95)
        (consumeFractionAndExponent isHex 112 80) rest
      (c :: d :: tail.1, tail.2) := if_pos hex

lemma scanNumber_binary (notHex : isBasePrefix 120 88 (c :: d :: rest) = false)
    (binary : isBasePrefix 98 66 (c :: d :: rest)) : scanNumber (c :: d :: rest) =
      let digits := consumeWhile (fun c => c == 48 || c == 49 || c == 95) rest
      (c :: d :: digits.1, digits.2) := (if_neg (Bool.not_eq_true _ ▸ notHex)).trans (if_pos binary)

lemma scanNumber_decimal (notHex : isBasePrefix 120 88 rest = false)
    (notBinary : isBasePrefix 98 66 rest = false) : scanNumber rest =
      andThen (consumeWhile fun c => isDigit c || c == 95)
        (consumeFractionAndExponent isDigit 101 69) rest :=
  (if_neg (Bool.not_eq_true _ ▸ notHex)).trans (if_neg (Bool.not_eq_true _ ▸ notBinary))

lemma isBasePrefix_local {x y : UInt8} (same : SameStart r r')
    (letters : ∀ d, d = x ∨ d = y → continuesNumber d)
    (unbased : isBasePrefix x y (c :: r) = false) : isBasePrefix x y (c :: r') = false := by
  refine Bool.eq_false_iff.mpr fun based => Bool.eq_false_iff.mp unbased ?_
  simp only [isBasePrefix, Bool.and_eq_true, Bool.or_eq_true, decide_eq_true_eq] at based ⊢
  have letter := letters _ based.2
  cases r' with
  | nil => nomatch letter
  | cons d more =>
    rcases same with free | ⟨heads, -⟩
    · exact absurd letter (Bool.eq_false_iff.mp (free d rfl))
    · obtain ⟨more', rfl⟩ := List.head?_eq_some_iff.mp heads.symm
      exact based

/-- A number is the same number before bytes that begin in the same way, or that no
number goes on with. -/
theorem scanNumber_local (same : SameStart r r') (nonempty : a ≠ [])
    (consumed : scanNumber (a ++ r) = (a, r)) : scanNumber (a ++ r') = (a, r') := by
  have decimal (before : isBasePrefix 120 88 (a ++ r) = false ∧ isBasePrefix 98 66 (a ++ r) = false)
      (after : isBasePrefix 120 88 (a ++ r') = false ∧ isBasePrefix 98 66 (a ++ r') = false) :
      scanNumber (a ++ r') = (a, r') := by
    rw [scanNumber_decimal before.1 before.2] at consumed
    rw [scanNumber_decimal after.1 after.2]
    exact Local.digitsAndTail same digits_continue digits_continue
      (forall_byte (by decide +kernel)) rfl a [] rfl consumed
  obtain ⟨c, s, rfl⟩ := exists_cons_of_ne_nil nonempty
  cases s with
  | nil =>
    -- One digit: a base letter behind it would have been consumed.
    have unbased : isBasePrefix 120 88 (c :: r) = false ∧ isBasePrefix 98 66 (c :: r) = false := by
      cases r with
      | nil => simp [isBasePrefix, peekAt]
      | cons d more =>
        cases hex : isBasePrefix 120 88 (c :: d :: more) with
        | true =>
          rw [singleton_append, scanNumber_hex hex] at consumed
          simp at consumed
        | false =>
          refine ⟨rfl, Bool.eq_false_iff.mpr fun binary => ?_⟩
          rw [singleton_append, scanNumber_binary hex binary] at consumed
          simp at consumed
    refine decimal unbased ⟨?_, ?_⟩
    · exact isBasePrefix_local same (forall_byte (by decide +kernel)) unbased.1
    · exact isBasePrefix_local same (forall_byte (by decide +kernel)) unbased.2
  | cons d s =>
    cases hex : isBasePrefix 120 88 (c :: d :: (s ++ r)) with
    | true =>
      have hex' : isBasePrefix 120 88 (c :: d :: (s ++ r')) := hex
      simp only [cons_append, scanNumber_hex hex, scanNumber_hex hex'] at consumed ⊢
      have tail : Local r r' (· = []) (andThen (consumeWhile fun c => isHex c || c == 95)
          (consumeFractionAndExponent isHex 112 80)) :=
        .digitsAndTail same hex_continue hex_continue (forall_byte (by decide +kernel)) rfl
      have tail := tail s [] rfl (by simpa [Prod.ext_iff] using consumed)
      rw [nil_append] at tail
      rw [tail]
    | false =>
      cases binary : isBasePrefix 98 66 (c :: d :: (s ++ r)) with
      | true =>
        have hex' : isBasePrefix 120 88 (c :: d :: (s ++ r')) = false := hex
        have binary' : isBasePrefix 98 66 (c :: d :: (s ++ r')) := binary
        simp only [cons_append, scanNumber_binary hex binary,
          scanNumber_binary hex' binary'] at consumed ⊢
        have digits : Local r r' (fun _ => True)
            (consumeWhile fun c => c == 48 || c == 49 || c == 95) :=
          .consumeWhile same (forall_byte (by decide +kernel))
        have digits := digits s [] trivial (by simpa [Prod.ext_iff] using consumed)
        rw [nil_append] at digits
        rw [digits]
      | false => exact decimal ⟨hex, binary⟩ ⟨hex, binary⟩

end Number

/-! ### Delimited tokens -/

section Steps

variable {quote : UInt8} {skip : Bool} {more : Bytes}

lemma shortStringBody_skip (skipped : (skip && isSpace c)) :
    shortStringBody quote skip (c :: more) = (shortStringBody quote true more).cons [c] := by
  rw [shortStringBody.eq_def]
  exact if_pos skipped

lemma shortStringBody_quote (notSkipped : ¬(skip && isSpace quote)) (notEscape : ¬quote = 92) :
    shortStringBody quote skip (quote :: more) = ⟨[quote], more, true⟩ := by
  rw [shortStringBody.eq_def]
  exact (if_neg notSkipped).trans ((if_neg notEscape).trans (if_pos rfl))

lemma shortStringBody_plain (notSkipped : ¬(skip && isSpace c))
    (notEscape : ¬c = 92) (notQuote : ¬c = quote) (notNewline : ¬c = 10) :
    shortStringBody quote skip (c :: more) = (shortStringBody quote false more).cons [c] := by
  rw [shortStringBody.eq_def]
  exact (if_neg notSkipped).trans ((if_neg notEscape).trans
    ((if_neg notQuote).trans (if_neg notNewline)))

lemma scanInterpBody_backtick : scanInterpBody (96 :: more) = ([96], more, .backtick) := by
  rw [scanInterpBody.eq_def]
  rfl

lemma scanInterpBody_brace : scanInterpBody (123 :: more) = ([123], more, .brace) := by
  rw [scanInterpBody.eq_def]
  rfl

lemma scanInterpBody_plain (notEscape : ¬c = 92) (notTick : ¬c = 96) (notBrace : ¬c = 123)
    (notNewline : ¬c = 10) :
    scanInterpBody (c :: more) = (c :: (scanInterpBody more).1, (scanInterpBody more).2) := by
  rw [scanInterpBody.eq_def]
  exact (if_neg notEscape).trans ((if_neg notTick).trans
    ((if_neg notBrace).trans (if_neg notNewline)))

end Steps

lemma shortStringBody_closed (quote : UInt8) (skip : Bool) (rest : Bytes) :
    (shortStringBody quote skip rest).closed → ∀ r',
      shortStringBody quote skip ((shortStringBody quote skip rest).text ++ r') =
        ⟨(shortStringBody quote skip rest).text, r', true⟩ := by
  fun_induction shortStringBody quote skip rest with
  | case1 => simp
  | case2 skip c more skipped ih =>
    intro closed r'
    have rest := ih closed r'
    simp only [Scanned.cons, cons_append, nil_append] at *
    rw [shortStringBody_skip skipped, rest]
    rfl
  | case3 => simp
  | case4 skip e after notSkipped ih =>
    intro closed r'
    have rest := ih closed r'
    simp only [Scanned.cons, cons_append, nil_append] at *
    rw [shortStringBody, if_neg notSkipped, if_pos rfl]
    simp [rest, Scanned.cons]
  | case5 skip more notSkipped notEscape =>
    intro _ r'
    simp only [cons_append, nil_append]
    rw [shortStringBody_quote notSkipped notEscape]
  | case6 => simp
  | case7 skip c more notSkipped notEscape notQuote notNewline ih =>
    intro closed r'
    have rest := ih closed r'
    simp only [Scanned.cons, cons_append, nil_append] at *
    rw [shortStringBody_plain notSkipped notEscape notQuote notNewline, rest]
    rfl

lemma longBodyTail_closed_length (closing rest : Bytes)
    (closed : (longBodyTail closing rest).closed) :
    closing.length ≤ (longBodyTail closing rest).text.length := by
  induction rest with
  | nil => simp [longBodyTail] at closed
  | cons c more ih =>
    rw [longBodyTail] at closed ⊢
    split at closed
    next found => rw [if_pos found]
    next notFound =>
      rw [if_neg notFound]
      have shorter := ih closed
      simp only [Scanned.cons, length_append, length_cons, length_nil]
      omega

lemma longBodyTail_closed (closing rest : Bytes)
    (closed : (longBodyTail closing rest).closed) (nonempty : closing ≠ []) (r' : Bytes) :
    longBodyTail closing ((longBodyTail closing rest).text ++ r') =
      ⟨(longBodyTail closing rest).text, r', true⟩ := by
  induction rest with
  | nil => simp [longBodyTail] at closed
  | cons c more ih =>
    rw [longBodyTail] at closed ⊢
    by_cases found : closing.isPrefixOf (c :: more)
    · rw [if_pos found]
      obtain ⟨d, tail, rfl⟩ := exists_cons_of_ne_nil nonempty
      have starts : (d :: tail).isPrefixOf (d :: tail ++ r') :=
        isPrefixOf_iff_prefix.mpr (prefix_append _ _)
      simp only [cons_append] at starts ⊢
      rw [longBodyTail, if_pos starts]
      simp
    · rw [if_neg found] at closed ⊢
      have rest := ih closed
      have length := longBodyTail_closed_length closing more closed
      have splits : (longBodyTail closing more).text <+: more :=
        ⟨_, longBodyTail_splits closing more⟩
      -- The bracket is shorter than the text before it ends, so it would have been seen.
      have unseen : ¬ closing.isPrefixOf (c :: (longBodyTail closing more).text ++ r') := by
        intro seen
        apply found
        have fits : closing <+: c :: (longBodyTail closing more).text :=
          prefix_of_prefix_length_le (List.isPrefixOf_iff_prefix.mp seen)
            (prefix_append _ _) (by simp only [length_cons]; omega)
        exact isPrefixOf_iff_prefix.mpr (fits.trans (prefix_cons_inj c |>.mpr splits))
      simp only [Scanned.cons, cons_append, nil_append] at *
      rw [longBodyTail, if_neg unseen, rest]
      rfl

lemma scanInterpBody_closed (rest : Bytes) : (scanInterpBody rest).2.2 ≠ .unterminated →
    ∀ r', scanInterpBody ((scanInterpBody rest).1 ++ r') =
      ((scanInterpBody rest).1, r', (scanInterpBody rest).2.2) := by
  fun_induction scanInterpBody rest with
  | case1 => simp
  | case2 => simp
  | case3 e after scanned ih =>
    intro closed r'
    have rest := ih closed r'
    simp only [cons_append]
    rw [scanInterpBody, if_pos rfl]
    simp only [scanned, rest]
  | case4 more notEscape =>
    intro _ r'
    exact scanInterpBody_backtick
  | case5 more notEscape notTick =>
    intro _ r'
    exact scanInterpBody_brace
  | case6 => simp
  | case7 c more notEscape notTick notBrace notNewline scanned ih =>
    intro closed r'
    have rest := ih closed r'
    simp only [cons_append]
    rw [scanInterpBody_plain notEscape notTick notBrace notNewline]
    simp only [scanned, rest]

/-! ### Symbols -/

def continuesSymbol (c : UInt8) : Bool := c == 46 || c == 47 || c == 61 || c == 58 || c == 62

lemma symbols2_second (mem : [c, d] ∈ symbols2) : continuesSymbol d := by
  simp [symbols2, str] at mem
  rcases mem with h | h | h | h | h | h | h | h | h | h | h | h | h | h
  all_goals
    rw [h.2]
    decide

lemma symbols3_third {e : UInt8} (mem : [c, d, e] ∈ symbols3) :
    continuesSymbol e ∧ [c, d] ∈ symbols2 := by
  simp [symbols3, str] at mem
  rcases mem with h | h | h
  all_goals
    rw [h.1, h.2.1, h.2.2]
    decide

lemma symbols3_length {text : Bytes} (mem : text ∈ symbols3) : text.length = 3 := by
  simp only [symbols3, mem_cons, not_mem_nil, or_false] at mem
  rcases mem with rfl | rfl | rfl
  all_goals rfl

section Symbol

variable {a r' : Bytes} {i i' : List Nat}

/-- What follows a symbol begins in the same way, or with a byte no symbol goes on
with. -/
def SameSymbolStart (r r' : Bytes) : Prop :=
  (∀ c ∈ r'.head?, continuesSymbol c = false) ∨ r'.head? = r.head?

lemma take_three_not_mem {more : Bytes} (pair : [c, d] ∉ symbols2) :
    (c :: d :: more).take 3 ∉ symbols3 := by
  cases more with
  | nil =>
    intro mem
    simpa using symbols3_length mem
  | cons e more => exact fun mem => pair (symbols3_third mem).2

lemma symbolLength_one : symbolLength (c :: rest) = some 1 ↔
    isSingleSymbol c ∧ ∀ d ∈ rest.head?, [c, d] ∉ symbols2 := by
  cases rest with
  | nil => simp [symbolLength, peekAt]
  | cons d more =>
    by_cases pair : [c, d] ∈ symbols2
    · simp only [symbolLength, contains_eq_mem]
      constructor
      · intro one
        split_ifs at one <;> simp_all
      · rintro ⟨-, none⟩
        exact absurd pair (none d rfl)
    · have notThree : (c :: d :: more).take 3 ∉ symbols3 := take_three_not_mem pair
      simp only [symbolLength, contains_eq_mem, decide_eq_false notThree, Bool.and_false]
      simp [pair, peekAt]

lemma symbolLength_two : symbolLength (c :: d :: rest) = some 2 ↔
      [c, d] ∈ symbols2 ∧ ∀ e ∈ rest.head?, [c, d, e] ∉ symbols3 := by
  cases rest with
  | nil => simp [symbolLength]
  | cons e more =>
    simp only [symbolLength, contains_eq_mem]
    simp
    grind

lemma symbolLength_three {e : UInt8} :
    symbolLength (c :: d :: e :: rest) = some 3 ↔ [c, d, e] ∈ symbols3 := by
  simp only [symbolLength, contains_eq_mem]
  simp
  grind

lemma symbolLength_le {length : Nat} (found : symbolLength rest = some length) : length ≤ 3 := by
  rw [symbolLength] at found
  split_ifs at found
  all_goals
    simp only [Option.some.injEq] at found
    omega

lemma symbolLength_local (same : SameSymbolStart r r') (nonempty : a ≠ [])
    (found : symbolLength (a ++ r) = some a.length) :
    symbolLength (a ++ r') = some a.length := by
  have short := symbolLength_le found
  match a, nonempty with
  | [c], _ =>
    obtain ⟨single, unpaired⟩ := symbolLength_one.mp found
    refine symbolLength_one.mpr ⟨single, fun d begins mem => ?_⟩
    rcases same with free | heads
    · exact absurd (symbols2_second mem) (by simp [free d begins])
    · exact unpaired d (heads ▸ begins) mem
  | [c, d], _ =>
    obtain ⟨pair, unextended⟩ := symbolLength_two.mp found
    refine symbolLength_two.mpr ⟨pair, fun e begins mem => ?_⟩
    rcases same with free | heads
    · exact absurd (symbols3_third mem).1 (by simp [free e begins])
    · exact unextended e (heads ▸ begins) mem
  | [c, d, e], _ => exact symbolLength_three.mpr (symbolLength_three.mp found)
  | _ :: _ :: _ :: _ :: _, _ =>
    simp only [length_cons] at short
    omega

def symbolInterp (a : Bytes) (interp : List Nat) : List Nat :=
  if a.length = 1 then trackBrace (peekAt a 0) interp else interp

lemma scanSymbol_eq (nonempty : a ≠ []) (found : symbolLength (a ++ r) = some a.length) :
    scanSymbol i (a ++ r) = ⟨.symbol, a, r, symbolInterp a i, none⟩ := by
  obtain ⟨c, s, rfl⟩ := exists_cons_of_ne_nil nonempty
  by_cases one : (c :: s).length = 1
  · obtain rfl : s = [] := by simpa using one
    simp only [scanSymbol, found, length_singleton]
    simp [symbolInterp, peekAt]
  · rw [symbolInterp, if_neg one, scanSymbol, found]
    generalize length : (c :: s).length = n at one
    have texts : (c :: s ++ r).take n = c :: s := by rw [← length, take_left]
    have rests : (c :: s ++ r).drop n = r := by rw [← length, drop_left]
    obtain _ | _ | n := n
    · simp at length
    · exact absurd rfl one
    · simp only [texts, rests]

lemma symbolLength_le_length {length : Nat} (found : symbolLength rest = some length) :
    length ≤ rest.length := by
  cases rest with
  | nil =>
    have nothing : symbolLength [] = none := by decide
    simp [nothing] at found
  | cons c more =>
    rw [symbolLength] at found
    split_ifs at found with three two
    all_goals simp only [Option.some.injEq] at found
    · have := of_decide_eq_true (Bool.and_eq_true_iff.mp three).1
      omega
    · have := of_decide_eq_true (Bool.and_eq_true_iff.mp two).1
      omega
    · simp only [length_cons]
      omega

lemma scanSymbol_text (text : (scanSymbol i (a ++ r)).text = a)
    (kind : (scanSymbol i (a ++ r)).kind = .symbol) :
    symbolLength (a ++ r) = some a.length := by
  cases found : symbolLength (a ++ r) with
  | none => simp [scanSymbol, found] at kind
  | some n =>
    have taken : (a ++ r).take n = a := by
      rw [scanSymbol, found] at text
      split at text <;> simp_all
    have length := congrArg List.length taken
    rw [length_take, Nat.min_eq_left (symbolLength_le_length found)] at length
    rw [length]

end Symbol

/-! ### The dispatch -/

structure SymbolStart (i : List Nat) (c : UInt8) (m : Bytes) : Prop where
  space : isSpace c = false
  comment : ¬(c = 45 ∧ peekAt m 0 = 45)
  name : isNameStart c = false
  digit : isDigit c = false
  fraction : ¬(c = 46 ∧ isDigit (peekAt m 0) = true)
  quote : c ≠ 34 ∧ c ≠ 39
  long : longBracketLevel (c :: m) = none
  backtick : c ≠ 96
  resume : ¬(c = 125 ∧ i.head? = some 0)

inductive Start (i : List Nat) (c : UInt8) (m : Bytes) : Prop
  | space : isSpace c = true → Start i c m
  | comment : c = 45 → peekAt m 0 = 45 → Start i c m
  | name : isNameStart c = true → Start i c m
  | number : (isDigit c = true ∨ c = 46 ∧ isDigit (peekAt m 0) = true) → Start i c m
  | quote : c = 34 ∨ c = 39 → Start i c m
  | long (level : Nat) : longBracketLevel (c :: m) = some level → Start i c m
  | backtick : c = 96 → Start i c m
  | resume : c = 125 → i.head? = some 0 → Start i c m
  | symbol : SymbolStart i c m → Start i c m

lemma start_cases (i : List Nat) (c : UInt8) (m : Bytes) : Start i c m := by
  by_cases space : isSpace c
  · exact .space space
  by_cases comment : c = 45 ∧ peekAt m 0 = 45
  · exact .comment comment.1 comment.2
  by_cases name : isNameStart c
  · exact .name name
  by_cases num : isDigit c ∨ c = 46 ∧ isDigit (peekAt m 0)
  · exact .number num
  by_cases quote : c = 34 ∨ c = 39
  · exact .quote quote
  cases long : longBracketLevel (c :: m) with
  | some level => exact .long level long
  | none =>
    by_cases backtick : c = 96
    · exact .backtick backtick
    by_cases resume : c = 125 ∧ i.head? = some 0
    · exact .resume resume.1 resume.2
    rw [not_or] at num quote
    exact .symbol ⟨by simpa using space, comment, by simpa using name,
      by simpa using num.1, num.2, quote, long, backtick, resume⟩

section Dispatch

variable {i : List Nat} {m : Bytes}

lemma longBracketLevel_ne {m : Bytes} {level : Nat}
    (found : longBracketLevel (c :: m) = some level) : c = 91 := by
  by_contra other
  simp [longBracketLevel, other] at found

lemma scanLexeme_space (space : isSpace c) : scanLexeme i (c :: m) =
      ⟨.whitespace, (c :: m).takeWhile isSpace, (c :: m).dropWhile isSpace, i, none⟩ := by
  simp [scanLexeme, peekAt, space, consumeWhile]

lemma scanLexeme_comment (dash : c = 45) (second : peekAt m 0 = 45) : scanLexeme i (c :: m) =
      closedLexeme .comment i "unterminated long comment" (scanComment (c :: m)) := by
  subst dash
  have next : peekAt (45 :: m) 1 = 45 := second
  have notSpace : isSpace 45 = false := by decide
  simp [scanLexeme, next, notSpace, show peekAt (45 :: m) 0 = 45 from rfl]

lemma nameStart_ne (name : isNameStart c) : isSpace c = false ∧ c ≠ 45 := by
  constructor
  · simp only [isNameStart, isSpace] at *
    grind
  · rintro rfl
    exact absurd name (by decide)

lemma scanLexeme_name (name : isNameStart c) : scanLexeme i (c :: m) =
    ⟨.name, (consumeWhile isNameCont (c :: m)).1, (consumeWhile isNameCont (c :: m)).2, i,
      none⟩ := by
  obtain ⟨notSpace, notDash⟩ := nameStart_ne name
  simp [scanLexeme, show peekAt (c :: m) 0 = c from rfl, notSpace, notDash, name]

lemma digit_ne (digit : isDigit c) : isSpace c = false ∧ c ≠ 45 ∧ isNameStart c = false := by
  refine ⟨?_, ?_, ?_⟩
  · simp only [isDigit, isSpace] at *
    grind
  · rintro rfl
    exact absurd digit (by decide)
  · simp only [isDigit, isNameStart] at *
    grind

lemma scanLexeme_number (num : isDigit c ∨ c = 46 ∧ isDigit (peekAt m 0)) :
    scanLexeme i (c :: m) =
      ⟨.number, (scanNumber (c :: m)).1, (scanNumber (c :: m)).2, i, none⟩ := by
  rcases num with digit | ⟨rfl, digit⟩
  · obtain ⟨notSpace, notDash, notName⟩ := digit_ne digit
    simp [scanLexeme, show peekAt (c :: m) 0 = c from rfl, notSpace, notDash, notName, digit]
  · have next : isDigit (peekAt (46 :: m) 1) := digit
    have notSpace : isSpace 46 = false := by decide
    have notName : isNameStart 46 = false := by decide
    simp [scanLexeme, show peekAt (46 :: m) 0 = 46 from rfl, next, notSpace, notName]

lemma scanLexeme_quote (quote : c = 34 ∨ c = 39) : scanLexeme i (c :: m) =
    closedLexeme .string i "unterminated string" (scanShortString (c :: m)) := by
  rcases quote with rfl | rfl
  · rfl
  · rfl

lemma scanLexeme_long {level : Nat} (long : longBracketLevel (c :: m) = some level) :
    scanLexeme i (c :: m) = closedLexeme .string i "unterminated long string"
      (consumeLongBody level (c :: m)) := by
  obtain rfl := longBracketLevel_ne long
  simp [scanLexeme, show peekAt (91 :: m) 0 = 91 from rfl, show isSpace 91 = false from rfl,
    show isNameStart 91 = false from rfl, show isDigit 91 = false from rfl, long]

lemma scanLexeme_backtick : scanLexeme i (96 :: m) = scanInterpStart i (96 :: m) := rfl

lemma scanLexeme_resume (top : i.head? = some 0) :
    scanLexeme i (125 :: m) = scanInterpResume i (125 :: m) := by
  simp [scanLexeme, show peekAt (125 :: m) 0 = 125 from rfl, show isSpace 125 = false from rfl,
    show isNameStart 125 = false from rfl, show isDigit 125 = false from rfl, top]

lemma scanLexeme_symbol (start : SymbolStart i c m) :
    scanLexeme i (c :: m) = scanSymbol i (c :: m) := by
  have second : peekAt (c :: m) 1 = peekAt m 0 := rfl
  have notComment : (c = 45 && peekAt m 0 = 45) = false := by simpa using start.comment
  have notFraction : (c = 46 && isDigit (peekAt m 0)) = false := by
    simpa using start.fraction
  simp only [scanLexeme, show peekAt (c :: m) 0 = c from rfl, second, start.space, notComment,
    start.name, start.digit, notFraction, start.long]
  simp [start.quote, start.backtick, start.resume]

end Dispatch

end Rotor.Luau.Lex
