import Rotor.Luau.Lex.Boundary

/-!
A token that was read once is read again before any text that follows it in a
compatible way.
-/

namespace Rotor.Luau.Lex

open List

/-- The dispatch reads a token of this kind and text, without an error, from a text
that goes on with `r`. -/
def Reads (i : List Nat) (kind : Kind) (a : Bytes) (i' : List Nat) (r : Bytes) : Prop :=
  scanLexeme i (a ++ r) = ⟨kind, a, r, i', none⟩

lemma Reads.lexes {i i' : List Nat} {kind : Kind} {a r : Bytes} {lexemes : List Lexeme}
    (reads : Reads i kind a i' r) (nonempty : a ≠ []) (tail : Lexes i' r lexemes) :
    Lexes i (a ++ r) (⟨kind, a, r, i', none⟩ :: lexemes) := by
  rw [← (reads : scanLexeme i (a ++ r) = _)]
  apply Lexes.next
  · simp [nonempty]
  · rw [reads]
    exact tail

/-- The bytes that end every token: a tab, a newline, a space, quotes, round
parentheses, a comma, a semicolon, a closing bracket, a backtick, braces. -/
def boundaries : List UInt8 := [9, 10, 32, 34, 39, 40, 41, 44, 59, 93, 96, 123, 125]

def isBoundary (c : UInt8) : Bool := boundaries.contains c

variable {c : UInt8} {p : UInt8 → Bool}

lemma not_of_isBoundary (boundary : isBoundary c)
    (none : boundaries.all (fun c => !p c) = true) : p c = false := by
  have mem : c ∈ boundaries := contains_iff_mem.mp boundary
  simpa using all_eq_true.mp none c mem

/-- The text `r'` ends, begins with a boundary, or begins as `r` does. -/
def Follows (r r' : Bytes) : Prop := (∀ c ∈ r'.head?, isBoundary c = true) ∨ r'.head? = r.head?

section Follows

variable {r r' : Bytes}

lemma Follows.head_not (follows : Follows r r') (none : boundaries.all (fun c => !p c) = true)
    (stops : ∀ c ∈ r.head?, p c = false) : ∀ c ∈ r'.head?, p c = false := by
  intro c begins
  rcases follows with boundary | heads
  · exact not_of_isBoundary (boundary c begins) none
  · exact stops c (heads ▸ begins)

lemma Follows.sameStart (follows : Follows r r') (notDot : r'.head? ≠ some 46) :
    SameStart r r' := by
  rcases follows with boundary | heads
  · exact .inl fun c begins => not_of_isBoundary (boundary c begins) (by decide)
  · exact .inr ⟨heads, notDot⟩

lemma Follows.sameSymbolStart (follows : Follows r r') : SameSymbolStart r r' := by
  rcases follows with boundary | heads
  · exact .inl fun c begins => not_of_isBoundary (boundary c begins) (by decide)
  · exact .inr heads

lemma peekAt_zero (rest : Bytes) : peekAt rest 0 = rest.head?.getD 0 := by
  cases rest <;> rfl

lemma Follows.peekAt_not (follows : Follows r r') (none : boundaries.all (fun c => !p c) = true)
    (zero : p 0 = false) (stops : p (peekAt r 0) = false) : p (peekAt r' 0) = false := by
  rw [peekAt_zero] at stops ⊢
  cases begins : r'.head? with
  | none => exact zero
  | some c =>
    apply follows.head_not none _ c begins
    intro d heads
    simpa [Option.mem_def.mp heads] using stops

end Follows

section Local

variable {i i' : List Nat} {kind : Kind} {a r r' : Bytes}

variable {s : Bytes} {level : Nat}

lemma Reads.name_local (name : isNameStart c) (reads : Reads i kind (c :: s) i' r)
    (follows : Follows r r') : Reads i kind (c :: s) i' r' := by
  rw [Reads, cons_append, scanLexeme_name name] at reads ⊢
  simp only [Lexeme.mk.injEq] at reads
  obtain ⟨rfl, text, rest, rfl, -⟩ := reads
  obtain ⟨all, stops⟩ := consumeWhile_eq_iff.mp (Prod.ext text rest :
    consumeWhile isNameCont (c :: s ++ r) = (c :: s, r))
  have consumed := consumeWhile_eq_iff.mpr ⟨all, follows.head_not (by decide) stops⟩
  rw [← cons_append, consumed]

lemma Reads.quote_local (quote : c = 34 ∨ c = 39) (reads : Reads i kind (c :: s) i' r) :
    Reads i kind (c :: s) i' r' := by
  rw [Reads, cons_append, scanLexeme_quote quote] at reads ⊢
  simp only [closedLexeme, Lexeme.mk.injEq, scanShortString, Scanned.cons] at reads ⊢
  obtain ⟨rfl, text, rest, rfl, closed⟩ := reads
  have isClosed : (shortStringBody c false (s ++ r)).closed := by
    by_contra unclosed
    simp [peekAt, unclosed] at closed
  have body : (shortStringBody c false (s ++ r)).text = s := by
    simpa [peekAt] using text
  have again := shortStringBody_closed c false (s ++ r) isClosed r'
  rw [body] at again
  simp [peekAt, again]

def openingBracket (level : Nat) : Bytes := 91 :: (repeatByte 61 level ++ [91])

lemma openingBracket_length (level : Nat) : (openingBracket level).length = level + 2 := by
  simp [openingBracket, repeatByte]

lemma longBracketLevel_eq_some {rest : Bytes} :
    longBracketLevel rest = some level ↔ ∃ more, rest = openingBracket level ++ more := by
  constructor
  · intro found
    cases rest with
    | nil => simp [longBracketLevel] at found
    | cons c m =>
      obtain rfl := longBracketLevel_ne found
      simp only [longBracketLevel, ne_eq, not_true_eq_false, if_false] at found
      split at found
      next second =>
        obtain ⟨more, after⟩ := List.head?_eq_some_iff.mp second
        simp only [Option.some.injEq] at found
        have equals : m.takeWhile (· == 61) = repeatByte 61 level := by
          rw [repeatByte, eq_replicate_iff]
          refine ⟨found, fun b mem => ?_⟩
          simpa using mem_takeWhile_imp mem
        refine ⟨more, ?_⟩
        have split := takeWhile_append_dropWhile (p := (· == 61)) (l := m)
        rw [equals, after] at split
        simp [openingBracket, ← split]
      next => simp at found
  · rintro ⟨more, rfl⟩
    have all : ∀ b ∈ repeatByte 61 level, (b == 61) := by
      intro b mem
      simp [repeatByte] at mem
      simp [mem.2]
    simp only [openingBracket, cons_append, append_assoc, longBracketLevel]
    rw [takeWhile_append_of_pos all, dropWhile_append_of_pos all]
    simp [repeatByte]

lemma consumeLongBody_openingBracket (level : Nat) (body : Bytes) :
    consumeLongBody level (openingBracket level ++ body) =
      (longBodyTail (closingBracket level) body).cons (openingBracket level) := by
  rw [consumeLongBody, ← openingBracket_length, drop_left, take_left]

lemma long_text_ne (long : longBracketLevel (91 :: r) = some level) :
    (scanLexeme i (91 :: r)).text ≠ [91] := by
  intro alone
  have length := congrArg List.length alone
  rw [scanLexeme_long long] at length
  obtain ⟨more, opened⟩ := longBracketLevel_eq_some.mp long
  rw [opened, consumeLongBody_openingBracket] at length
  simp only [closedLexeme, Scanned.cons, length_append, openingBracket_length,
    length_singleton] at length
  omega

lemma Reads.long_anywhere (long : longBracketLevel (a ++ r) = some level) (nonempty : a ≠ [])
    (reads : Reads i kind a i' r) : kind = .string ∧ i' = i ∧ ∀ j r', Reads j kind a j r' := by
  obtain ⟨c, s, rfl⟩ := exists_cons_of_ne_nil nonempty
  rw [cons_append] at long
  rw [Reads, cons_append, scanLexeme_long long] at reads
  obtain ⟨more, opened⟩ := longBracketLevel_eq_some.mp long
  rw [opened, consumeLongBody_openingBracket] at reads
  simp only [closedLexeme, Lexeme.mk.injEq, Scanned.cons] at reads
  obtain ⟨rfl, text, rest, rfl, closed⟩ := reads
  refine ⟨rfl, rfl, fun j r' => ?_⟩
  have isClosed : (longBodyTail (closingBracket level) more).closed := by
    by_contra unclosed
    simp [unclosed] at closed
  have again := longBodyTail_closed (closingBracket level) more isClosed
    (by simp [closingBracket]) r'
  have whole : c :: (s ++ r') = openingBracket level ++
      ((longBodyTail (closingBracket level) more).text ++ r') := by
    rw [← cons_append, ← text, append_assoc]
  have long' : longBracketLevel (c :: (s ++ r')) = some level :=
    longBracketLevel_eq_some.mpr ⟨_, whole⟩
  rw [Reads, cons_append, scanLexeme_long long', whole, consumeLongBody_openingBracket, again]
  simp [closedLexeme, Scanned.cons, text]

lemma Reads.long_local (long : longBracketLevel (a ++ r) = some level) (nonempty : a ≠ [])
    (reads : Reads i kind a i' r) : Reads i kind a i' r' := by
  obtain ⟨-, rfl, anywhere⟩ := reads.long_anywhere long nonempty
  exact anywhere i' r'

lemma scanInterpBody_local (closed : (scanInterpBody (s ++ r)).2.2 ≠ .unterminated)
    (body : (scanInterpBody (s ++ r)).1 = s) :
    scanInterpBody (s ++ r') = (s, r', (scanInterpBody (s ++ r)).2.2) := by
  have again := scanInterpBody_closed (s ++ r) closed r'
  rwa [body] at again

lemma Reads.backtick_local (reads : Reads i kind (96 :: s) i' r) :
    Reads i kind (96 :: s) i' r' := by
  rw [Reads, cons_append, scanLexeme_backtick, scanInterpStart] at reads ⊢
  simp only [drop_succ_cons, drop_zero] at reads ⊢
  rw [scanInterpBody_local (r := r)] <;> split at reads <;> simp_all

lemma Reads.resume_local (top : i.head? = some 0) (reads : Reads i kind (125 :: s) i' r) :
    Reads i kind (125 :: s) i' r' := by
  rw [Reads, cons_append, scanLexeme_resume top, scanInterpResume] at reads ⊢
  simp only [drop_succ_cons, drop_zero] at reads ⊢
  rw [scanInterpBody_local (r := r)] <;> split at reads <;> simp_all

lemma scanNumber_dot_ne {m : Bytes} (digit : isDigit (peekAt m 0)) :
    (scanNumber (46 :: m)).1 ≠ [46] := by
  have notDot : peekAt m 0 ≠ 46 := by
    intro dot
    rw [dot] at digit
    exact absurd digit (by decide)
  have noDigit : isDigit 46 = false := by decide
  cases m with
  | nil => exact absurd digit (by decide)
  | cons d m =>
    have isDigit' : isDigit d := digit
    simp [scanNumber, peekAt, consumeWhile, noDigit, consumeFractionAndExponent,
      consumeFraction, isDigit', show d ≠ 46 from notDot]

lemma numberStart_local (num : isDigit c ∨ c = 46 ∧ isDigit (peekAt (s ++ r) 0))
    (text : (scanNumber (c :: (s ++ r))).1 = c :: s) :
    isDigit c ∨ c = 46 ∧ isDigit (peekAt (s ++ r') 0) := by
  rcases num with digit | ⟨rfl, digit⟩
  · exact .inl digit
  · cases s with
    | nil => exact absurd text (scanNumber_dot_ne digit)
    | cons d s => exact .inr ⟨rfl, digit⟩

lemma Reads.number_local (num : isDigit c ∨ c = 46 ∧ isDigit (peekAt (s ++ r) 0))
    (reads : Reads i kind (c :: s) i' r) (same : SameStart r r') : Reads i kind (c :: s) i' r' := by
  rw [Reads, cons_append, scanLexeme_number num] at reads
  simp only [Lexeme.mk.injEq] at reads
  obtain ⟨rfl, text, rest, rfl, -⟩ := reads
  have consumed := scanNumber_local same (by simp) (Prod.ext text rest :
    scanNumber (c :: s ++ r) = (c :: s, r))
  rw [Reads, cons_append, scanLexeme_number (numberStart_local num text), ← cons_append, consumed]

lemma SymbolStart.local (start : SymbolStart i c (s ++ r)) (follows : Follows r r')
    (long : longBracketLevel (c :: (s ++ r')) = none) : SymbolStart i c (s ++ r') := by
  refine ⟨start.space, ?_, start.name, start.digit, ?_, start.quote, long, start.backtick,
    start.resume⟩
  · rintro ⟨dash, second⟩
    cases s with
    | cons d s => exact start.comment ⟨dash, second⟩
    | nil =>
      have first : (peekAt r 0 == 45) = false := by
        simpa [dash] using start.comment
      have again := follows.peekAt_not (p := (· == 45)) (by decide) (by decide) first
      simp only [nil_append] at second
      simp [second] at again
  · rintro ⟨dot, second⟩
    cases s with
    | cons d s => exact start.fraction ⟨dot, second⟩
    | nil =>
      have first : isDigit (peekAt r 0) = false := by
        simpa [dot] using start.fraction
      have again := follows.peekAt_not (p := isDigit) (by decide) (by decide) first
      simp only [nil_append] at second
      simp [second] at again

lemma symbolLength_bracket (length : symbolLength (91 :: s ++ r) = some (91 :: s).length) :
    s = [] := by
  match s, symbolLength_le length with
  | [], _ => rfl
  | [d], _ =>
    have mem := (symbolLength_two.mp length).1
    simp [symbols2, str] at mem
  | [d, e], _ =>
    have mem := symbolLength_three.mp length
    simp [symbols3, str] at mem

lemma longBracketLevel_symbol (length : symbolLength (c :: s ++ r) = some (c :: s).length)
    (bracket : c :: s = [91] → longBracketLevel (91 :: r') = none) :
    longBracketLevel (c :: (s ++ r')) = none := by
  by_cases opens : c = 91
  · subst opens
    obtain rfl := symbolLength_bracket length
    exact bracket rfl
  · simp [longBracketLevel, opens]

lemma Reads.symbol_length (start : SymbolStart i c (s ++ r))
    (reads : Reads i kind (c :: s) i' r) :
    kind = .symbol ∧ symbolLength (c :: s ++ r) = some (c :: s).length := by
  rw [Reads, cons_append, scanLexeme_symbol start] at reads
  have text : (scanSymbol i (c :: s ++ r)).text = c :: s := congrArg Lexeme.text reads
  have sym : (scanSymbol i (c :: s ++ r)).kind = .symbol := by
    cases found : symbolLength (c :: (s ++ r)) with
    | none => simp [scanSymbol, found] at reads
    | some n =>
      rw [cons_append, scanSymbol, found]
      split <;> simp_all
  exact ⟨(congrArg Lexeme.kind reads).symm.trans sym, scanSymbol_text text sym⟩

lemma Reads.symbol_again (start : SymbolStart i c (s ++ r)) (reads : Reads i kind (c :: s) i' r)
    (start' : SymbolStart i c (s ++ r'))
    (length' : symbolLength (c :: s ++ r') = some (c :: s).length) :
    Reads i kind (c :: s) i' r' := by
  have before := scanSymbol_eq (i := i) (by simp) (reads.symbol_length start).2
  have after := scanSymbol_eq (i := i) (by simp) length'
  rw [cons_append] at before after
  rw [Reads, cons_append, scanLexeme_symbol start, before] at reads
  simp only [Lexeme.mk.injEq] at reads
  obtain ⟨rfl, -, -, rfl, -⟩ := reads
  rw [Reads, cons_append, scanLexeme_symbol start', after]

lemma Reads.symbol_local (start : SymbolStart i c (s ++ r)) (reads : Reads i kind (c :: s) i' r)
    (follows : Follows r r') (bracket : c :: s = [91] → longBracketLevel (91 :: r') = none) :
    Reads i kind (c :: s) i' r' := by
  obtain ⟨-, length⟩ := reads.symbol_length start
  exact reads.symbol_again start (start.local follows (longBracketLevel_symbol length bracket))
    (symbolLength_local follows.sameSymbolStart (by simp) length)

lemma Reads.isTrivia_of_space (reads : Reads i kind (c :: s) i' r) (space : isSpace c) :
    kind.isTrivia := by
  rw [Reads, cons_append, scanLexeme_space space] at reads
  rw [← show Kind.whitespace = kind from congrArg Lexeme.kind reads]
  rfl

lemma Reads.isTrivia_of_comment (reads : Reads i kind (c :: s) i' r) (dash : c = 45)
    (second : peekAt (s ++ r) 0 = 45) : kind.isTrivia := by
  rw [Reads, cons_append, scanLexeme_comment dash second] at reads
  rw [← show Kind.comment = kind from congrArg Lexeme.kind reads]
  rfl

/-- A token is read again before a text that follows it.  What a number is followed by
must not begin with a dot, and an opening bracket must not become a long one. -/
theorem Reads.local (reads : Reads i kind a i' r) (nonempty : a ≠ [])
    (sig : kind.isTrivia = false) (follows : Follows r r')
    (num : kind = .number → r'.head? ≠ some 46)
    (bracket : a = [91] → longBracketLevel (91 :: r') = none) : Reads i kind a i' r' := by
  obtain ⟨c, s, rfl⟩ := exists_cons_of_ne_nil nonempty
  cases start_cases i c (s ++ r) with
  | space space => exact absurd (reads.isTrivia_of_space space) (by simp [sig])
  | comment dash second =>
    exact absurd (reads.isTrivia_of_comment dash second) (by simp [sig])
  | name name => exact reads.name_local name follows
  | number digits =>
    have numeric : kind = .number := by
      rw [Reads, cons_append, scanLexeme_number digits] at reads
      exact (congrArg Lexeme.kind reads).symm
    exact reads.number_local digits (follows.sameStart (num numeric))
  | quote quote => exact reads.quote_local quote
  | long level long => exact reads.long_local long (by simp)
  | backtick tick =>
    subst tick
    exact reads.backtick_local
  | resume brace top =>
    subst brace
    exact reads.resume_local top
  | symbol start => exact reads.symbol_local start follows bracket

/-! ### Reading the concatenation of two tokens -/

section Pair

variable {b : Bytes} {c : UInt8} {s : Bytes}

lemma SymbolStart.of_text (start : SymbolStart i c (s ++ r))
    (length : symbolLength (c :: s ++ r) = some (c :: s).length)
    (text : (scanLexeme [] (c :: s ++ b)).text = c :: s) : SymbolStart i c (s ++ b) := by
  rw [cons_append] at text
  cases start_cases [] c (s ++ b) with
  | space space => simp [start.space] at space
  | name name => simp [start.name] at name
  | quote quote => exact absurd quote (by simp [start.quote])
  | backtick tick => exact absurd tick start.backtick
  | resume _ top => simp at top
  | comment dash second =>
    cases s with
    | cons d s => exact absurd ⟨dash, second⟩ start.comment
    | nil =>
      have longer := congrArg List.length text
      subst dash
      rw [scanLexeme_comment rfl second] at longer
      cases b with
      | nil => exact absurd second (by decide)
      | cons d b =>
        simp only [closedLexeme, scanComment] at longer
        split at longer <;> simp [Scanned.cons] at longer
  | number digits =>
    rcases digits with digit | ⟨dot, second⟩
    · simp [start.digit] at digit
    · cases s with
      | cons d s => exact absurd ⟨dot, second⟩ start.fraction
      | nil =>
        subst dot
        rw [scanLexeme_number (.inr ⟨rfl, second⟩)] at text
        exact absurd text (scanNumber_dot_ne second)
  | long level long =>
    have alone : c :: s = [91] := by
      by_contra other
      have none : longBracketLevel (c :: (s ++ b)) = none :=
        longBracketLevel_symbol length fun same => absurd same other
      simp [none] at long
    obtain ⟨rfl, rfl⟩ : c = 91 ∧ s = [] := by simpa using alone
    exact absurd text (long_text_ne long)
  | symbol start' =>
    exact ⟨start'.space, start'.comment, start'.name, start'.digit, start'.fraction,
      start'.quote, start'.long, start'.backtick, start.resume⟩

lemma Reads.symbol_of_text (start : SymbolStart i c (s ++ r)) (reads : Reads i kind (c :: s) i' r)
    (text : (scanLexeme [] (c :: s ++ b)).text = c :: s) : Reads i kind (c :: s) i' b := by
  obtain ⟨-, length⟩ := reads.symbol_length start
  have start' := start.of_text length text
  have fresh : SymbolStart [] c (s ++ b) :=
    ⟨start'.space, start'.comment, start'.name, start'.digit, start'.fraction, start'.quote,
      start'.long, start'.backtick, by simp⟩
  rw [cons_append, scanLexeme_symbol fresh, ← cons_append] at text
  have sym' : (scanSymbol [] (c :: s ++ b)).kind = .symbol := by
    cases found : symbolLength (c :: s ++ b) with
    | some n =>
      rw [scanSymbol, found]
      split <;> simp_all
    | none =>
      -- The token would be one byte that is no symbol.
      rw [scanSymbol, found] at text
      obtain rfl : s = [] := by simpa using text.symm
      have single := (symbolLength_one.mp length).1
      rw [symbolLength] at found
      split_ifs at found with _ _ other
      exact absurd single other
  exact reads.symbol_again start start' (scanSymbol_text text sym')

/-- A token is read again before another one when the two are read apart from their
concatenation alone. -/
theorem Reads.of_text (reads : Reads i kind a i' r) (nonempty : a ≠ [])
    (sig : kind.isTrivia = false) (text : (scanLexeme [] (a ++ b)).text = a) :
    Reads i kind a i' b := by
  obtain ⟨c, s, rfl⟩ := exists_cons_of_ne_nil nonempty
  cases start_cases i c (s ++ r) with
  | space space => exact absurd (reads.isTrivia_of_space space) (by simp [sig])
  | comment dash second =>
    exact absurd (reads.isTrivia_of_comment dash second) (by simp [sig])
  | name name =>
    rw [Reads, cons_append, scanLexeme_name name] at reads ⊢
    simp only [Lexeme.mk.injEq] at reads
    obtain ⟨rfl, -, -, rfl, -⟩ := reads
    rw [cons_append, scanLexeme_name name] at text
    have split := consumeWhile_append isNameCont (c :: (s ++ b))
    dsimp only at text
    rw [text, cons_append, List.cons.injEq] at split
    rw [text, append_cancel_left split.2]
  | number digits =>
    rw [Reads, cons_append, scanLexeme_number digits] at reads
    simp only [Lexeme.mk.injEq] at reads
    obtain ⟨rfl, read, -, rfl, -⟩ := reads
    have digits' : isDigit c ∨ c = 46 ∧ isDigit (peekAt (s ++ b) 0) := numberStart_local digits read
    rw [cons_append, scanLexeme_number digits'] at text
    have split := scanNumber_append (c :: (s ++ b))
    dsimp only at text
    rw [text, cons_append, List.cons.injEq] at split
    rw [Reads, cons_append, scanLexeme_number digits', text, append_cancel_left split.2]
  | quote quote => exact reads.quote_local quote
  | long level long => exact reads.long_local long (by simp)
  | backtick tick =>
    subst tick
    exact reads.backtick_local
  | resume brace top =>
    subst brace
    exact reads.resume_local top
  | symbol start => exact reads.symbol_of_text start text

end Pair

end Local

end Rotor.Luau.Lex
