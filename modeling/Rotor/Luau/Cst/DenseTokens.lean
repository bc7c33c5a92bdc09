import Rotor.Luau.Ast
import Rotor.Luau.Cst.CleanParse
import Rotor.Luau.Cst.Dense

/-!
Which tokens the dense text is read as.

The writer decides about a space from two neighbours.  That is enough for every token
but an opening bracket, which reads on over equals signs: the written tokens are read
back exactly when no bracket is followed by equals signs and another bracket.
-/

namespace Rotor.Luau.Cst

open List Luau.Lex Lib Cursor

variable {items : List Item} {i i' : List Nat} {a r : Bytes} {kind : Kind} {lexemes : List Lexeme}

/-! ### Separators -/

variable {b s : Bytes} {lexical : Lexical}

lemma needsSeparator_eq_false : needsSeparator a b = false ↔
    ∃ first second, significantTokens (a ++ b) = [first, second] ∧ first.2 = a ∧
      second.2 = b := by
  rw [needsSeparator, significantTokens]
  split
  next first second tokens => simp [tokens, Token.lexical]
  next other =>
    constructor
    · simp
    · rintro ⟨first, second, pair, -⟩
      obtain ⟨t, rest, tokens, rfl, more⟩ := map_eq_cons_iff.mp pair
      obtain ⟨u, none, rfl, rfl, empty⟩ := map_eq_cons_iff.mp more
      rw [map_eq_nil_iff.mp empty] at tokens
      exact absurd tokens (other t u)

lemma text_of_not_needsSeparator (nonempty : a ≠ []) (apart : needsSeparator a b = false) :
    (scanLexeme [] (a ++ b)).text = a := by
  obtain ⟨first, second, pair, rfl, rfl⟩ := needsSeparator_eq_false.mp apart
  obtain ⟨lexemes, read⟩ := lexes_exists [] (first.2 ++ second.2)
  rw [tokenize_significant read] at pair
  have texts : ((lexemes.filter fun lexeme => !lexeme.kind.isTrivia).map Lexeme.text).flatten =
      first.2 ++ second.2 := by
    have both := congrArg (fun toks : List Lexical => (toks.map Prod.snd).flatten) pair
    simpa [significantLexemes, Function.comp_def, Lexeme.lexical] using both
  have all : lexemes.filter (fun lexeme => !lexeme.kind.isTrivia) = lexemes := by
    apply filter_eq_self_of_length lexemes (read.text_ne_nil)
    rw [texts, read.flatten]
  rw [significantLexemes, all] at pair
  generalize first.2 ++ second.2 = both at read pair ⊢
  cases read with
  | done => simp at pair
  | next more tail =>
    rw [map_cons, List.cons.injEq] at pair
    exact congrArg Prod.snd pair.1

/-! ### Reading a written token -/

section Written

variable {r' : Bytes}

/-- A piece of an interpolated string begins with a backtick or a closing brace, and it
ends by itself. -/
theorem reads_interp (reads : Reads i kind a i' r) (nonempty : a ≠ [])
    (interp : isInterpKind kind) :
    (∀ c ∈ a.head?, isBoundary c) ∧ ∀ r', Reads i kind a i' r' := by
  obtain ⟨c, s, rfl⟩ := exists_cons_of_ne_nil nonempty
  have kinds : (scanLexeme i (c :: (s ++ r))).kind = kind := congrArg Lexeme.kind reads
  cases start_cases i c (s ++ r) with
  | backtick tick =>
    subst tick
    exact ⟨by simp [isBoundary, boundaries], fun _ => reads.backtick_local⟩
  | resume brace top =>
    subst brace
    exact ⟨by simp [isBoundary, boundaries], fun _ => reads.resume_local top⟩
  | space space =>
    rw [scanLexeme_space space] at kinds
    obtain rfl : Kind.whitespace = kind := kinds
    exact absurd interp (by decide)
  | comment dash second =>
    rw [scanLexeme_comment dash second] at kinds
    obtain rfl : Kind.comment = kind := kinds
    exact absurd interp (by decide)
  | name name =>
    rw [scanLexeme_name name] at kinds
    obtain rfl : Kind.name = kind := kinds
    exact absurd interp (by decide)
  | number digits =>
    rw [scanLexeme_number digits] at kinds
    obtain rfl : Kind.number = kind := kinds
    exact absurd interp (by decide)
  | quote quote =>
    rw [scanLexeme_quote quote] at kinds
    obtain rfl : Kind.string = kind := kinds
    exact absurd interp (by decide)
  | long level long =>
    rw [scanLexeme_long long] at kinds
    obtain rfl : Kind.string = kind := kinds
    exact absurd interp (by decide)
  | symbol start =>
    rw [scanLexeme_symbol start] at kinds
    rcases scanSymbol_kind i (c :: (s ++ r)) with sym | invalid
    · obtain rfl := sym.symm.trans kinds
      exact absurd interp (by decide)
    · obtain rfl := invalid.symm.trans kinds
      exact absurd interp (by decide)

/-- A token is read again before what the writer puts behind it, unless that turns a
bracket into a long one. -/
theorem reads_written (reads : Reads i kind a i' r) (nonempty : a ≠ [])
    (sig : kind.isTrivia = false) (later : Chain i' (itemToks items))
    (bracket : a = [91] → longBracketLevel (91 :: denseText (some (kind, a)) items) = none) :
    Reads i kind a i' (denseText (some (kind, a)) items) := by
  have before {c : UInt8} {rest : Bytes} (text : denseText (some (kind, a)) items = c :: rest)
      (boundary : isBoundary c) : Reads i kind a i' (denseText (some (kind, a)) items) := by
    apply reads.local nonempty sig (.inl _) _ bracket
    · simp [text, boundary]
    · rintro - dot
      obtain rfl : c = 46 := by simpa [text] using dot
      exact absurd boundary (by decide)
  cases items with
  | nil => exact reads.local nonempty sig (.inl (by simp [denseText])) (by simp [denseText]) bracket
  | cons item items =>
    cases item with
    | semi => exact before rfl (by decide)
    | tok lexical =>
      cases later with
      | @cons _ i'' kind' text r'' _ reads' nonempty' sig' later =>
        by_cases space : spaced (some (kind, a)) (kind', text)
        · exact before (by rw [denseText, if_pos space]; rfl) (by decide)
        · obtain ⟨c, s, rfl⟩ := exists_cons_of_ne_nil nonempty'
          rw [denseText, if_neg space, nil_append] at before bracket ⊢
          by_cases interp : isInterpKind kind
          · exact (reads_interp reads nonempty interp).2 _
          by_cases interp' : isInterpKind kind' = true
          · exact before rfl ((reads_interp reads' nonempty' interp').1 c rfl)
          have apart : needsSeparator a (c :: s) = false ∧
              (kind = .number → numberGluesToNext (c :: s) = false) := by
            simpa [spaced, interp, interp'] using space
          have text := text_of_not_needsSeparator nonempty apart.1
          have pair := reads.of_text nonempty sig text
          refine pair.local nonempty sig (.inr rfl) ?_ bracket
          rintro num dot
          obtain rfl : c = 46 := by simpa using dot
          exact absurd (apart.2 num) (by simp [numberGluesToNext])

end Written

/-! ### Brackets -/

def openBracket : Lexical := (.symbol, str "[")

def equals : Lexical := (.symbol, str "=")

def doubleEquals : Lexical := (.symbol, str "==")

def beginsBracket (lexical : Lexical) : Bool := lexical.2.head? == some 91

/-- Whether an opening bracket before these tokens is written as a long one: equals
signs that the writer does not separate, and another bracket behind them. -/
def opensLong : List Lexical → Bool
  | [] => false
  | first :: rest =>
    if first = doubleEquals then opensLong rest || rest.head?.any beginsBracket
    else first = equals && rest.head?.any beginsBracket

def gluesBracket : List Lexical → Bool
  | [] => false
  | first :: rest => first = openBracket && opensLong rest || gluesBracket rest

def nextTok : List Item → Option Lexical
  | .tok lexical :: _ => some lexical
  | _ => none

/-- `opensLong`, where a written semicolon ends the run. -/
def opensLongItems : List Item → Bool
  | .tok first :: rest =>
    if first = doubleEquals then opensLongItems rest || (nextTok rest).any beginsBracket
    else first = equals && (nextTok rest).any beginsBracket
  | _ => false

def gluesItems : List Item → Bool
  | [] => false
  | .semi :: rest => gluesItems rest
  | .tok first :: rest => first = openBracket && opensLongItems rest || gluesItems rest

def runsIntoBracket (rest : Bytes) : Bool := (rest.dropWhile (· == 61)).head? == some 91

lemma longBracketLevel_eq_none {rest : Bytes} :
    longBracketLevel (91 :: rest) = none ↔ runsIntoBracket rest = false := by
  simp [longBracketLevel, runsIntoBracket]

lemma runsIntoBracket_cons (c : UInt8) (rest : Bytes) :
    runsIntoBracket (c :: rest) = (c == 91 || c == 61 && runsIntoBracket rest) := by
  by_cases equal : c = 61
  · subst equal
    simp [runsIntoBracket]
  · simp [runsIntoBracket, equal]

lemma not_needsSeparator {first second : Kind} (readsFirst : Reads [] first a i b)
    (readsSecond : Reads i second b i' []) (nonempty : a ≠ [] ∧ b ≠ [])
    (sig : first.isTrivia = false ∧ second.isTrivia = false) : needsSeparator a b = false := by
  have last := readsSecond.lexes nonempty.2 .done
  rw [append_nil] at last
  have both := readsFirst.lexes nonempty.1 last
  rw [needsSeparator_eq_false, tokenize_significant both]
  refine ⟨(first, a), (second, b), ?_, rfl, rfl⟩
  simp [significantLexemes, sig, Lexeme.lexical]

lemma start_of_sign {c : UInt8} {m : Bytes} (sign : c = 61 ∨ c = 91) :
    SymbolStart i c m ∨ ∃ level, longBracketLevel (c :: m) = some level := by
  cases start_cases i c m with
  | symbol start => exact .inl start
  | long level long => exact .inr ⟨level, long⟩
  | number digits => rcases sign with rfl | rfl <;> exact absurd digits (by simp; decide)
  | _ => rcases sign with rfl | rfl <;> contradiction

lemma reads_equals (reads : Reads i kind (61 :: s) i' r) :
    (kind, 61 :: s) = equals ∨ (kind, 61 :: s) = doubleEquals := by
  rcases start_of_sign (.inl rfl) with start | ⟨level, long⟩
  · obtain ⟨rfl, length⟩ := reads.symbol_length start
    match s, symbolLength_le length with
    | [], _ => exact .inl rfl
    | [d], _ =>
      have mem := (symbolLength_two.mp length).1
      obtain rfl : d = 61 := by simpa [symbols2, str] using mem
      exact .inr rfl
    | [d, e], _ =>
      have mem := symbolLength_three.mp length
      simp [symbols3, str] at mem
  · simp [longBracketLevel] at long

/-- A token that begins with a bracket is that bracket or a long string; both are read
whatever the stack is. -/
theorem reads_bracket (reads : Reads i kind (91 :: s) i' r) :
    (kind = .symbol ∨ kind = .string) ∧ Reads [] kind (91 :: s) [] [] := by
  rcases start_of_sign (.inr rfl) with start | ⟨level, long⟩
  · obtain ⟨rfl, length⟩ := reads.symbol_length start
    obtain rfl := symbolLength_bracket length
    exact ⟨.inl rfl, rfl⟩
  · obtain ⟨string, -, anywhere⟩ := reads.long_anywhere long (by simp)
    exact ⟨.inr string, anywhere [] []⟩

/-- What the run of equals signs behind a bracket can meet. -/
inductive First (lexical : Lexical) : Prop
  | bracket : beginsBracket lexical = true →
      (lexical.1 = .symbol ∨ lexical.1 = .string) ∧ Reads [] lexical.1 lexical.2 [] [] →
      First lexical
  | equals : lexical = equals → First lexical
  | doubleEquals : lexical = doubleEquals → First lexical
  | other : beginsBracket lexical = false → (∀ rest, runsIntoBracket (lexical.2 ++ rest) = false) →
      lexical ≠ equals → lexical ≠ doubleEquals → First lexical

lemma first_cases (reads : Reads i kind a i' r) (nonempty : a ≠ []) : First (kind, a) := by
  obtain ⟨c, s, rfl⟩ := exists_cons_of_ne_nil nonempty
  by_cases bracket : c = 91
  · subst bracket
    exact .bracket rfl (reads_bracket reads)
  by_cases equal : c = 61
  · subst equal
    rcases reads_equals reads with single | double
    · exact .equals single
    · exact .doubleEquals double
  apply First.other
  · simpa [beginsBracket] using bracket
  · simp [runsIntoBracket_cons, bracket, equal]
  · simp [equals, str, equal]
  · simp [doubleEquals, str, equal]

lemma runsIntoBracket_tok (prev lexical : Lexical) (items : List Item) :
    runsIntoBracket (denseText (some prev) (.tok lexical :: items)) =
      (!spaced (some prev) lexical &&
        runsIntoBracket (lexical.2 ++ denseText (some lexical) items)) := by
  cases space : spaced (some prev) lexical with
  | true => simp [denseText, space, runsIntoBracket_cons]
  | false => simp [denseText, space]

lemma runsIntoBracket_bracket (begins : beginsBracket lexical) (rest : Bytes) :
    runsIntoBracket (lexical.2 ++ rest) := by
  obtain ⟨s, text⟩ : ∃ s, lexical.2 = 91 :: s := by
    simpa [beginsBracket, List.head?_eq_some_iff] using begins
  simp [text, runsIntoBracket_cons]

lemma spaced_bracket (begins : beginsBracket lexical)
    (reads : (lexical.1 = .symbol ∨ lexical.1 = .string) ∧ Reads [] lexical.1 lexical.2 [] [])
    {prev : Lexical} (sign : prev = equals ∨ prev = doubleEquals) :
    spaced (some prev) lexical = false := by
  obtain ⟨kind, text⟩ := lexical
  obtain ⟨s, rfl⟩ : ∃ s, text = 91 :: s := by
    simpa [beginsBracket, List.head?_eq_some_iff] using begins
  have sig : kind.isTrivia = false := by
    rcases reads.1 with rfl | rfl
    · rfl
    · rfl
  have before (a : Bytes) (alone : Reads [] .symbol a [] [91]) (nonempty : a ≠ [])
      (notBracket : a ≠ [91]) : needsSeparator a (91 :: s) = false := by
    have first : Reads [] .symbol a [] (91 :: s) :=
      alone.local nonempty rfl (.inr rfl) (by simp) fun same => absurd same notBracket
    exact not_needsSeparator first reads.2 ⟨nonempty, by simp⟩ ⟨rfl, sig⟩
  rcases sign with rfl | rfl
  · simp [spaced, equals, before (str "=") rfl (by decide) (by decide)]
  · simp [spaced, doubleEquals, before (str "==") rfl (by decide) (by decide)]

lemma spaced_openBracket (begins : beginsBracket lexical)
    (kinds : lexical.1 = .symbol ∨ lexical.1 = .string) :
    spaced (some openBracket) lexical := by
  obtain ⟨kind, text⟩ := lexical
  obtain ⟨s, rfl⟩ : ∃ s, text = 91 :: s := by
    simpa [beginsBracket, List.head?_eq_some_iff] using begins
  have plain : isInterpKind kind = false := by
    rcases kinds with rfl | rfl
    · rfl
    · rfl
  have separated : needsSeparator (str "[") (91 :: s) := by
    by_contra apart
    have alone := text_of_not_needsSeparator (show str "[" ≠ [] by decide) (by simpa using apart)
    have long : longBracketLevel (91 :: 91 :: s) = some 0 := by simp [longBracketLevel]
    exact long_text_ne long alone
  have symbolPlain : isInterpKind .symbol = false := rfl
  simp [spaced, openBracket, plain, separated, symbolPlain]

/-- A bracket or a run of equals signs is followed by equals signs that the writer does not
separate from it and a bracket. -/
theorem runsIntoBracket_written {prev : Lexical}
    (sign : prev = openBracket ∨ prev = equals ∨ prev = doubleEquals)
    (chain : Chain i (itemToks items)) : runsIntoBracket (denseText (some prev) items) =
      (prev ≠ equals && opensLongItems items ||
        prev ≠ openBracket && (nextTok items).any beginsBracket) := by
  induction items generalizing prev i with
  | nil => simp [denseText, runsIntoBracket, opensLongItems, nextTok]
  | cons item items ih =>
    cases item with
    | semi => simp [denseText, semicolon, str, runsIntoBracket_cons, opensLongItems, nextTok]
    | tok lexical =>
      obtain ⟨kind, a⟩ := lexical
      rw [runsIntoBracket_tok, nextTok, Option.any_some, opensLongItems]
      cases chain with
      | cons reads nonempty sig later =>
        cases first_cases reads nonempty with
        | bracket begins facts =>
          have notSign : (kind, a) ≠ equals ∧ (kind, a) ≠ doubleEquals := by
            constructor
            · intro same
              exact absurd (same ▸ begins) (by decide)
            · intro same
              exact absurd (same ▸ begins) (by decide)
          rw [runsIntoBracket_bracket begins, begins]
          rcases sign with rfl | sign
          · simp [spaced_openBracket begins facts.1, notSign]
          · have apart : prev ≠ openBracket := by rcases sign with rfl | rfl <;> decide
            simp [spaced_bracket begins facts sign, notSign, apart]
        | equals same =>
          have next := ih (.inr (.inl rfl)) later
          have space : spaced (some prev) equals = decide (prev = equals) := by
            rcases sign with rfl | rfl | rfl <;> decide +kernel
          rcases sign with rfl | rfl | rfl <;>
            simp_all [equals, doubleEquals, openBracket, str, runsIntoBracket_cons, beginsBracket]
        | doubleEquals same =>
          have next := ih (.inr (.inr rfl)) later
          have space : spaced (some prev) doubleEquals = decide (prev = equals) := by
            rcases sign with rfl | rfl | rfl <;> decide +kernel
          rcases sign with rfl | rfl | rfl <;>
            simp_all [equals, doubleEquals, openBracket, str, runsIntoBracket_cons, beginsBracket]
        | other notBracket stops notEquals notDouble =>
          simp [stops, notBracket, notEquals, notDouble]

/-! ### The tokens of the dense text -/

def keptOf (lexemes : List Lexeme) : List Lexical :=
  (significantLexemes lexemes).filter (· ≠ semicolon)

lemma keptOf_cons {lexeme : Lexeme} (sig : lexeme.kind.isTrivia = false) :
    keptOf (lexeme :: lexemes) =
      [lexeme.lexical].filter (· ≠ semicolon) ++ keptOf lexemes := by
  rw [keptOf, keptOf, ← filter_append]
  simp [significantLexemes, sig]

lemma keptOf_trivia {lexeme : Lexeme} (trivia : lexeme.kind.isTrivia) :
    keptOf (lexeme :: lexemes) = keptOf lexemes := by
  simp [keptOf, significantLexemes, trivia]

lemma keptOf_spaced {c : UInt8} {space : Bool} (other : isSpace c = false)
    (read : Lexes i ((if space then [32] else []) ++ c :: s) lexemes) :
    ∃ unspaced, Lexes i (c :: s) unspaced ∧ keptOf lexemes = keptOf unspaced := by
  cases space with
  | false => exact ⟨lexemes, read, rfl⟩
  | true =>
    obtain ⟨unspaced, later⟩ := lexes_exists i (c :: s)
    have whole := (reads_space other).lexes (by simp) later
    rw [read.unique whole]
    exact ⟨unspaced, later, keptOf_trivia rfl⟩

lemma keptOf_token (reads : Reads i kind a i' r) (nonempty : a ≠ [])
    (sig : kind.isTrivia = false) (chain : Chain i' (itemToks items))
    (read : Lexes i (a ++ denseText (some (kind, a)) items) lexemes)
    (behind : ∀ {later : List Lexeme}, Lexes i' (denseText (some (kind, a)) items) later →
      (keptOf later = (itemToks items).filter (· ≠ semicolon) ↔ gluesItems items = false)) :
    keptOf lexemes = (itemToks (.tok (kind, a) :: items)).filter (· ≠ semicolon) ↔
      gluesItems (.tok (kind, a) :: items) = false := by
  have isBracket : a = [91] → (kind, a) = openBracket := by
    rintro rfl
    obtain rfl : Kind.symbol = kind := congrArg Lexeme.kind (reads_bracket reads).2
    rfl
  have tokens : (itemToks (.tok (kind, a) :: items)).filter (· ≠ semicolon) =
      [(kind, a)].filter (· ≠ semicolon) ++ (itemToks items).filter (· ≠ semicolon) := by
    rw [← filter_append]
    rfl
  have runs (same : a = [91]) : longBracketLevel (91 :: denseText (some (kind, a)) items) = none ↔
      opensLongItems items = false := by
    rw [longBracketLevel_eq_none, isBracket same, runsIntoBracket_written (.inl rfl) chain]
    simp [openBracket, equals, str]
  cases glued : decide ((kind, a) = openBracket) && opensLongItems items with
  | true =>
    -- The bracket is read as a long string.
    obtain ⟨bracket, opens⟩ : (kind, a) = openBracket ∧ opensLongItems items := by
      simpa using glued
    obtain ⟨rfl, rfl⟩ : kind = .symbol ∧ a = [91] := Prod.ext_iff.mp bracket
    obtain ⟨level, long⟩ : ∃ level, longBracketLevel
        (91 :: denseText (some (.symbol, [91])) items) = some level := by
      rw [← Option.ne_none_iff_exists', ne_eq, runs rfl, opens]
      simp
    have different : keptOf lexemes ≠
        (itemToks (.tok (.symbol, [91]) :: items)).filter (· ≠ semicolon) := by
      rw [tokens]
      cases read with
      | next more later =>
        rw [singleton_append, scanLexeme_long long, keptOf_cons rfl]
        intro same
        have heads := congrArg (fun toks => toks.head?.map Prod.fst) same
        simp [Lexeme.lexical, closedLexeme, semicolon, str] at heads
    have glues : gluesItems (.tok (.symbol, [91]) :: items) := by
      rw [gluesItems, glued, Bool.true_or]
    exact iff_of_false different (by simp [glues])
  | false =>
    have apart : a = [91] → longBracketLevel (91 :: denseText (some (kind, a)) items) = none := by
      intro same
      rw [runs same]
      simpa [isBracket same] using glued
    obtain ⟨later, readLater⟩ := lexes_exists i' (denseText (some (kind, a)) items)
    have written := reads_written reads nonempty sig chain apart
    have whole := written.lexes nonempty readLater
    rw [read.unique whole, keptOf_cons sig, tokens, gluesItems, glued, Bool.false_or,
      ← behind readLater]
    exact append_right_inj _

/-- The dense text is read as the written tokens exactly when no bracket of them runs
into another one. -/
theorem keptOf_denseText : ∀ {prev : Option Lexical} {i : List Nat}
    {lexemes : List Lexeme}, Chain i (itemToks items) →
    Lexes i (denseText prev items) lexemes →
    (keptOf lexemes = (itemToks items).filter (· ≠ semicolon) ↔ gluesItems items = false) := by
  induction items with
  | nil =>
    intro prev i lexemes _ read
    cases read with
    | done => simp [keptOf, significantLexemes, itemToks, gluesItems]
    | next more => exact absurd rfl more
  | cons item items ih =>
    intro prev i lexemes chain read
    cases item with
    | semi =>
      obtain ⟨later, readLater⟩ := lexes_exists i (denseText (some semicolon) items)
      have reads := reads_punctuation (show isPunctuation 59 = true by decide) i
        (denseText (some semicolon) items)
      have whole := reads.lexes (by simp) readLater
      rw [read.unique whole, keptOf_cons rfl]
      exact ih chain readLater
    | tok lexical =>
      obtain ⟨kind, a⟩ := lexical
      cases chain with
      | @cons _ i' _ _ r _ reads nonempty sig later =>
        obtain ⟨c, s, rfl⟩ := exists_cons_of_ne_nil nonempty
        rw [denseText, append_assoc, cons_append] at read
        obtain ⟨unspaced, readUnspaced, same⟩ := keptOf_spaced (head_not_space reads sig) read
        rw [same, ← cons_append] at *
        exact keptOf_token reads nonempty sig later readUnspaced
          fun readLater => ih later readLater

/-! ### Written semicolons -/

def semisLead : List Item → Prop
  | [] => True
  | .tok _ :: items => semisLead items
  | .semi :: items => (itemToks items).head? = some (.symbol, str "(") ∧ semisLead items

lemma semisLead_append {front back : List Item} (leadsFront : semisLead front)
    (leadsBack : semisLead back) : semisLead (front ++ back) := by
  induction front with
  | nil => exact leadsBack
  | cons item items ih =>
    cases item with
    | tok lexical => exact ih leadsFront
    | semi =>
      have tokens : itemToks (items ++ back) = itemToks items ++ itemToks back := filterMap_append
      have head : (itemToks (items ++ back)).head? = some (.symbol, str "(") := by
        rw [tokens, List.head?_append, leadsFront.1, Option.some_or]
      exact ⟨head, ih leadsFront.2⟩

lemma head_itemToks (events : List Event) :
    (itemToks (itemsOf events)).head? = (firstToken events).map Token.lexical := by
  rw [itemToks_itemsOf, firstToken, List.head?_map, List.head?_filter, Option.map_map]
  rfl

lemma semisLead_respects : Respects fun events => semisLead (itemsOf events) where
  nil := trivial
  enter leads := leads
  ref := by
    intro ref events leads
    cases eof : ref.isEof with
    | true => simpa [itemsOf, Item.ofEvent, eof] using leads
    | false => simpa [itemsOf, Item.ofEvent, eof, semisLead] using leads
  stmt := by
    intro node leads
    cases paren : startsWithParen node with
    | false => simpa [itemsOf, Item.ofEvent, paren] using leads
    | true =>
      obtain ⟨tok, first, sym⟩ : ∃ tok, firstToken node.events = some tok ∧
          isSymbol tok "(" = true := by
        simpa [startsWithParen, Option.any_eq_true] using paren
      have lexical : tok.lexical = (.symbol, str "(") := by
        simpa [isSymbol, Token.lexical] using sym
      have head : (itemToks (itemsOf node.events)).head? = some (.symbol, str "(") := by
        rw [head_itemToks, first, Option.map_some, lexical]
      have written : itemsOf (.stmt node :: node.events) = .semi :: itemsOf node.events := by
        simp [itemsOf, Item.ofEvent, paren]
      rw [written]
      exact ⟨head, leads⟩
  append := by
    intro front back leadsFront leadsBack
    rw [itemsOf, filterMap_append]
    exact semisLead_append leadsFront leadsBack

/-- So a written semicolon does not end a run of equals signs before a bracket. -/
theorem nextTok_any (leads : semisLead items) :
    (nextTok items).any beginsBracket = (itemToks items).head?.any beginsBracket := by
  cases items with
  | nil => rfl
  | cons item items =>
    cases item with
    | tok lexical => rfl
    | semi =>
      have head : (itemToks (.semi :: items)).head? = some (.symbol, str "(") := leads.1
      rw [head]
      rfl

lemma opensLongItems_eq (leads : semisLead items) :
    opensLongItems items = opensLong (itemToks items) := by
  induction items with
  | nil => rfl
  | cons item items ih =>
    cases item with
    | tok lexical =>
      have tokens : itemToks (.tok lexical :: items) = lexical :: itemToks items := rfl
      have later : semisLead items := leads
      rw [tokens, opensLongItems, opensLong, ih later, nextTok_any later]
    | semi =>
      obtain ⟨rest, tokens⟩ := List.head?_eq_some_iff.mp leads.1
      have same : itemToks (.semi :: items) = itemToks items := rfl
      rw [same, tokens]
      rfl

lemma gluesItems_eq (leads : semisLead items) :
    gluesItems items = gluesBracket (itemToks items) := by
  induction items with
  | nil => rfl
  | cons item items ih =>
    cases item with
    | tok lexical =>
      have tokens : itemToks (.tok lexical :: items) = lexical :: itemToks items := rfl
      have later : semisLead items := leads
      rw [tokens, gluesItems, gluesBracket, ih later,
        opensLongItems_eq later]
    | semi => exact ih leads.2

/-! ### The theorem -/

def keptTokens (src : Bytes) : List Lexical := (significantTokens src).filter (· ≠ semicolon)

lemma newCursor_tokens (src : Bytes) :
    (newCursor src).toks.map (fun ref => ref.token.lexical) = significantTokens src := by
  obtain ⟨toks, eof, tokens, eofKind, -, kinds, -⟩ := tokenize_tokens src
  obtain ⟨refs, last, attached, spec⟩ := attachTrivia_spec eofKind toks kinds
  have split : (newCursor src).toks = refs := by
    simp [newCursor, stream, tokens, attached]
  have same : (tokenize src).1.filter (fun tok => isSignificant tok.kind) = significant toks := by
    have last : [eof].filter (fun tok => isSignificant tok.kind) = [] := by
      simp [isSignificant, eofKind]
    rw [tokens, filter_append, last, append_nil]
    apply filter_congr
    intro tok mem
    simp [isSignificant, kinds tok mem]
  rw [significantTokens, same, ← spec.tokens, map_map, split]
  rfl

/-- The tokens of a text that parses without diagnostics can be read one after the other. -/
theorem chain_of_clean {src : Bytes} {stmts : List Node} {c : Cursor}
    (yields : Yields (newCursor src) (stmtsEvents stmts) c) (clean : c.diags = []) :
    Chain [] (significantTokens src) := by
  have lexed : (tokenize src).2 = [] := by
    have none := yields.diags
    rw [clean, prefix_nil] at none
    simpa [newCursor] using none
  obtain ⟨lexemes, read⟩ := lexes_exists [] src
  rw [tokenize_significant read]
  exact read.chain ((tokenize_eq read).2.mp lexed)

/-- The dense text of a parse without diagnostics has the tokens of its source, apart
from semicolons, exactly when no bracket there is followed by equals signs that are
written together and another bracket. -/
theorem dense_tokens_iff (src : Bytes) : ∃ file diags, parse src = some (file, diags) ∧
    (diags = [] → (keptTokens (dense file) = keptTokens src ↔
      gluesBracket (significantTokens src) = false)) := by
  obtain ⟨stmts, c, ran, yields, empty⟩ := parseRun_returns src
  refine ⟨_, c.diags, by rw [parse, ran]; rfl, fun clean => ?_⟩
  have chain := chain_of_clean yields clean
  have items : itemToks (itemsOf (Node.block stmts).events) = significantTokens src := by
    rw [itemToks_itemsOf, ← newCursor_tokens, yields.toks, empty, append_nil, block_refs]
  have text : dense (.file (.block stmts) (newCursor src).eof) =
      denseText none (itemsOf (Node.block stmts).events) := DenseWriter.foldl_out _ _
  obtain ⟨written, readWritten⟩ :=
    lexes_exists [] (denseText none (itemsOf (Node.block stmts).events))
  have main := keptOf_denseText (items ▸ chain) readWritten
  rw [items, gluesItems_eq (semisLead_respects.events _), items] at main
  rw [keptTokens, text, tokenize_significant readWritten]
  exact main

def isIdentifier (tok : Token) : Bool := tok.kind == .name && !isReservedKeyword tok.text

def isNamedByIdentifier : Node → Bool
  | .name tok => isIdentifier tok.token
  | _ => true

/-- Whether a text parses without diagnostics, with identifiers as names, and its dense
text has other tokens. -/
def changesTokens (src : Bytes) : Bool :=
  (parse src).any fun (file, diags) => diags.isEmpty && file.nodes.all isNamedByIdentifier &&
    keptTokens (dense file) != keptTokens src

/-- The bracket, the equals sign and the long string of the source are written as one
long string that is never closed. -/
theorem dense_not_tokens : changesTokens (str "f `x\x7b1 [ = [[s]]") = true := by
  decide +kernel

end Rotor.Luau.Cst
