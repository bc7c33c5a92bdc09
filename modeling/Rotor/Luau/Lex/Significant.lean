import Rotor.Luau.Lex.Reads

/-!
The significant tokens of a text, and texts put together from tokens that are read one
after the other.
-/

namespace Rotor.Luau.Lex

open List

abbrev Lexical := Kind × Bytes

/-- `isSignificant` (`cst/dense.go`). -/
def isSignificant (kind : Kind) : Bool := !kind.isTrivia && kind != .eof

def significantTokens (src : Bytes) : List Lexical :=
  ((tokenize src).1.filter fun tok => isSignificant tok.kind).map Token.lexical

/-! ### Tokens that can be read one after the other -/

inductive Chain : List Nat → List Lexical → Prop
  | nil {i} : Chain i []
  | cons {i i' kind text r toks} : Reads i kind text i' r → text ≠ [] →
      kind.isTrivia = false → Chain i' toks → Chain i ((kind, text) :: toks)

lemma scanSymbol_kind (i : List Nat) (rest : Bytes) :
    (scanSymbol i rest).kind = .symbol ∨ (scanSymbol i rest).kind = .invalid := by
  rw [scanSymbol]
  split
  · exact .inl rfl
  · exact .inl rfl
  · exact .inr rfl

variable {i : List Nat} {rest : Bytes} {lexemes : List Lexeme}

lemma scanLexeme_trivia_interp (more : rest ≠ [])
    (trivia : (scanLexeme i rest).kind.isTrivia) : (scanLexeme i rest).interp = i := by
  obtain ⟨c, m, rfl⟩ := exists_cons_of_ne_nil more
  cases start_cases i c m with
  | space space => rw [scanLexeme_space space]
  | comment dash second =>
    rw [scanLexeme_comment dash second]
    rfl
  | name name =>
    rw [scanLexeme_name name]
  | number digits =>
    rw [scanLexeme_number digits]
  | quote quote =>
    rw [scanLexeme_quote quote]
    rfl
  | long level long =>
    rw [scanLexeme_long long]
    rfl
  | backtick tick =>
    subst tick
    rw [scanLexeme_backtick, scanInterpStart] at trivia
    split at trivia <;> exact absurd trivia Bool.false_ne_true
  | resume brace top =>
    subst brace
    rw [scanLexeme_resume top, scanInterpResume] at trivia
    split at trivia <;> exact absurd trivia Bool.false_ne_true
  | symbol start =>
    rw [scanLexeme_symbol start] at trivia
    rcases scanSymbol_kind i (c :: m) with sym | invalid
    · simp [sym, Kind.isTrivia] at trivia
    · simp [invalid, Kind.isTrivia] at trivia

def significantLexemes (lexemes : List Lexeme) : List Lexical :=
  (lexemes.filter fun lexeme => !lexeme.kind.isTrivia).map Lexeme.lexical

lemma Lexes.chain (read : Lexes i rest lexemes)
    (clean : ∀ lexeme ∈ lexemes, lexeme.error = none) : Chain i (significantLexemes lexemes) := by
  induction read with
  | done => exact .nil
  | @next i rest lexemes more tail ih =>
    have later := ih fun lexeme mem => clean lexeme (.tail _ mem)
    cases trivia : (scanLexeme i rest).kind.isTrivia with
    | true =>
      rw [scanLexeme_trivia_interp more trivia] at later
      simpa [significantLexemes, trivia] using later
    | false =>
      have reads : Reads i (scanLexeme i rest).kind (scanLexeme i rest).text
          (scanLexeme i rest).interp (scanLexeme i rest).rest := by
        rw [Reads, scanLexeme_splits, ← clean _ (.head _)]
      have chain := Chain.cons reads (scanLexeme_text_ne_nil i more) trivia later
      simpa [significantLexemes, trivia, Lexeme.lexical] using chain

lemma Lexes.text_ne_nil (read : Lexes i rest lexemes) : ∀ lexeme ∈ lexemes, lexeme.text ≠ [] := by
  induction read with
  | done => simp
  | next more _ ih =>
    intro lexeme mem
    rcases mem_cons.mp mem with rfl | mem
    · exact scanLexeme_text_ne_nil _ more
    · exact ih lexeme mem

lemma tokenize_significant {src : Bytes} (read : Lexes [] src lexemes) :
    significantTokens src = significantLexemes lexemes := by
  have tokens := (tokenize_eq read).1
  have kinds := read.kind_ne_eof
  have swap : significantTokens src =
      ((tokenize src).1.map Token.lexical).filter fun lexical => isSignificant lexical.1 := by
    rw [filter_map]
    rfl
  rw [swap, tokens, filter_append, filter_map, significantLexemes]
  have none : [(Kind.eof, ([] : Bytes))].filter (fun lexical => isSignificant lexical.1) = [] := rfl
  rw [none, append_nil]
  congr 1
  apply filter_congr
  intro lexeme mem
  simp [isSignificant, Lexeme.lexical, kinds lexeme mem]

lemma filter_eq_self_of_length {p : Lexeme → Bool} :
    ∀ lexemes : List Lexeme, (∀ lexeme ∈ lexemes, lexeme.text ≠ []) →
    (lexemes.map Lexeme.text).flatten.length ≤
      ((lexemes.filter p).map Lexeme.text).flatten.length → lexemes.filter p = lexemes
  | [], _, _ => rfl
  | lexeme :: lexemes, texts, whole => by
    have positive := length_pos_iff.mpr (texts lexeme (.head _))
    have later := filter_eq_self_of_length (p := p) lexemes
      fun other mem => texts other (.tail _ mem)
    cases kept : p lexeme with
    | true =>
      simp only [filter_cons, kept, if_true, map_cons, List.flatten_cons,
        length_append, Nat.add_le_add_iff_left] at whole
      rw [filter_cons, if_pos kept, later whole]
    | false =>
      simp only [filter_cons, kept, Bool.false_eq_true, if_false, map_cons,
        List.flatten_cons, length_append] at whole
      rw [later (by omega)] at whole
      omega

lemma reads_space {c : UInt8} (other : isSpace c = false) :
    Reads i .whitespace [32] i (c :: rest) := by
  have space : isSpace 32 := by decide
  have consumed : consumeWhile isSpace ([32] ++ c :: rest) = ([32], c :: rest) := by
    apply consumeWhile_eq_iff.mpr
    constructor
    · simpa using space
    · simpa using other
  rw [Reads, scanLexeme, consumed]
  simp [peekAt, space]

lemma head_not_space {i' : List Nat} {kind : Kind} {c : UInt8} {s r : Bytes}
    (reads : Reads i kind (c :: s) i' r) (sig : kind.isTrivia = false) : isSpace c = false := by
  by_contra space
  rw [Reads, cons_append, scanLexeme_space (by simpa using space)] at reads
  obtain rfl : Kind.whitespace = kind := congrArg Lexeme.kind reads
  exact absurd sig (by decide)

/-! ### Putting texts together -/

/-- Before `r`, the text is read as these tokens, without errors of its own, and the
stack goes from `i` to `i'`. -/
def Spells (i : List Nat) (text : Bytes) (toks : List Lexical) (i' : List Nat) (r : Bytes) :
    Prop :=
  ∀ lexemes, Lexes i' r lexemes → ∃ all, Lexes i (text ++ r) all ∧
    significantLexemes all = toks ++ significantLexemes lexemes ∧
    ((∀ lexeme ∈ lexemes, lexeme.error = none) → ∀ lexeme ∈ all, lexeme.error = none)

section Spells

variable {i i' i'' : List Nat} {kind : Kind} {a b r : Bytes} {toks toks' : List Lexical}

lemma Spells.nil : Spells i [] [] i r := fun lexemes read => ⟨lexemes, read, rfl, id⟩

lemma Spells.append (first : Spells i a toks i' (b ++ r)) (second : Spells i' b toks' i'' r) :
    Spells i (a ++ b) (toks ++ toks') i'' r := by
  intro lexemes read
  obtain ⟨behind, readBehind, tokens, clean⟩ := second lexemes read
  obtain ⟨all, readAll, tokensAll, cleanAll⟩ := first behind readBehind
  rw [append_assoc]
  refine ⟨all, readAll, ?_, fun none => cleanAll (clean none)⟩
  rw [tokensAll, tokens, append_assoc]

lemma Reads.spells (reads : Reads i kind a i' r) (nonempty : a ≠ [])
    (sig : kind.isTrivia = false) : Spells i a [(kind, a)] i' r := by
  intro lexemes read
  refine ⟨_, reads.lexes nonempty read, ?_, ?_⟩
  · simp [significantLexemes, sig, Lexeme.lexical]
  · intro none lexeme mem
    rcases mem_cons.mp mem with rfl | mem
    · rfl
    · exact none lexeme mem

lemma Reads.spells_trivia (reads : Reads i kind a i' r) (nonempty : a ≠ [])
    (trivia : kind.isTrivia) : Spells i a [] i' r := by
  intro lexemes read
  refine ⟨_, reads.lexes nonempty read, ?_, ?_⟩
  · simp [significantLexemes, trivia]
  · intro none lexeme mem
    rcases mem_cons.mp mem with rfl | mem
    · rfl
    · exact none lexeme mem

lemma Spells.tokens (spells : Spells [] a toks i' []) :
    significantTokens a = toks ∧ (tokenize a).2 = [] := by
  obtain ⟨all, read, tokens, clean⟩ := spells [] .done
  rw [append_nil] at read
  rw [tokenize_significant read, (tokenize_eq read).2, tokens]
  exact ⟨append_nil _, clean (by simp)⟩

end Spells

/-! ### Closed texts -/

section Closed

variable {i : List Nat} {kind : Kind} {c : UInt8} {s r : Bytes}

lemma trackBrace_plain (plain : c ≠ 123 ∧ c ≠ 125) (i : List Nat) : trackBrace c i = i := by
  cases i with
  | nil => rfl
  | cons depth frames => simp [trackBrace, plain]

/-- What is read at a byte that the stack is not asked for does not depend on the stack,
and leaves it as it is. -/
theorem scanLexeme_anywhere {m : Bytes} (plain : c ≠ 96 ∧ c ≠ 123 ∧ c ≠ 125) (i : List Nat) :
    scanLexeme i (c :: m) = { scanLexeme [] (c :: m) with interp := i } := by
  cases start_cases [] c m with
  | space space => rw [scanLexeme_space space, scanLexeme_space space]
  | comment dash second =>
    rw [scanLexeme_comment dash second, scanLexeme_comment dash second]
    rfl
  | name name => rw [scanLexeme_name name, scanLexeme_name name]
  | number digits => rw [scanLexeme_number digits, scanLexeme_number digits]
  | quote quote =>
    rw [scanLexeme_quote quote, scanLexeme_quote quote]
    rfl
  | long level long =>
    rw [scanLexeme_long long, scanLexeme_long long]
    rfl
  | backtick tick => exact absurd tick plain.1
  | resume brace _ => exact absurd brace plain.2.2
  | symbol start =>
    have start' : SymbolStart i c m :=
      ⟨start.space, start.comment, start.name, start.digit, start.fraction, start.quote,
        start.long, start.backtick, fun resume => plain.2.2 resume.1⟩
    rw [scanLexeme_symbol start, scanLexeme_symbol start', scanSymbol, scanSymbol]
    split
    · rw [show peekAt (c :: m) 0 = c from rfl, trackBrace_plain plain.2]
    · rfl
    · rfl

lemma Reads.anywhere (reads : Reads [] kind (c :: s) [] r)
    (plain : c ≠ 96 ∧ c ≠ 123 ∧ c ≠ 125) (i : List Nat) : Reads i kind (c :: s) i r := by
  rw [Reads, cons_append, scanLexeme_anywhere plain, ← cons_append,
    show scanLexeme [] (c :: s ++ r) = _ from reads]

def isLiteralStart (c : UInt8) : Bool := isDigit c || c == 46 || c == 34 || c == 39 || c == 91

lemma literal_start {m : Bytes} (literal : (scanLexeme i (c :: m)).kind = .number ∨
    (scanLexeme i (c :: m)).kind = .string) : isLiteralStart c := by
  cases start_cases i c m with
  | space space => simp [scanLexeme_space space] at literal
  | comment dash second => simp [scanLexeme_comment dash second, closedLexeme] at literal
  | name name => simp [scanLexeme_name name] at literal
  | number digits =>
    rcases digits with digit | ⟨dot, -⟩
    · simp [isLiteralStart, digit]
    · simp [isLiteralStart, dot]
  | quote quote =>
    rcases quote with rfl | rfl
    · rfl
    · rfl
  | long level long =>
    obtain rfl := longBracketLevel_ne long
    rfl
  | backtick tick =>
    subst tick
    rw [scanLexeme_backtick, scanInterpStart] at literal
    split at literal <;> simp at literal
  | resume brace top =>
    subst brace
    rw [scanLexeme_resume top, scanInterpResume] at literal
    split at literal <;> simp at literal
  | symbol start =>
    rw [scanLexeme_symbol start] at literal
    rcases scanSymbol_kind i (c :: m) with sym | invalid
    · simp [sym] at literal
    · simp [invalid] at literal

lemma literalStart_plain (starts : isLiteralStart c) :
    (c ≠ 96 ∧ c ≠ 123 ∧ c ≠ 125) ∧ c ≠ 45 ∧ c ≠ 61 ∧ c ≠ 62 := by
  refine ⟨⟨?_, ?_, ?_⟩, ?_, ?_, ?_⟩
  all_goals
    rintro rfl
    exact absurd starts (by decide)

lemma Reads.literal_alone {i' : List Nat} {a : Bytes} (reads : Reads i kind a i' r)
    (nonempty : a ≠ []) (literal : kind = .number ∨ kind = .string) : Reads [] kind a [] [] := by
  obtain ⟨c, s, rfl⟩ := exists_cons_of_ne_nil nonempty
  have kinds : (scanLexeme i (c :: (s ++ r))).kind = kind := congrArg Lexeme.kind reads
  have sig : kind.isTrivia = false := by
    rcases literal with rfl | rfl
    · rfl
    · rfl
  obtain ⟨plain, -⟩ := literalStart_plain (literal_start (kinds ▸ literal))
  have alone : Reads i kind (c :: s) i' [] := by
    apply reads.local nonempty sig (.inl (by simp)) (by simp)
    exact fun _ => rfl
  rw [Reads, append_nil] at alone ⊢
  have here := scanLexeme_anywhere (m := s) plain i
  have empty := scanLexeme_anywhere (m := s) plain []
  rw [alone] at here
  rw [empty]
  simp only [Lexeme.mk.injEq] at here ⊢
  obtain ⟨kind', text, rest, -, error⟩ := here
  exact ⟨kind'.symm, text.symm, rest.symm, trivial, error.symm⟩

/-- Wherever the text stands before a boundary, it is read as these tokens and leaves the
stack as it is. -/
def Closed (text : Bytes) (toks : List Lexical) : Prop :=
  ∀ i r, (∀ c ∈ r.head?, isBoundary c = true) → Spells i text toks i r

lemma closed_token (reads : Reads [] kind (c :: s) [] []) (sig : kind.isTrivia = false)
    (plain : c ≠ 96 ∧ c ≠ 123 ∧ c ≠ 125) (notBracket : c :: s ≠ [91]) :
    Closed (c :: s) [(kind, c :: s)] := by
  intro i r boundary
  have here : Reads i kind (c :: s) i r := by
    apply (reads.anywhere plain i).local (by simp) sig (.inl boundary)
    · intro _ dot
      exact absurd (boundary 46 dot) (by decide)
    · exact fun same => absurd same notBracket
  exact here.spells (by simp) sig

variable {a b : Bytes} {toks toks' : List Lexical}

lemma Closed.append (closed : Closed a toks) (boundary : isBoundary c)
    (closed' : Closed (c :: b) toks') : Closed (a ++ c :: b) (toks ++ toks') := by
  intro i r bounded
  refine (closed i (c :: b ++ r) ?_).append (closed' i r bounded)
  simpa using boundary

lemma Closed.space (closed : Closed (c :: b) toks) (other : isSpace c = false) :
    Closed (32 :: c :: b) toks := by
  intro i r bounded
  have space : Spells i [32] [] i (c :: b ++ r) := (reads_space other).spells_trivia (by simp) rfl
  exact space.append (closed i r bounded)

lemma reads_single (start : SymbolStart i c r) (single : isSingleSymbol c)
    (plain : c ≠ 123 ∧ c ≠ 125) (short : ∀ d ∈ r.head?, [c, d] ∉ symbols2) :
    Reads i .symbol [c] i r := by
  have length : symbolLength ([c] ++ r) = some [c].length := symbolLength_one.mpr ⟨single, short⟩
  have stack : symbolInterp [c] i = i := trackBrace_plain plain i
  have scanned := scanSymbol_eq (i := i) (by simp) length
  rw [stack] at scanned
  exact (scanLexeme_symbol start).trans scanned

def isPunctuation (c : UInt8) : Bool := [35, 40, 41, 44, 59, 93].contains c

lemma reads_punctuation (punctuation : isPunctuation c) (i : List Nat) (r : Bytes) :
    Reads i .symbol [c] i r := by
  have mem : c ∈ ([35, 40, 41, 44, 59, 93] : List UInt8) := contains_iff_mem.mp punctuation
  simp only [mem_cons, not_mem_nil, or_false] at mem
  rcases mem with rfl | rfl | rfl | rfl | rfl | rfl
  all_goals
    apply reads_single _ (by decide) (by decide)
    · intro d _
      simp [symbols2, str]
    · exact ⟨by decide, by simp, by decide, by decide, by simp, by decide,
        by simp [longBracketLevel], by decide, by simp⟩

end Closed

end Rotor.Luau.Lex
