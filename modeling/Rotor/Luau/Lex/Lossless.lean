import Rotor.Luau.Lex.Scanner

/-!
Every scanning routine splits the bytes it is given into the text it consumed
and the bytes that remain, and the loop of `run` always makes progress.  So
`run` needs no more turns than there are bytes, and the texts of the tokens
concatenate to the source.
-/

namespace Rotor.Luau.Lex

open List

@[simp]
lemma consumeWhile_append (pred : UInt8 → Bool) (rest : Bytes) :
    (consumeWhile pred rest).1 ++ (consumeWhile pred rest).2 = rest := by
  simp [consumeWhile]

lemma consumeExponent_append (e1 e2 : UInt8) (rest : Bytes) :
    (consumeExponent e1 e2 rest).1 ++ (consumeExponent e1 e2 rest).2 = rest := by
  unfold consumeExponent
  split
  · rfl
  · split
    · split
      · split <;> simp
      · rfl
    · rfl

lemma consumeFraction_append (digit : UInt8 → Bool) (rest : Bytes) :
    (consumeFraction digit rest).1 ++ (consumeFraction digit rest).2 = rest := by
  unfold consumeFraction
  split
  · rfl
  · split <;> simp

lemma consumeFractionAndExponent_append (digit : UInt8 → Bool) (e1 e2 : UInt8) (rest : Bytes) :
    (consumeFractionAndExponent digit e1 e2 rest).1 ++
      (consumeFractionAndExponent digit e1 e2 rest).2 = rest := by
  simp only [consumeFractionAndExponent, append_assoc, consumeExponent_append,
    consumeFraction_append]

lemma scanNumber_append (rest : Bytes) : (scanNumber rest).1 ++ (scanNumber rest).2 = rest := by
  unfold scanNumber
  split
  · simp only [append_assoc, consumeFractionAndExponent_append, consumeWhile_append,
      take_append_drop]
  · split
    · simp only [append_assoc, consumeWhile_append, take_append_drop]
    · simp only [append_assoc, consumeFractionAndExponent_append, consumeWhile_append]

def Scanned.Splits (scanned : Scanned) (rest : Bytes) : Prop := scanned.text ++ scanned.rest = rest

lemma Scanned.Splits.cons {scanned : Scanned} {rest : Bytes}
    (splits : scanned.Splits rest) (text : Bytes) :
    (scanned.cons text).Splits (text ++ rest) := by
  simp only [Scanned.Splits, Scanned.cons, append_assoc] at *
  rw [splits]

lemma shortStringBody_splits (quote : UInt8) (skip : Bool) (rest : Bytes) :
    (shortStringBody quote skip rest).Splits rest := by
  fun_induction shortStringBody quote skip rest with
  | case1 => rfl
  | case2 skip c more skipped ih =>
    exact ih.cons [c]
  | case3 => rfl
  | case4 skip e after _ ih =>
    exact ih.cons [92, e]
  | case5 => rfl
  | case6 => rfl
  | case7 skip c more _ _ _ _ ih =>
    exact ih.cons [c]

lemma scanShortString_splits (rest : Bytes) : (scanShortString rest).Splits rest := by
  have body := (shortStringBody_splits (peekAt rest 0) false (rest.drop 1)).cons (rest.take 1)
  rwa [take_append_drop] at body

lemma longBodyTail_splits (closing rest : Bytes) : (longBodyTail closing rest).Splits rest := by
  induction rest with
  | nil => rfl
  | cons c more ih =>
    unfold longBodyTail
    split
    next found =>
      obtain ⟨after, same⟩ := isPrefixOf_iff_prefix.mp found
      simp [Scanned.Splits, ← same]
    next => exact ih.cons [c]

lemma consumeLongBody_splits (level : Nat) (rest : Bytes) :
    (consumeLongBody level rest).Splits rest := by
  have body := (longBodyTail_splits (closingBracket level) (rest.drop (level + 2))).cons
    (rest.take (level + 2))
  rwa [take_append_drop] at body

lemma scanComment_splits (rest : Bytes) : (scanComment rest).Splits rest := by
  unfold scanComment
  split
  next level _ =>
    have body := (consumeLongBody_splits level (rest.drop 2)).cons (rest.take 2)
    rwa [take_append_drop] at body
  next => simp [Scanned.Splits, append_assoc]

lemma scanInterpBody_append (rest : Bytes) :
    (scanInterpBody rest).1 ++ (scanInterpBody rest).2.1 = rest := by
  fun_induction scanInterpBody rest with
  | case3 e after scanned ih =>
    simpa [scanned] using ih
  | case7 c more _ _ _ _ scanned ih =>
    simpa [scanned] using ih
  | _ => rfl

/-- The routines of `run` that the dispatch chooses from split the bytes. -/
def Lexeme.Splits (lexeme : Lexeme) (rest : Bytes) : Prop := lexeme.text ++ lexeme.rest = rest

lemma scanSymbol_splits (interp : List Nat) (rest : Bytes) :
    (scanSymbol interp rest).Splits rest := by
  unfold scanSymbol Lexeme.Splits
  split <;> exact take_append_drop _ _

lemma scanInterpStart_splits (interp : List Nat) (rest : Bytes) :
    (scanInterpStart interp rest).Splits rest := by
  have body := scanInterpBody_append (rest.drop 1)
  unfold scanInterpStart Lexeme.Splits
  split <;> rename_i scanned <;> simp only [scanned, append_assoc] at body ⊢ <;>
    rw [body, take_append_drop]

lemma scanInterpResume_splits (interp : List Nat) (rest : Bytes) :
    (scanInterpResume interp rest).Splits rest := by
  have body := scanInterpBody_append (rest.drop 1)
  unfold scanInterpResume Lexeme.Splits
  split <;> rename_i scanned <;> simp only [scanned, append_assoc] at body ⊢ <;>
    rw [body, take_append_drop]

lemma closedLexeme_splits {kind : Kind} {interp : List Nat} {message : String}
    {scanned : Scanned} {rest : Bytes} (splits : scanned.Splits rest) :
    (closedLexeme kind interp message scanned).Splits rest := splits

lemma scanLexeme_splits (interp : List Nat) (rest : Bytes) :
    (scanLexeme interp rest).Splits rest := by
  unfold scanLexeme
  dsimp only
  split_ifs
  · simp [Lexeme.Splits]
  · exact closedLexeme_splits (scanComment_splits rest)
  · simp [Lexeme.Splits]
  · exact scanNumber_append rest
  · exact closedLexeme_splits (scanShortString_splits rest)
  · split
    · exact closedLexeme_splits (consumeLongBody_splits _ rest)
    · exact scanSymbol_splits interp rest
  · exact scanInterpStart_splits interp rest
  · exact scanInterpResume_splits interp rest
  · exact scanSymbol_splits interp rest

lemma scanNumber_ne_nil {c : UInt8} {more : Bytes}
    (start : isDigit c ∨ (c = 46 ∧ isDigit (peekAt more 0))) :
    (scanNumber (c :: more)).1 ≠ [] := by
  unfold scanNumber
  split_ifs
  · simp
  · simp
  · rcases start with digit | ⟨rfl, digit⟩
    · simp [consumeWhile, digit]
    · have notDot : peekAt more 0 ≠ 46 := by
        intro dot
        rw [dot] at digit
        exact absurd digit (by decide)
      have noDigit : isDigit 46 = false := by decide
      simp [consumeWhile, noDigit, consumeFractionAndExponent, consumeFraction, notDot]

lemma scanLexeme_text_ne_nil (interp : List Nat) {rest : Bytes} (nonempty : rest ≠ []) :
    (scanLexeme interp rest).text ≠ [] := by
  obtain ⟨c, more, rfl⟩ := exists_cons_of_ne_nil nonempty
  have sym : (scanSymbol interp (c :: more)).text ≠ [] := by
    unfold scanSymbol
    split
    · simp
    · rename_i length _ found
      have positive : length ≠ 0 := by
        rintro rfl
        unfold symbolLength at found
        split_ifs at found <;> simp at found
      simpa using positive
    · simp
  unfold scanLexeme
  dsimp only
  have first : peekAt (c :: more) 0 = c := rfl
  rw [first]
  split_ifs with space comment name number quote bracket backtick resume
  · simp [consumeWhile, space]
  · unfold scanComment
    split <;> simp [closedLexeme, Scanned.cons]
  · have cont : isNameCont c := by simp [isNameCont, name]
    simp [consumeWhile, cont]
  · apply scanNumber_ne_nil
    have second : peekAt (c :: more) 1 = peekAt more 0 := rfl
    simpa [second] using number
  · simp [closedLexeme, scanShortString, Scanned.cons]
  · split
    · simp [closedLexeme, consumeLongBody, Scanned.cons]
    · exact sym
  · unfold scanInterpStart
    split <;> simp
  · unfold scanInterpResume
    split <;> simp
  · exact sym

lemma scanLexeme_rest_length_lt (interp : List Nat) {rest : Bytes} (more : rest ≠ []) :
    (scanLexeme interp rest).rest.length < rest.length := by
  have splits := congrArg List.length (scanLexeme_splits interp rest)
  have positive := length_pos_iff.mpr (scanLexeme_text_ne_nil interp more)
  rw [length_append] at splits
  omega

/-! ## The run as a relation -/

inductive Lexes : List Nat → Bytes → List Lexeme → Prop
  | done {interp} : Lexes interp [] []
  | next {interp rest lexemes} : rest ≠ [] →
      Lexes (scanLexeme interp rest).interp (scanLexeme interp rest).rest lexemes →
      Lexes interp rest (scanLexeme interp rest :: lexemes)

lemma lexes_exists (interp : List Nat) (rest : Bytes) : ∃ lexemes, Lexes interp rest lexemes := by
  induction size : rest.length using Nat.strongRecOn generalizing interp rest with
  | _ size ih =>
    by_cases more : rest = []
    · exact ⟨[], more ▸ .done⟩
    · have smaller := scanLexeme_rest_length_lt interp more
      obtain ⟨lexemes, read⟩ := ih _ (size ▸ smaller) _ _ rfl
      exact ⟨_, .next more read⟩

variable {interp : List Nat} {rest : Bytes} {lexemes : List Lexeme}

lemma Lexes.unique {first second : List Lexeme} (readFirst : Lexes interp rest first)
    (readSecond : Lexes interp rest second) : first = second := by
  induction readFirst generalizing second with
  | done =>
    cases readSecond with
    | done => rfl
    | next more _ => exact absurd rfl more
  | next more _ ih =>
    cases readSecond with
    | done => exact absurd rfl more
    | next _ tail => rw [ih tail]

lemma Lexes.flatten (read : Lexes interp rest lexemes) :
    (lexemes.map Lexeme.text).flatten = rest := by
  induction read with
  | done => rfl
  | @next interp rest lexemes _ _ ih =>
    rw [map_cons, List.flatten_cons, ih]
    exact scanLexeme_splits interp rest

def Token.lexical (token : Token) : Kind × Bytes := (token.kind, token.text)

def Lexeme.lexical (lexeme : Lexeme) : Kind × Bytes := (lexeme.kind, lexeme.text)

lemma run_spec {s : Scanner} (read : Lexes s.interp s.rest lexemes) (fuel : Nat)
    (enough : s.rest.length ≤ fuel) :
    (s.run fuel).rest = [] ∧ (s.run fuel).toks.map Token.lexical =
        s.toks.map Token.lexical ++ lexemes.map Lexeme.lexical ∧
      ((s.run fuel).diags = [] ↔ s.diags = [] ∧ ∀ lexeme ∈ lexemes, lexeme.error = none) := by
  obtain ⟨rest, pos, interp, toks, diags⟩ := s
  dsimp only at read enough ⊢
  induction read generalizing fuel pos toks diags with
  | done => cases fuel <;> simp [Scanner.run]
  | @next interp rest lexemes more tail ih =>
    cases fuel with
    | zero => exact absurd (length_eq_zero_iff.mp (by omega)) more
    | succ fuel =>
      have shorter := scanLexeme_rest_length_lt interp more
      have turn := fun pos toks diags => ih fuel pos toks diags (by omega)
      rw [Scanner.run, if_neg more]
      refine ⟨(turn _ _ _).1, (turn _ _ _).2.1.trans ?_, (turn _ _ _).2.2.trans ?_⟩
      · simp [Token.lexical, Lexeme.lexical]
      · cases failed : (scanLexeme interp rest).error <;> simp [failed]

lemma tokenize_eq {src : Bytes} (read : Lexes [] src lexemes) :
    (tokenize src).1.map Token.lexical = lexemes.map Lexeme.lexical ++ [(.eof, [])] ∧
      ((tokenize src).2 = [] ↔ ∀ lexeme ∈ lexemes, lexeme.error = none) := by
  have spec := run_spec (s := Scanner.init src) read src.length (Nat.le_refl _)
  refine ⟨?_, ?_⟩
  · simp only [tokenize, map_append, spec.2.1]
    rfl
  · simpa [tokenize, Scanner.init] using spec.2.2

lemma scanSymbol_kind_ne_eof (interp : List Nat) (rest : Bytes) :
    (scanSymbol interp rest).kind ≠ .eof := by
  rw [scanSymbol]
  split <;> simp

lemma scanInterpStart_kind_ne_eof (interp : List Nat) (rest : Bytes) :
    (scanInterpStart interp rest).kind ≠ .eof := by
  rw [scanInterpStart]
  split <;> simp

lemma scanInterpResume_kind_ne_eof (interp : List Nat) (rest : Bytes) :
    (scanInterpResume interp rest).kind ≠ .eof := by
  rw [scanInterpResume]
  split <;> simp

lemma scanLexeme_kind_ne_eof (interp : List Nat) (rest : Bytes) :
    (scanLexeme interp rest).kind ≠ .eof := by
  rw [scanLexeme]
  split_ifs
  · simp
  · simp [closedLexeme]
  · simp
  · simp
  · simp [closedLexeme]
  · cases longBracketLevel rest with
    | none => exact scanSymbol_kind_ne_eof interp rest
    | some level => simp [closedLexeme]
  · exact scanInterpStart_kind_ne_eof interp rest
  · exact scanInterpResume_kind_ne_eof interp rest
  · exact scanSymbol_kind_ne_eof interp rest

lemma Lexes.kind_ne_eof (read : Lexes interp rest lexemes) :
    ∀ lexeme ∈ lexemes, lexeme.kind ≠ .eof := by
  induction read with
  | done => simp
  | next _ _ ih =>
    intro lexeme mem
    rcases mem_cons.mp mem with rfl | mem
    · exact scanLexeme_kind_ne_eof _ _
    · exact ih lexeme mem

/-- The tokens of a text: one `eof`, at the end and empty, and the text is the
concatenation of the tokens. -/
theorem tokenize_tokens (src : Bytes) : ∃ toks eof, (tokenize src).1 = toks ++ [eof] ∧
    eof.kind = .eof ∧ eof.text = [] ∧ (∀ tok ∈ toks, tok.kind ≠ .eof) ∧
    (toks.map Token.text).flatten = src := by
  obtain ⟨lexemes, read⟩ := lexes_exists [] src
  have spec := run_spec (s := Scanner.init src) read src.length (Nat.le_refl _)
  have lexical : (Scanner.run src.length (Scanner.init src)).toks.map Token.lexical =
      lexemes.map Lexeme.lexical := by
    simpa [Scanner.init] using spec.2.1
  refine ⟨_, _, rfl, rfl, rfl, ?_, ?_⟩
  · intro tok mem
    have found : tok.lexical ∈ lexemes.map Lexeme.lexical := lexical ▸ mem_map_of_mem mem
    obtain ⟨lexeme, inside, same⟩ := mem_map.mp found
    have kinds : lexeme.kind = tok.kind := congrArg Prod.fst same
    exact kinds ▸ read.kind_ne_eof lexeme inside
  · have texts := congrArg (List.map Prod.snd) lexical
    simp only [map_map] at texts
    have whole := read.flatten
    rw [show lexemes.map Lexeme.text = lexemes.map (Prod.snd ∘ Lexeme.lexical) from rfl,
      ← texts] at whole
    exact whole

end Rotor.Luau.Lex
