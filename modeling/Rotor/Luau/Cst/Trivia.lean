import Rotor.Luau.Lex.Lossless

/-!
Trivia attachment (`cst/trivia.go`): every significant token carries the
whitespace and comments around it.
-/

namespace Rotor.Luau.Cst

open List Luau.Lex

structure Trivia where
  kind : Kind
  text : Bytes
  start : Pos
  deriving DecidableEq

/-- A significant token with its leading and trailing trivia. -/
structure TokenRef where
  leading : List Trivia
  token : Token
  trailing : List Trivia
  deriving DecidableEq

/-- The zero value of a `TokenRef`, the contents of a field that no parsing
routine has set: its kind is the first one, `eof`, and its text is empty. -/
def TokenRef.zero : TokenRef := ⟨[], ⟨.eof, [], ⟨0, 0, 0⟩, ⟨0, 0, 0⟩⟩, []⟩

def triviaText (trivia : List Trivia) : Bytes := (trivia.map Trivia.text).flatten

def TokenRef.text (ref : TokenRef) : Bytes :=
  triviaText ref.leading ++ ref.token.text ++ triviaText ref.trailing

def triviaOf (token : Token) : Trivia := ⟨token.kind, token.text, token.start⟩

def hasNewline (text : Bytes) : Bool := text.contains 10

/-- Trailing trivia runs up to the first whitespace that has a newline. -/
def isTrailing (token : Token) : Bool :=
  token.kind.isTrivia && !(token.kind == .whitespace && hasNewline token.text)

/-- `attachTrivia`.  Every turn of the loop consumes the significant token it
stops at, so as many turns as there are tokens are enough. -/
def attachTriviaLoop : Nat → List Token → List TokenRef
  | 0, _ => []
  | fuel + 1, toks =>
    match toks.dropWhile (·.kind.isTrivia) with
    | [] => []
    | sig :: after =>
      let ref : TokenRef :=
        ⟨(toks.takeWhile (·.kind.isTrivia)).map triviaOf, sig,
          (after.takeWhile isTrailing).map triviaOf⟩
      if sig.kind = .eof then [ref]
      else ref :: attachTriviaLoop fuel (after.dropWhile isTrailing)

def attachTrivia (toks : List Token) : List TokenRef := attachTriviaLoop toks.length toks

def flatten (refs : List TokenRef) : Bytes := (refs.map TokenRef.text).flatten

@[simp]
lemma flatten_nil : flatten [] = [] := rfl

@[simp]
lemma flatten_cons (ref : TokenRef) (refs : List TokenRef) :
    flatten (ref :: refs) = ref.text ++ flatten refs := rfl

@[simp]
lemma flatten_append (first second : List TokenRef) :
    flatten (first ++ second) = flatten first ++ flatten second := by
  simp [flatten]

def significant (toks : List Token) : List Token := toks.filter fun token => !token.kind.isTrivia

lemma triviaText_map (toks : List Token) :
    triviaText (toks.map triviaOf) = (toks.map Token.text).flatten := by
  simp only [triviaText, map_map]
  rfl

lemma significant_takeWhile_trivia (toks : List Token) :
    significant (toks.takeWhile (·.kind.isTrivia)) = [] := by
  rw [significant, filter_eq_nil_iff]
  intro token mem
  simpa using mem_takeWhile_imp mem

lemma significant_takeWhile_trailing (toks : List Token) :
    significant (toks.takeWhile isTrailing) = [] := by
  rw [significant, filter_eq_nil_iff]
  intro token mem
  have trailing := mem_takeWhile_imp mem
  simp only [isTrailing, Bool.and_eq_true] at trailing
  simp [trailing.1]

/-- What `attachTrivia` makes of a stream that ends in its one `eof` token:
references to the significant tokens in order, then one for `eof`, and no text
is lost. -/
structure Attached (toks : List Token) (eof : Token) (refs : List TokenRef)
    (last : TokenRef) : Prop where
  tokens : refs.map TokenRef.token = significant toks
  eofToken : last.token = eof
  noTrailing : last.trailing = []
  text : flatten refs ++ last.text = (toks.map Token.text).flatten ++ eof.text

lemma takeWhile_concat_of_not {α : Type} {p : α → Bool} {last : α}
    (stops : p last = false) (values : List α) :
    (values ++ [last]).takeWhile p = values.takeWhile p := by
  induction values with
  | nil => simp [stops]
  | cons val values ih =>
    simp only [cons_append, takeWhile_cons, ih]

lemma dropWhile_concat_of_not {α : Type} {p : α → Bool} {last : α}
    (stops : p last = false) (values : List α) :
    (values ++ [last]).dropWhile p = values.dropWhile p ++ [last] := by
  induction values with
  | nil => simp [stops]
  | cons val values ih =>
    simp only [cons_append, dropWhile_cons, ih]
    split <;> rfl

lemma attachTriviaLoop_spec {eof : Token} (isEof : eof.kind = .eof) (fuel : Nat)
    (toks : List Token) (noEof : ∀ token ∈ toks, token.kind ≠ .eof) (enough : toks.length < fuel) :
    ∃ refs last, attachTriviaLoop fuel (toks ++ [eof]) = refs ++ [last] ∧
      Attached toks eof refs last := by
  have eofSignificant : eof.kind.isTrivia = false := by rw [isEof]; rfl
  have eofNotTrailing : isTrailing eof = false := by simp [isTrailing, eofSignificant]
  induction fuel generalizing toks with
  | zero => omega
  | succ fuel ih =>
    have leadingSplit := takeWhile_append_dropWhile
      (p := fun token : Token => token.kind.isTrivia) (l := toks)
    unfold attachTriviaLoop
    rw [dropWhile_concat_of_not (p := fun token : Token => token.kind.isTrivia) eofSignificant,
      takeWhile_concat_of_not (p := fun token : Token => token.kind.isTrivia) eofSignificant]
    cases after : toks.dropWhile (·.kind.isTrivia) with
    | nil =>
      rw [after, append_nil] at leadingSplit
      rw [leadingSplit]
      refine ⟨[], ⟨toks.map triviaOf, eof, []⟩, by simp [isEof], ?_, rfl, rfl, ?_⟩
      · rw [← leadingSplit, significant_takeWhile_trivia]
        rfl
      · rw [TokenRef.text, triviaText_map]
        simp [triviaText]
    | cons sig more =>
      rw [after] at leadingSplit
      have sigMember : sig ∈ toks := by
        rw [← leadingSplit]
        simp
      have sigSignificant : sig.kind.isTrivia = false := by
        have first := List.head?_dropWhile_not (fun token : Token => token.kind.isTrivia) toks
        simpa [after] using first
      have trailingSplit := takeWhile_append_dropWhile (p := isTrailing) (l := more)
      have tailShorter : (more.dropWhile isTrailing).length < fuel := by
        have total := congrArg List.length leadingSplit
        have trailing := congrArg List.length trailingSplit
        simp only [length_append, length_cons] at total trailing
        omega
      have tailNoEof : ∀ token ∈ more.dropWhile isTrailing, token.kind ≠ .eof := by
        intro token mem
        apply noEof
        rw [← leadingSplit]
        have inMore : token ∈ more := (dropWhile_sublist _).subset mem
        simp [inMore]
      obtain ⟨refs, last, looped, attached⟩ := ih _ tailNoEof tailShorter
      simp only [cons_append, noEof sig sigMember, if_false,
        takeWhile_concat_of_not eofNotTrailing, dropWhile_concat_of_not eofNotTrailing, looped]
      refine ⟨_ :: refs, last, rfl, ?_, attached.eofToken, attached.noTrailing, ?_⟩
      · rw [map_cons, attached.tokens]
        conv_rhs => rw [← leadingSplit, ← trailingSplit]
        simp only [significant, filter_append, filter_cons, sigSignificant]
        have noLeading := significant_takeWhile_trivia toks
        have noTrail := significant_takeWhile_trailing more
        simp only [significant] at noLeading noTrail
        simp [noLeading, noTrail]
      · rw [flatten_cons, append_assoc, attached.text, TokenRef.text, triviaText_map,
          triviaText_map]
        have trailingText := congrArg (fun toks => (toks.map Token.text).flatten) trailingSplit
        simp only [map_append, List.flatten_append] at trailingText
        conv_rhs => rw [← leadingSplit]
        simp only [map_append, map_cons, List.flatten_append, List.flatten_cons,
          ← trailingText, append_assoc]

lemma attachTrivia_spec {eof : Token} (isEof : eof.kind = .eof) (toks : List Token)
    (noEof : ∀ token ∈ toks, token.kind ≠ .eof) :
    ∃ refs last, attachTrivia (toks ++ [eof]) = refs ++ [last] ∧
      Attached toks eof refs last := attachTriviaLoop_spec isEof _ toks noEof (by simp)

end Rotor.Luau.Cst
