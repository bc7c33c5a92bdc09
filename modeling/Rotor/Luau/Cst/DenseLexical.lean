import Rotor.Luau.Cst.DenseTokens

/-!
Dense texts and the rules of Luau's own lexer.

Luau reads a number as far as letters, digits, underscores and dots go, and it does not take a
brace directly behind the opening of a hole in an interpolated string. The writer keeps numbers
apart from such bytes. Next to the pieces of an interpolated string it never writes a space, so a
brace that begins a hole comes directly behind the opening one.
-/

namespace Rotor.Luau.Cst

open List Luau.Lex

def opensHole (kind : Kind) : Bool := kind == .interpStart || kind == .interpMid

/-- A byte that Luau reads as a part of the number before it. -/
def continuesNumber (c : UInt8) : Bool :=
  c == 95 || c == 46 || isDigit c || (65 ≤ c && c ≤ 90) || (97 ≤ c && c ≤ 122)

/-- What `Dense` writes: the tokens, and what it puts between them. -/
inductive Written where
  | token (lexical : Lexical)
  | space
  | semicolon

def Written.text : Written → Bytes
  | .token lexical => lexical.2
  | .space => str " "
  | .semicolon => str ";"

def Written.lexical? : Written → Option Lexical
  | .token lexical => some lexical
  | _ => none

/-- The tokens, each with the byte that comes behind it. -/
def writtenNext : List Written → List (Lexical × Option UInt8)
  | [] => []
  | .token lexical :: written =>
    (lexical, (written.flatMap Written.text).head?) :: writtenNext written
  | _ :: written => writtenNext written

def writtenItems : Option Lexical → List Item → List Written
  | _, [] => []
  | prev, .tok lexical :: items =>
    (if spaced prev lexical then [.space] else []) ++
      .token lexical :: writtenItems (some lexical) items
  | _, .semi :: items => .semicolon :: writtenItems (some semicolon) items

def sourceNext (eof : TokenRef) : List TokenRef → List (Lexical × Option UInt8)
  | [] => []
  | ref :: refs =>
    (ref.token.lexical, (triviaText ref.trailing ++ (flatten refs ++ eof.text)).head?) ::
      sourceNext eof refs

def denseWritten (node : Node) : List Written :=
  writtenItems none (itemsOf (match node with
    | .file body _ => body.events
    | node => node.events))

/-- Braces stand behind the opening of a hole only where they do so in the source, and numbers end
where Luau ends them. -/
structure StaysLexical (written source : List (Lexical × Option UInt8)) : Prop where
  braces : ∀ pair ∈ written.zip source, opensHole pair.1.1.1 = true → pair.1.2 = some 123 →
    pair.2.2 = some 123
  numbers : ∀ entry ∈ written, entry.1.1 = .number → ∀ c ∈ entry.2, continuesNumber c = false

/-- Whether a hole begins with a brace that does not stand directly behind its opening. -/
def spreadsBrace : List TokenRef → Bool
  | first :: second :: refs =>
    opensHole first.token.kind && second.token.text.head? == some 123 &&
      (triviaText first.trailing ++ second.text).head? != some 123 ||
    spreadsBrace (second :: refs)
  | _ => false

variable {items : List Item} {i : List Nat}

lemma writtenItems_spec (prev : Option Lexical) (items : List Item) :
    (writtenItems prev items).flatMap Written.text = denseText prev items ∧
      (writtenItems prev items).filterMap Written.lexical? = itemToks items := by
  induction items generalizing prev with
  | nil => exact ⟨rfl, rfl⟩
  | cons item items ih =>
    cases item with
    | semi =>
      obtain ⟨text, toks⟩ := ih (some semicolon)
      exact ⟨congrArg (semicolon.2 ++ ·) text, toks⟩
    | tok lexical =>
      obtain ⟨text, toks⟩ := ih (some lexical)
      have kept := congrArg (lexical :: ·) toks
      rw [writtenItems, denseText, append_assoc, ← text]
      cases spaced prev lexical with
      | true => exact ⟨rfl, kept⟩
      | false => exact ⟨rfl, kept⟩

@[simp] lemma writtenNext_tok (prev : Option Lexical) (lexical : Lexical) (items : List Item) :
    writtenNext (writtenItems prev (.tok lexical :: items)) =
      (lexical, (denseText (some lexical) items).head?) ::
        writtenNext (writtenItems (some lexical) items) := by
  rw [← (writtenItems_spec _ items).1, writtenItems]
  cases spaced prev lexical <;> rfl

/-! ### Numbers -/

variable (chain : Chain i (itemToks items))
include chain

lemma next_number (a : Bytes) :
    ∀ c ∈ (denseText (some (.number, a)) items).head?, continuesNumber c = false := by
  cases items with
  | nil => nofun
  | cons item items =>
    cases item with
    | semi =>
      rintro c ⟨⟩
      rfl
    | tok lexical =>
      cases chain with
      | @cons _ _ kind text _ _ reads nonempty =>
        obtain ⟨first, more, rfl⟩ := exists_cons_of_ne_nil nonempty
        rw [denseText]
        cases apart : spaced (some (.number, a)) (kind, first :: more) with
        | true =>
          rintro c ⟨⟩
          rfl
        | false =>
          rintro c ⟨⟩
          cases interp : isInterpKind kind with
          | true =>
            have boundary := (reads_interp reads nonempty interp).1 first rfl
            exact not_of_isBoundary boundary (by decide)
          | false =>
            have num : isInterpKind .number = false := rfl
            simp only [spaced, Option.any_some, interp, num, Bool.not_false,
              Bool.true_and, Bool.or_eq_false_iff, beq_self_eq_true] at apart
            exact apart.2

lemma writtenNext_numbers (prev : Option Lexical) :
    ∀ entry ∈ writtenNext (writtenItems prev items), entry.1.1 = .number →
      ∀ c ∈ entry.2, continuesNumber c = false := by
  induction items generalizing i prev with
  | nil => nofun
  | cons item items ih =>
    cases item with
    | semi => exact ih chain _
    | tok lexical =>
      cases chain with
      | @cons _ _ kind text _ _ _ _ _ later =>
        intro entry mem num
        rw [writtenNext_tok] at mem
        rcases mem_cons.1 mem with rfl | mem
        · obtain rfl : kind = .number := num
          exact next_number later text
        · exact ih later _ entry mem num

/-! ### Holes -/

lemma next_brace (leads : semisLead items) {kind : Kind} (opens : opensHole kind) (a : Bytes) :
    (denseText (some (kind, a)) items).head? = some 123 ↔
      (itemToks items).head?.bind (·.2.head?) = some 123 := by
  have interp : isInterpKind kind := by
    simp only [opensHole, Bool.or_eq_true, beq_iff_eq] at opens
    rcases opens with rfl | rfl
    · rfl
    · rfl
  cases items with
  | nil => rfl
  | cons item items =>
    cases item with
    | semi =>
      have paren : (itemToks (.semi :: items)).head? = some (.symbol, str "(") := leads.1
      rw [paren]
      exact iff_of_false (by simp [denseText, semicolon, str]) (by decide)
    | tok lexical =>
      cases chain with
      | @cons _ _ next text _ _ _ nonempty =>
        obtain ⟨first, more, rfl⟩ := exists_cons_of_ne_nil nonempty
        have together : spaced (some (kind, a)) (next, first :: more) = false := by
          simp [spaced, interp]
        rw [denseText, together]
        rfl

lemma brace_kept_iff (leads : semisLead items) {ref eof : TokenRef} {refs : List TokenRef}
    (same : itemToks items = refs.map fun ref => ref.token.lexical) :
    (opensHole ref.token.kind → (denseText (some ref.token.lexical) items).head? = some 123 →
      (triviaText ref.trailing ++ (flatten refs ++ eof.text)).head? = some 123) ↔
      refs.head?.any (fun second => opensHole ref.token.kind &&
        second.token.text.head? == some 123 &&
        (triviaText ref.trailing ++ second.text).head? != some 123) = false := by
  cases opens : opensHole ref.token.kind with
  | false => simp
  | true =>
    have next : (denseText (some ref.token.lexical) items).head? = some 123 ↔ _ :=
      next_brace chain leads opens ref.token.text
    rw [next, same]
    cases refs with
    | nil => simp
    | cons second refs =>
      have begins : second.token.text.head? = some 123 →
          (triviaText ref.trailing ++ (flatten (second :: refs) ++ eof.text)).head? =
            (triviaText ref.trailing ++ second.text).head? := by
        intro brace
        have nonempty : triviaText ref.trailing ++ second.text ≠ [] := by
          intro empty
          simp_all [TokenRef.text]
        obtain ⟨c, rest, front⟩ := exists_cons_of_ne_nil nonempty
        rw [flatten_cons, append_assoc, ← append_assoc, front]
        rfl
      by_cases brace : second.token.text.head? = some 123
      · rw [begins brace]
        simp [Token.lexical, brace]
      · simp [Token.lexical, brace]

omit chain in
lemma spreadsBrace_cons (first : TokenRef) (refs : List TokenRef) : spreadsBrace (first :: refs) =
      (refs.head?.any (fun second => opensHole first.token.kind &&
        second.token.text.head? == some 123 &&
        (triviaText first.trailing ++ second.text).head? != some 123) || spreadsBrace refs) := by
  cases refs with
  | nil => rfl
  | cons second refs => rfl

lemma braces_kept_iff (leads : semisLead items) (eof : TokenRef) {refs : List TokenRef}
    (same : itemToks items = refs.map fun ref => ref.token.lexical) (prev : Option Lexical) :
    (∀ pair ∈ (writtenNext (writtenItems prev items)).zip (sourceNext eof refs),
      opensHole pair.1.1.1 → pair.1.2 = some 123 → pair.2.2 = some 123) ↔
      spreadsBrace refs = false := by
  induction items generalizing i refs prev with
  | nil =>
    obtain rfl : refs = [] := by simpa [itemToks] using same
    simp [writtenItems, writtenNext, spreadsBrace]
  | cons item items ih =>
    cases item with
    | semi => exact ih chain leads.2 same _
    | tok lexical =>
      cases refs with
      | nil => simp [itemToks] at same
      | cons ref refs =>
        have heads : lexical = ref.token.lexical := (List.cons.inj same).1
        have tails : itemToks items = refs.map fun ref => ref.token.lexical :=
          (List.cons.inj same).2
        subst heads
        have later : ∃ i', Chain i' (itemToks items) := by
          cases chain with
          | cons _ _ _ later => exact ⟨_, later⟩
        obtain ⟨i', later⟩ := later
        have one := @brace_kept_iff items i' later leads ref eof refs tails
        rw [spreadsBrace_cons, Bool.or_eq_false_iff, ← one,
          ← ih later leads tails (some ref.token.lexical), writtenNext_tok, sourceNext,
          zip_cons_cons, forall_mem_cons]
        rfl

omit chain

/-- The dense text of a parse without diagnostics stays inside the rules of Luau's lexer exactly
when no hole of the source begins with a brace behind trivia. -/
theorem dense_staysLexical_iff (src : Bytes) : ∃ file diags, parse src = some (file, diags) ∧
    (diags = [] → dense file = (denseWritten file).flatMap Written.text ∧
      (denseWritten file).filterMap Written.lexical? = significantTokens src ∧
      (StaysLexical (writtenNext (denseWritten file))
        (sourceNext ((stream src).getLastD .zero) (stream src).dropLast) ↔
      spreadsBrace (stream src).dropLast = false)) := by
  obtain ⟨stmts, c, ran, yields, empty⟩ := parseRun_returns src
  refine ⟨_, c.diags, by rw [parse, ran]; rfl, fun clean => ?_⟩
  have items : itemToks (itemsOf (Node.block stmts).events) = significantTokens src := by
    rw [itemToks_itemsOf, ← newCursor_tokens, yields.toks, empty, append_nil, block_refs]
  obtain ⟨text, toks⟩ := writtenItems_spec none (itemsOf (Node.block stmts).events)
  refine ⟨(DenseWriter.foldl_out _ _).trans text.symm, toks.trans items, ?_⟩
  have chain := chain_of_clean yields clean
  rw [← items] at chain
  have kept := braces_kept_iff chain (semisLead_respects.events _) (newCursor src).eof
    (items.trans (newCursor_tokens src).symm) none
  exact ⟨fun stays => kept.1 stays.braces, fun apart =>
    ⟨kept.2 apart, writtenNext_numbers chain none⟩⟩

def isAssignOp (tok : Token) : Bool := Cursor.isSymbol tok "=" || isCompoundAssignOp tok

def Node.isCall : Node → Bool
  | .call _ _ => Bool.true
  | .methodCall _ _ _ _ => Bool.true
  | _ => Bool.false

/-- The chunks behind the holes: one for each hole, the last one closes the string
and the others open the next hole. -/
def isClosed (exprs : List Node) (mids : List TokenRef) : Bool :=
  mids.length == exprs.length && mids.dropLast.all (fun mid => mid.token.kind == .interpMid) &&
    mids.getLast?.any fun mid => mid.token.kind == .interpEnd

/-- Whether what the parser takes without a test is what belongs there. -/
def Node.isGrammatical : Node → Bool
  | .name tok => isIdentifier tok.token
  | .assignStmt _ op _ => isAssignOp op.token
  | .callStmt callExpr => callExpr.isCall
  | .interpString _ exprs mids => exprs.isEmpty || isClosed exprs mids
  | _ => Bool.true

/-- Whether a text parses without diagnostics and grammatically to the dense text, in which a brace
has come behind the opening of a hole. -/
def gluesBrace (src written : Bytes) : Bool :=
  (parse src).any fun (file, diags) =>
    diags.isEmpty && file.nodes.all Node.isGrammatical && dense file == written &&
      ((writtenNext (denseWritten file)).zip
        (sourceNext ((stream src).getLastD .zero) (stream src).dropLast)).any fun pair =>
          opensHole pair.1.1.1 && pair.1.2 == some 123 && pair.2.2 != some 123

lemma gluesBrace_spec {src written : Bytes} (glues : gluesBrace src written) :
    ∃ file, parse src = some (file, []) ∧ file.nodes.all Node.isGrammatical ∧
      dense file = written ∧ ¬StaysLexical (writtenNext (denseWritten file))
        (sourceNext ((stream src).getLastD .zero) (stream src).dropLast) := by
  rw [gluesBrace] at glues
  cases parsed : parse src with
  | none => simp [parsed] at glues
  | some res =>
    obtain ⟨file, diags⟩ := res
    simp only [parsed, Option.any_some, Bool.and_eq_true, List.isEmpty_iff, beq_iff_eq] at glues
    obtain ⟨⟨⟨rfl, grammatical⟩, text⟩, found⟩ := glues
    refine ⟨file, rfl, grammatical, text, fun stays => ?_⟩
    obtain ⟨pair, mem, broken⟩ := any_eq_true.1 found
    simp only [Bool.and_eq_true, beq_iff_eq, bne_iff_ne] at broken
    exact broken.2 (stays.braces pair mem broken.1.1 broken.1.2)

theorem dense_gluesBrace : ∃ file, parse (str "x = `\x7b \x7b1\x7d \x7d`") = some (file, []) ∧
    file.nodes.all Node.isGrammatical = true ∧ dense file = str "x=`\x7b\x7b1\x7d\x7d`" ∧
    ¬StaysLexical (writtenNext (denseWritten file)) (sourceNext
      ((stream (str "x = `\x7b \x7b1\x7d \x7d`")).getLastD .zero)
      (stream (str "x = `\x7b \x7b1\x7d \x7d`")).dropLast) := gluesBrace_spec (by decide +kernel)

end Rotor.Luau.Cst
