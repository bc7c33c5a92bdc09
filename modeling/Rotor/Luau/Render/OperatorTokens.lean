import Rotor.Luau.Render.Operators

/-!
The tokens of a rendered operator expression: those of the tree that is written.
-/

namespace Rotor.Luau.Render

open List Luau.Lex Lib.Precedence Grammar
open Option (bind_eq_some_iff)

variable {env : Env} {node expr cond alt : Node} {indent : Nat} {slot : Slot}
variable {text : Bytes}

/-! ### Texts of operator tokens -/

/-- A text that begins with this byte and is read as these tokens of the grammar. -/
def Spelled (text : Bytes) (toks : List (Tok Lexical Op)) (c : UInt8) : Prop :=
  ∃ rest lexicals, text = c :: rest ∧ Closed text lexicals ∧
    classifyAll lexicals = some toks ∧ isSpace c = false

namespace Spelled

variable {a b : Bytes} {toks toks' : List (Tok Lexical Op)} {c d : UInt8}

lemma spaced (first : Spelled a toks c) (second : Spelled b toks' d) :
    Spelled (a ++ str " " ++ b) (toks ++ toks') c := by
  obtain ⟨rest, lexicals, rfl, closed, classified, notSpace⟩ := first
  obtain ⟨rest', lexicals', rfl, closed', classified', notSpace'⟩ := second
  refine ⟨rest ++ str " " ++ d :: rest', lexicals ++ lexicals', rfl, ?_,
    classifyAll_append classified classified', notSpace⟩
  rw [append_assoc]
  exact closed.append (by decide) (closed'.space notSpace')

lemma behind {lexical : Lexical} {tok : Tok Lexical Op} (second : Spelled b toks d)
    (single : lexical = (.symbol, [c])) (classified : classify lexical = some [tok])
    (notSpace : isSpace c = false) (reads : ∀ i r, Reads i .symbol [c] i (b ++ r)) :
    Spelled ([c] ++ b) (tok :: toks) c := by
  obtain ⟨rest, lexicals, text, closed, classified', -⟩ := second
  refine ⟨b, lexical :: lexicals, rfl, ?_, ?_, notSpace⟩
  · intro i r boundary
    have here : Spells i [c] [lexical] i (b ++ r) := single ▸ (reads i r).spells (by simp) rfl
    exact here.append (closed i r boundary)
  · simp [classifyAll, classified, classified']

lemma paren (inner : Spelled a toks c) :
    Spelled (str "(" ++ a ++ str ")") (.lparen :: toks ++ [.rparen]) 40 := by
  obtain ⟨rest, lexicals, rfl, closed, classified, notSpace⟩ := inner
  have close : Closed [41] [(.symbol, [41])] := closed_token rfl rfl (by decide) (by decide)
  have closedRight : Spelled (c :: rest ++ [41]) (toks ++ [.rparen]) c :=
    ⟨rest ++ [41], lexicals ++ [(.symbol, [41])], rfl, closed.append (by decide) close,
      classifyAll_append classified rfl, notSpace⟩
  exact closedRight.behind rfl rfl (by decide) fun i r => reads_punctuation (by decide) i _

lemma hash (operand : Spelled b toks d) : Spelled (str "#" ++ b) (.op .length :: toks) 35 :=
  operand.behind rfl rfl (by decide) fun i r => reads_punctuation (by decide) i _

lemma minus (operand : Spelled b toks d) (plain : d ≠ 45 ∧ d ≠ 61 ∧ d ≠ 62) :
    Spelled (str "-" ++ b) (.op (.binary .sub) :: toks) 45 := by
  have starts := operand
  obtain ⟨rest, lexicals, rfl, -⟩ := starts
  have reads (i : List Nat) (r : Bytes) : Reads i .symbol [45] i (d :: rest ++ r) := by
    apply reads_single _ (by decide) (by decide)
    · intro e begins
      obtain rfl : d = e := by simpa using begins
      simp [symbols2, str, plain]
    · exact ⟨by decide, by simp [peekAt, plain], by decide, by decide, by simp, by decide,
        by simp [longBracketLevel], by decide, by simp⟩
  exact operand.behind rfl rfl (by decide) reads

end Spelled

variable {kind : Kind} {toks : List (Tok Lexical Op)} {name : Bytes} {token : Lexical}

lemma spelled_token {c : UInt8} {s : Bytes} (reads : Reads [] kind (c :: s) [] [])
    (sig : kind.isTrivia = false) (plain : c ≠ 96 ∧ c ≠ 123 ∧ c ≠ 125) (notBracket : c :: s ≠ [91])
    (classified : classify (kind, c :: s) = some toks) : Spelled (c :: s) toks c := by
  refine ⟨s, [(kind, c :: s)], rfl, closed_token reads sig plain notBracket, ?_, ?_⟩
  · simp [classifyAll, classified]
  · exact head_not_space reads sig

/-! ### Atoms -/

lemma readsAlone_iff {a : Bytes} (literal : kind = .number ∨ kind = .string) :
    readsAlone (kind, a) ↔ a ≠ [] ∧ Reads [] kind a [] [] := by
  constructor
  · intro alone
    obtain ⟨clean, tokens⟩ : (tokenize a).2 = [] ∧ significantTokens a = [(kind, a)] := by
      simpa [readsAlone] using alone
    obtain ⟨lexemes, read⟩ := lexes_exists [] a
    have chain := read.chain ((tokenize_eq read).2.mp clean)
    rw [← tokenize_significant read, tokens] at chain
    cases chain with
    | cons reads nonempty => exact ⟨nonempty, reads.literal_alone nonempty literal⟩
  · rintro ⟨nonempty, reads⟩
    have sig : kind.isTrivia = false := by
      rcases literal with rfl | rfl
      · rfl
      · rfl
    obtain ⟨tokens, clean⟩ := (reads.spells nonempty sig).tokens
    simp [readsAlone, tokens, clean]

lemma isNameCont_eq (c : UInt8) : isNameCont c = isIdentifierPart c := by
  simp only [isNameCont, isNameStart, isIdentifierPart, isIdentifierStart, isDigit, Bool.or_assoc]
  grind

lemma validIdentifier_reads (valid : isValidIdentifier name) :
    ∃ c s, name = c :: s ∧ isNameStart c ∧ Reads [] .name name [] [] ∧
      isReservedKeyword name = false := by
  cases name with
  | nil => simp [isValidIdentifier] at valid
  | cons c s =>
    obtain ⟨⟨start, parts⟩, notReserved⟩ : (isIdentifierStart c ∧
        ∀ d ∈ s, isIdentifierPart d) ∧ isReservedKeyword (c :: s) = false := by
      simpa [isValidIdentifier] using valid
    have nameStart : isNameStart c := by
      simp only [isIdentifierStart] at start
      simp only [isNameStart]
      grind
    have all : ∀ d ∈ c :: s, isNameCont d := by
      intro d mem
      rw [isNameCont_eq]
      rcases mem_cons.mp mem with rfl | mem
      · simp [isIdentifierPart, start]
      · exact parts d mem
    have consumed : consumeWhile isNameCont (c :: s ++ []) = (c :: s, []) :=
      consumeWhile_eq_iff.mpr ⟨all, by simp⟩
    refine ⟨c, s, rfl, nameStart, ?_, notReserved⟩
    rw [Reads, cons_append, scanLexeme_name nameStart, ← cons_append, consumed]

lemma classify_name (notReserved : isReservedKeyword name = false) :
    classify (.name, name) = some [.atom (.name, name)] := by
  have other (keyword : String) (reserved : isReservedKeyword (str keyword)) :
      name ≠ str keyword := by
    rintro rfl
    simp [reserved] at notReserved
  simp [classify, other "if" rfl, other "then" rfl, other "else" rfl, other "elseif" rfl,
    other "not" rfl, other "and" rfl, other "or" rfl, notReserved]

def PlainStart (c : UInt8) : Prop := c ≠ 45 ∧ c ≠ 61 ∧ c ≠ 62

instance (c : UInt8) : Decidable (PlainStart c) := inferInstanceAs (Decidable (_ ∧ _))

lemma nameStart_plain {c : UInt8} (name : isNameStart c) :
    (c ≠ 96 ∧ c ≠ 123 ∧ c ≠ 125) ∧ PlainStart c ∧ c ≠ 91 := by
  refine ⟨⟨?_, ?_, ?_⟩, ⟨?_, ?_, ?_⟩, ?_⟩
  all_goals
    rintro rfl
    exact absurd name (by decide)

lemma spelled_identifier (valid : isValidIdentifier name) :
    ∃ c, Spelled name [.atom (.name, name)] c ∧ PlainStart c := by
  obtain ⟨c, s, rfl, start, reads, notReserved⟩ := validIdentifier_reads valid
  obtain ⟨plain, plainStart, notBracket⟩ := nameStart_plain start
  exact ⟨c, spelled_token reads rfl plain (by simp [notBracket]) (classify_name notReserved),
    plainStart⟩

lemma spelled_literal {a : Bytes} (literal : kind = .number ∨ kind = .string)
    (alone : readsAlone (kind, a)) : ∃ c, Spelled a [.atom (kind, a)] c ∧ PlainStart c := by
  obtain ⟨nonempty, reads⟩ := (readsAlone_iff literal).mp alone
  obtain ⟨c, s, rfl⟩ := exists_cons_of_ne_nil nonempty
  have kinds : (scanLexeme [] (c :: (s ++ []))).kind = kind := congrArg Lexeme.kind reads
  obtain ⟨plain, plainStart⟩ := literalStart_plain (literal_start (kinds ▸ literal))
  have notBracket : c :: s ≠ [91] := by
    intro same
    obtain ⟨rfl, rfl⟩ := List.cons.inj same
    obtain rfl : Kind.symbol = kind := kinds
    simp at literal
  have sig : kind.isTrivia = false := by
    rcases literal with rfl | rfl
    · rfl
    · rfl
  have classified : classify (kind, c :: s) = some [.atom (kind, c :: s)] := by
    rcases literal with rfl | rfl
    · rfl
    · rfl
  exact ⟨c, spelled_token reads sig plain notBracket classified, plainStart⟩

lemma renderStringLiteral_other (notBracket : slot ≠ .bracket) (val : Bytes) :
    renderStringLiteral slot val = renderStringLiteral .other val := by
  cases slot with
  | bracket => exact absurd rfl notBracket
  | _ => rfl

lemma spelled_atom (atom : atomToken env node = some token) (leaves : leavesRead env node)
    (indent : Nat) (notBracket : slot ≠ .bracket) : render env indent slot node = some token.2 ∧
      ∃ c, Spelled token.2 [.atom token] c ∧ PlainStart c := by
  have keyword {c : UInt8} {s : Bytes} (reads : Reads [] .name (c :: s) [] [])
      (start : isNameStart c)
      (classified : classify (.name, c :: s) = some [.atom (.name, c :: s)]) :
      ∃ d, Spelled (c :: s) [.atom (.name, c :: s)] d ∧ PlainStart d := by
    obtain ⟨plain, plainStart, notBracket⟩ := nameStart_plain start
    exact ⟨c, spelled_token reads rfl plain (by simp [notBracket]) classified, plainStart⟩
  cases node with
  | identifier name =>
    obtain rfl := Option.some.inj atom
    have valid : isValidIdentifier name := leaves
    exact ⟨by simp [render, valid], spelled_identifier valid⟩
  | temporaryIdentifier name id exactName =>
    obtain rfl := Option.some.inj atom
    have valid : isValidIdentifier (env.tempName id) := leaves
    exact ⟨by simp [render, valid], spelled_identifier valid⟩
  | nilLiteral =>
    obtain rfl := Option.some.inj atom
    exact ⟨rfl, keyword rfl rfl rfl⟩
  | trueLiteral =>
    obtain rfl := Option.some.inj atom
    exact ⟨rfl, keyword rfl rfl rfl⟩
  | falseLiteral =>
    obtain rfl := Option.some.inj atom
    exact ⟨rfl, keyword rfl rfl rfl⟩
  | numberLiteral val =>
    obtain rfl := Option.some.inj atom
    exact ⟨rfl, spelled_literal (.inl rfl) leaves⟩
  | stringLiteral val =>
    obtain rfl := Option.some.inj atom
    refine ⟨?_, spelled_literal (.inr rfl) leaves⟩
    rw [render, renderStringLiteral_other notBracket]
  | varArgsLiteral =>
    obtain rfl := Option.some.inj atom
    exact ⟨rfl, 46, spelled_token rfl rfl (by decide) (by decide) rfl,
      by simp [PlainStart]⟩
  | _ => simp [atomToken] at atom

/-! ### Whole expressions -/

def leadsMinus (slot : Slot) : Node → Bool
  | .unaryExpression .neg _ => !needsParentheses (unaryOperatorPrecedence .neg) slot
  | .binaryExpression left operator _ =>
    !needsParentheses (binaryOperatorPrecedence operator) slot &&
      leadsMinus (.binaryLeft operator) left
  | _ => false

lemma leadsMinus_atom (atom : atomToken env node = some token) (slot : Slot) :
    leadsMinus slot node = false := by
  cases node <;> simp_all [atomToken, leadsMinus]

lemma leadsMinus_simple (simple : (skipParentheses node).isSimple) :
    leadsMinus slot node = false := by
  cases node with
  | unaryExpression | binaryExpression => simp [skipParentheses, Node.isSimple] at simple
  | _ => rfl

lemma isIfExpression_atom (atom : atomToken env node = some token) :
    node.isIfExpression = false := by
  cases node with
  | ifExpression => simp [atomToken] at atom
  | _ => rfl

/-- In a slot that leaves only powers bare, the only node that begins with a minus is a negation. -/
theorem leadsMinus_tight (tree : OperatorTree env node)
    (tight : ∀ op, op ≠ .pow → needsParentheses (binaryOperatorPrecedence op) slot)
    (leads : leadsMinus slot node) : ∃ expr, node = .unaryExpression .neg expr ∧
      needsParentheses (unaryOperatorPrecedence .neg) slot = false := by
  induction tree generalizing slot with
  | atom token atom => simp [leadsMinus_atom atom] at leads
  | parenthesized | ifElse => simp [leadsMinus] at leads
  | @unary inner expr =>
    cases inner with
    | neg => exact ⟨expr, rfl, by simpa [leadsMinus] using leads⟩
    | _ => simp [leadsMinus] at leads
  | @binary left right op _ _ first =>
    by_cases isPow : op = .pow
    · subst isPow
      rw [leadsMinus, Bool.and_eq_true] at leads
      obtain ⟨_, rfl, bare⟩ := first (by rintro ⟨⟩ <;> decide) leads.2
      nomatch bare
    · simp [leadsMinus, tight op isPow] at leads

lemma spelled_parenthesize {tree : Tree Lexical Op} {c : UInt8}
    (spelled : Spelled text tree.flatten c) (needed : Bool) :
    Spelled (parenthesize needed text) (wrap needed tree).flatten (if needed then 40 else c) := by
  cases needed with
  | true => exact spelled.paren
  | false => exact spelled

def RendersIn (env : Env) (node : Node) (indent : Nat) (slot : Slot) : Prop :=
  ∃ text c, render env indent slot node = some text ∧
    Spelled text (written env slot node).flatten c ∧
    (leadsMinus slot node = false → PlainStart c)

def RendersElse (env : Env) (node : Node) (indent : Nat) : Prop :=
  ∃ text c, (if node.isIfExpression then renderElseif env indent node
      else renderWith (str "else ") (render env indent .ifPart node)) = some text ∧
    Spelled text (.elseTok :: (written env .ifPart node).flatten) c

lemma spelled_operator (operator : BinaryOperator) :
    ∃ c, Spelled (str operator.text) [.op (.binary operator)] c := by
  cases operator <;> exact ⟨_, spelled_token rfl rfl (by decide) (by decide) rfl⟩

lemma rendersIn_binary {left right : Node} {operator : BinaryOperator}
    (first : RendersIn env left indent (.binaryLeft operator))
    (second : RendersIn env right indent (.binaryRight operator)) (slot : Slot) :
    RendersIn env (.binaryExpression left operator right) indent slot := by
  obtain ⟨leftStr, c, renderLeft, spelledLeft, plain⟩ := first
  obtain ⟨rightStr, d, renderRight, spelledRight, -⟩ := second
  obtain ⟨o, spelledOperator⟩ := spelled_operator operator
  have spelled := (spelledLeft.spaced spelledOperator).spaced spelledRight
  have flat : (Tree.binary (written env (.binaryLeft operator) left) (.binary operator)
      (written env (.binaryRight operator) right)).flatten =
      (written env (.binaryLeft operator) left).flatten ++ [.op (.binary operator)] ++
        (written env (.binaryRight operator) right).flatten := by
    simp [Tree.flatten]
  rw [← flat] at spelled
  refine ⟨_, _, by simp [render, renderLeft, renderRight], spelled_parenthesize spelled _, ?_⟩
  cases needed : needsParentheses (binaryOperatorPrecedence operator) slot with
  | true => simp [PlainStart]
  | false =>
    intro leads
    exact plain (by simpa [leadsMinus, needed] using leads)

lemma rendersIn_unary {operator : UnaryOperator} (tree : OperatorTree env expr)
    (operand : RendersIn env expr indent (.unaryOperand operator)) (slot : Slot) :
    RendersIn env (.unaryExpression operator expr) indent slot := by
  obtain ⟨text, c, rendered, spelled, plain⟩ := operand
  -- The operator with the space behind it, if there is one.
  have whole : ∃ d, Spelled (str operator.text ++
      (if unaryNeedsSpace operator expr then str " " else []) ++ text)
      (Tree.unary (.ofUnary operator) (written env (.unaryOperand operator) expr)).flatten d ∧
      (operator ≠ .neg → PlainStart d) := by
    cases needsSpace : unaryNeedsSpace operator expr with
    | true =>
      have sign : ∃ d, Spelled (str operator.text) [.op (.ofUnary operator)] d ∧
          (operator ≠ .neg → PlainStart d) := by
        cases operator with
        | not => exact ⟨110, spelled_token rfl rfl (by decide) (by decide) rfl, by decide⟩
        | length => exact ⟨35, spelled_token rfl rfl (by decide) (by decide) rfl, by decide⟩
        | neg => exact ⟨45, spelled_token rfl rfl (by decide) (by decide) rfl, by simp⟩
      obtain ⟨d, spelledSign, plainSign⟩ := sign
      exact ⟨d, spelledSign.spaced spelled, plainSign⟩
    | false =>
      have leads : leadsMinus (.unaryOperand operator) expr = false := by
        by_contra leads
        obtain ⟨inner, rfl, -⟩ := leadsMinus_tight tree
          (by rintro ⟨⟩ <;> cases operator <;> decide) (Bool.of_not_eq_false leads)
        cases operator <;> simp [unaryNeedsSpace] at needsSpace
      cases operator with
      | not => simp [unaryNeedsSpace] at needsSpace
      | length => exact ⟨35, spelled.hash, by simp [PlainStart]⟩
      | neg => exact ⟨45, spelled.minus (plain leads), by simp⟩
  obtain ⟨d, spelledWhole, plainWhole⟩ := whole
  refine ⟨_, _, by simp [render, rendered], spelled_parenthesize spelledWhole _, ?_⟩
  cases needed : needsParentheses (unaryOperatorPrecedence operator) slot with
  | true => simp [PlainStart]
  | false =>
    intro leads
    apply plainWhole
    rintro rfl
    simp [leadsMinus, needed] at leads

lemma spelled_branches {word spaced : Bytes} {c : UInt8} (keyword : Spelled word toks c)
    (isSpaced : spaced = word ++ str " ") (first : RendersIn env cond indent .ifPart)
    (second : RendersIn env expr indent .ifPart) (third : RendersElse env alt indent) :
    ∃ condStr expStr alternativeStr, render env indent .ifPart cond = some condStr ∧
      render env indent .ifPart expr = some expStr ∧
      (if alt.isIfExpression then renderElseif env indent alt
        else renderWith (str "else ") (render env indent .ifPart alt)) = some alternativeStr ∧
      Spelled (spaced ++ condStr ++ str " then " ++ expStr ++ str " " ++ alternativeStr)
        (toks ++ (written env .ifPart cond).flatten ++ .thenTok ::
          (written env .ifPart expr).flatten ++ .elseTok ::
          (written env .ifPart alt).flatten) c := by
  obtain ⟨condStr, _, renderCondition, spelledCondition, -⟩ := first
  obtain ⟨expStr, _, renderExpression, spelledExpression, -⟩ := second
  obtain ⟨alternativeStr, _, renderAlternative, spelledAlternative⟩ := third
  have thenWord : Spelled (str "then") [.thenTok] 116 :=
    spelled_token rfl rfl (by decide) (by decide) rfl
  have spelled := (((keyword.spaced spelledCondition).spaced thenWord).spaced
    spelledExpression).spaced spelledAlternative
  refine ⟨_, _, _, renderCondition, renderExpression, renderAlternative, ?_⟩
  rw [isSpaced, show str " then " = str " " ++ str "then" ++ str " " from rfl]
  simpa using spelled

lemma rendersIn_ifElse (first : RendersIn env cond indent .ifPart)
    (second : RendersIn env expr indent .ifPart) (third : RendersElse env alt indent)
    (slot : Slot) :
    RendersIn env (.ifExpression cond expr alt) indent slot := by
  have ifWord : Spelled (str "if") [.ifTok] 105 := spelled_token rfl rfl (by decide) (by decide) rfl
  obtain ⟨_, _, _, renderCondition, renderExpression, renderAlternative, spelled⟩ :=
    spelled_branches ifWord (rfl : str "if " = _) first second third
  have whole : Spelled _ (Tree.ifElse _ _ _).flatten _ := spelled
  refine ⟨_, _, ?_, spelled_parenthesize whole _, ?_⟩
  · rw [render]
    simp [renderCondition, renderExpression, renderAlternative]
  · intro _
    cases needsParentheses ifExpressionPrecedence slot with
    | true => simp [PlainStart]
    | false => simp [PlainStart]

lemma rendersElse_ifElse (first : RendersIn env cond indent .ifPart)
    (second : RendersIn env expr indent .ifPart) (third : RendersElse env alt indent) :
    RendersElse env (.ifExpression cond expr alt) indent := by
  have elseifWord : Spelled (str "elseif") [.elseTok, .ifTok] 101 :=
    spelled_token rfl rfl (by decide) (by decide) rfl
  obtain ⟨_, _, _, renderCondition, renderExpression, renderAlternative, spelled⟩ :=
    spelled_branches elseifWord (rfl : str "elseif " = _) first second third
  refine ⟨_, 101, ?_, spelled⟩
  rw [Node.isIfExpression, if_pos rfl, renderElseif]
  simp [renderCondition, renderExpression, renderAlternative]

lemma rendersElse_other (other : node.isIfExpression = false)
    (renders : RendersIn env node indent .ifPart) :
    RendersElse env node indent := by
  obtain ⟨text, c, rendered, spelled, -⟩ := renders
  have elseWord : Spelled (str "else") [.elseTok] 101 :=
    spelled_token rfl rfl (by decide) (by decide) rfl
  refine ⟨str "else" ++ str " " ++ text, 101, ?_, elseWord.spaced spelled⟩
  rw [other, if_neg (by simp), rendered]
  rfl

lemma render_spelled (tree : OperatorTree env node) (leaves : leavesRead env node) (indent : Nat) :
    (∀ slot, slot ≠ .bracket → RendersIn env node indent slot) ∧ RendersElse env node indent := by
  have both {node : Node} (other : node.isIfExpression = false)
      (renders : ∀ slot, slot ≠ .bracket → RendersIn env node indent slot) :
      (∀ slot, slot ≠ .bracket → RendersIn env node indent slot) ∧
        RendersElse env node indent :=
    ⟨renders, rendersElse_other other (renders .ifPart (by simp))⟩
  induction tree with
  | @atom node token atom =>
    apply both (isIfExpression_atom atom)
    intro slot notBracket
    obtain ⟨rendered, c, spelled, plain⟩ := spelled_atom atom leaves indent notBracket
    refine ⟨token.2, c, rendered, ?_, fun _ => plain⟩
    rw [(written_atom atom slot).1]
    exact spelled
  | @parenthesized expr _ ih =>
    apply both rfl
    intro slot _
    obtain ⟨text, c, rendered, spelled, plain⟩ := (ih leaves).1 .other (by simp)
    refine ⟨_, _, by simp [render, rendered], spelled_parenthesize spelled _, fun _ => ?_⟩
    cases simple : (skipParentheses expr).isSimple with
    | false =>
      show PlainStart 40
      decide
    | true => exact plain (leadsMinus_simple simple)
  | binary _ _ first second =>
    obtain ⟨leavesLeft, leavesRight⟩ := Bool.and_eq_true_iff.mp leaves
    apply both rfl
    intro slot _
    exact rendersIn_binary ((first leavesLeft).1 _ (by simp))
      ((second leavesRight).1 _ (by simp)) slot
  | unary treeOperand ih =>
    apply both rfl
    intro slot _
    exact rendersIn_unary treeOperand ((ih leaves).1 _ (by simp)) slot
  | ifElse _ _ _ first second third =>
    obtain ⟨leavesFirst, leavesThird⟩ := Bool.and_eq_true_iff.mp leaves
    obtain ⟨leavesFirst, leavesSecond⟩ := Bool.and_eq_true_iff.mp leavesFirst
    have cond := (first leavesFirst).1 .ifPart (by simp)
    have expr := (second leavesSecond).1 .ifPart (by simp)
    have alt := (third leavesThird).2
    exact ⟨fun slot _ => rendersIn_ifElse cond expr alt slot, rendersElse_ifElse cond expr alt⟩

/-! ### The atoms that were read -/

lemma atom_of_classify {lexical atom : Lexical} (classified : classify lexical = some toks)
    (mem : .atom atom ∈ toks) : atom = lexical := by
  obtain ⟨kind, text⟩ := lexical
  cases kind with
  | number | string =>
    obtain rfl := Option.some.inj classified
    simpa using mem
  | symbol =>
    simp only [classify] at classified
    split_ifs at classified
    case neg =>
      obtain ⟨op, -, rfl⟩ := Option.map_eq_some_iff.mp classified
      simp at mem
    all_goals
      obtain rfl := Option.some.inj classified
      simp only [mem_cons, not_mem_nil, or_false, reduceCtorEq, Tok.atom.injEq] at mem
      try exact mem
  | name =>
    simp only [classify] at classified
    split_ifs at classified
    all_goals
      obtain rfl := Option.some.inj classified
      simp only [mem_cons, not_mem_nil, or_false, reduceCtorEq, Tok.atom.injEq] at mem
      try exact mem
  | _ => simp [classify] at classified

lemma mem_of_classifyAll {lexicals : List Lexical} {atom : Lexical}
    (classified : classifyAll lexicals = some toks) (mem : .atom atom ∈ toks) :
    atom ∈ lexicals := by
  induction lexicals generalizing toks with
  | nil =>
    obtain rfl := Option.some.inj classified
    simp at mem
  | cons lexical lexicals ih =>
    obtain ⟨first, here, more⟩ := bind_eq_some_iff.mp classified
    obtain ⟨rest, classifiedRest, joined⟩ := bind_eq_some_iff.mp more
    obtain rfl := Option.some.inj joined
    rcases mem_append.mp mem with inFirst | inRest
    · simp [atom_of_classify here inFirst]
    · exact mem_cons_of_mem _ (ih classifiedRest inRest)

lemma readsAlone_of_chain {i : List Nat} {lexicals : List Lexical} (chain : Chain i lexicals) :
    ∀ lexical ∈ lexicals, lexical.1 = .number ∨ lexical.1 = .string →
      readsAlone lexical := by
  induction chain with
  | nil => simp
  | cons reads nonempty _ _ ih =>
    intro lexical mem literal
    rcases mem_cons.mp mem with rfl | mem
    · exact (readsAlone_iff literal).mpr ⟨nonempty, reads.literal_alone nonempty literal⟩
    · exact ih lexical mem literal

lemma readsAlone_of_read {tree : Tree Lexical Op} (res : readExpression text = some tree) :
    ∀ atom ∈ tree.atoms, atom.1 = .number ∨ atom.1 = .string → readsAlone atom := by
  intro atom mem literal
  have clean : (tokenize text).2 = [] := by
    by_contra errors
    simp [readExpression, errors] at res
  rw [readExpression, clean] at res
  obtain ⟨toks, classified, readToks⟩ := bind_eq_some_iff.mp res
  have inToks := Tree.mem_flatten_of_mem_atoms mem
  rw [(read_sound readToks).1] at inToks
  obtain ⟨lexemes, read⟩ := lexes_exists [] text
  have chain := read.chain ((tokenize_eq read).2.mp clean)
  rw [← tokenize_significant read] at chain
  exact readsAlone_of_chain chain atom (mem_of_classifyAll classified inToks) literal

lemma render_of_renderElseif (rendered : renderElseif env indent node = some text) :
    ∃ text, render env indent .ifPart node = some text := by
  cases node with
  | ifExpression cond expr alt =>
    obtain ⟨condStr, renderCondition, more⟩ := bind_eq_some_iff.mp rendered
    obtain ⟨expStr, renderExpression, more⟩ := bind_eq_some_iff.mp more
    obtain ⟨alternativeStr, renderAlternative, -⟩ := bind_eq_some_iff.mp more
    simp [render, renderCondition, renderExpression, renderAlternative]
  | _ => simp [renderElseif] at rendered

lemma render_ifExpression (rendered : render env indent slot (.ifExpression cond expr alt) =
      some text) :
    (∃ text, render env indent .ifPart cond = some text) ∧
      (∃ text, render env indent .ifPart expr = some text) ∧
      ∃ text, render env indent .ifPart alt = some text := by
  obtain ⟨condStr, renderCondition, more⟩ := bind_eq_some_iff.mp rendered
  obtain ⟨expStr, renderExpression, more⟩ := bind_eq_some_iff.mp more
  obtain ⟨alternativeStr, renderAlternative, -⟩ := bind_eq_some_iff.mp more
  refine ⟨⟨_, renderCondition⟩, ⟨_, renderExpression⟩, ?_⟩
  split at renderAlternative
  · exact render_of_renderElseif renderAlternative
  · obtain ⟨inner, rendered, -⟩ := Option.map_eq_some_iff.mp renderAlternative
    exact ⟨inner, rendered⟩

lemma leavesRead_of_render (tree : OperatorTree env node) :
    ∀ {indent : Nat} {slot : Slot} {text : Bytes}, render env indent slot node = some text →
    (∀ atom ∈ (treeOf env node).atoms, atom.1 = .number ∨ atom.1 = .string →
      readsAlone atom) → leavesRead env node := by
  induction tree with
  | @atom node token atom =>
    intro indent slot text rendered alone
    rw [(written_atom atom .other).2] at alone
    cases node with
    | identifier name =>
      obtain ⟨valid, -⟩ : isValidIdentifier name ∧ name = text := by
        simpa [render] using rendered
      exact valid
    | temporaryIdentifier name id exactName =>
      obtain ⟨valid, -⟩ : isValidIdentifier (env.tempName id) ∧ env.tempName id = text := by
        simpa [render] using rendered
      exact valid
    | numberLiteral val =>
      obtain rfl := Option.some.inj atom
      exact alone _ (by simp [Tree.atoms]) (.inl rfl)
    | stringLiteral val =>
      obtain rfl := Option.some.inj atom
      exact alone _ (by simp [Tree.atoms]) (.inr rfl)
    | nilLiteral | trueLiteral | falseLiteral | varArgsLiteral => rfl
    | _ => simp [atomToken] at atom
  | parenthesized _ ih =>
    intro indent slot text rendered alone
    obtain ⟨inner, renderInner, -⟩ := bind_eq_some_iff.mp rendered
    exact ih renderInner alone
  | binary _ _ first second =>
    intro indent slot text rendered alone
    obtain ⟨leftStr, renderLeft, more⟩ := bind_eq_some_iff.mp rendered
    obtain ⟨rightStr, renderRight, -⟩ := bind_eq_some_iff.mp more
    simp only [treeOf, Tree.atoms, mem_append] at alone
    rw [leavesRead, first renderLeft fun atom mem => alone atom (.inl mem),
      second renderRight fun atom mem => alone atom (.inr mem)]
    rfl
  | unary _ ih =>
    intro indent slot text rendered alone
    obtain ⟨expStr, renderOperand, -⟩ := bind_eq_some_iff.mp rendered
    exact ih renderOperand alone
  | @ifElse cond expr alt _ _ _ first second third =>
    intro indent slot text rendered alone
    obtain ⟨⟨condStr, renderCondition⟩, ⟨expStr, renderExpression⟩, alternativeStr,
      renderAlternative⟩ := render_ifExpression rendered
    simp only [treeOf, Tree.atoms, mem_append] at alone
    rw [leavesRead, first renderCondition fun atom mem => alone atom (.inl (.inl mem)),
      second renderExpression fun atom mem => alone atom (.inl (.inr mem)),
      third renderAlternative fun atom mem => alone atom (.inr mem)]
    rfl

/-! ### Reading back -/

lemma readExpression_render (tree : OperatorTree env node) (leaves : leavesRead env node) :
    ∃ text, render env 0 .other node = some text ∧
      readExpression text = read luau (written env .other node).flatten := by
  obtain ⟨text, c, rendered, ⟨rest, lexicals, -, closed, classified, -⟩, -⟩ :=
    (render_spelled tree leaves 0).1 .other (by simp)
  obtain ⟨tokens, clean⟩ := (closed [] [] (by simp)).tokens
  refine ⟨text, rendered, ?_⟩
  simp [readExpression, clean, tokens, classified]

/-- An operator expression is read back from its text, up to parentheses, exactly when its
numbers and strings are texts of one token, its identifiers are valid, and no left operand
of `..` or `^` has the same operator and no if-expression stands to the left of `or`. -/
theorem readsBack_iff {env : Env} {node : Node} (tree : OperatorTree env node) :
    ReadsBack env node ↔ leavesRead env node = true ∧ associates node = true := by
  have grammatical := grammatical_written tree (fits_zero .other node)
  constructor
  · rintro ⟨text, rendered, readText⟩
    obtain ⟨other, readOther, same⟩ := Option.map_eq_some_iff.mp readText
    have alone := readsAlone_of_read readOther
    rw [← Tree.atoms_strip, same, Tree.atoms_strip] at alone
    have leaves := leavesRead_of_render tree rendered alone
    obtain ⟨text', rendered', readWritten⟩ := readExpression_render tree leaves
    obtain rfl := Option.some.inj (rendered.symm.trans rendered')
    rw [readWritten, ← strip_written tree .other, read_strip_iff] at readText
    exact ⟨leaves, grammatical.mp readText⟩
  · rintro ⟨leaves, associated⟩
    obtain ⟨text, rendered, readWritten⟩ := readExpression_render tree leaves
    refine ⟨text, rendered, ?_⟩
    rw [readWritten, ← strip_written tree .other, read_strip_iff]
    exact grammatical.mpr associated

def plainEnv : Env where
  tempName _ := str "_"
  jsNumber value := value
  isOne value := value == str "1"

theorem readsBack_subtraction : ReadsBack plainEnv (.binaryExpression (.identifier (str "a")) .sub
      (.binaryExpression (.identifier (str "b")) .sub (.identifier (str "c")))) :=
  (readsBack_iff (.binary (.atom (.name, str "a") rfl)
    (.binary (.atom (.name, str "b") rfl) (.atom (.name, str "c") rfl)))).mpr
    ⟨by decide, by decide⟩

/-- `(a ^ b) ^ c` is rendered as `a ^ b ^ c`, which is read as `a ^ (b ^ c)`; and
`(if a then b else c) or d` is rendered without its parentheses, too. -/
theorem readsBack_fails :
    let a := Node.identifier (str "a")
    let b := Node.identifier (str "b")
    let c := Node.identifier (str "c")
    let nested := Node.binaryExpression (.binaryExpression a .pow b) .pow c
    let choice := Node.binaryExpression (.ifExpression a b c) .or a
    render plainEnv 0 .other nested = some (str "a ^ b ^ c") ∧ readExpression (str "a ^ b ^ c") =
        some (treeOf plainEnv (.binaryExpression a .pow (.binaryExpression b .pow c))) ∧
      treeOf plainEnv (.binaryExpression a .pow (.binaryExpression b .pow c)) ≠
        (treeOf plainEnv nested).strip ∧
      render plainEnv 0 .other choice = some (str "if a then b else c or a") ∧
      readExpression (str "if a then b else c or a") =
        some (treeOf plainEnv (.ifExpression a b (.binaryExpression c .or a))) := by
  decide +kernel

end Rotor.Luau.Render
