import Rotor.Luau.Grammar.Operators
import Rotor.Luau.Render.Render

/-!
Operator expressions read back.

The renderer parenthesizes an operand by comparing its precedence with that of its
parent.  That is right for every pair of operators but two: a left operand of `..` or `^`
with the same operator, and an if-expression to the left of `or`.
-/

namespace Rotor.Luau.Render

open Luau.Lex Lib.Precedence Grammar

variable {node : Node} {env : Env} {strength : Nat}

/-! ### The trees -/

def atomToken (env : Env) : Node → Option Lexical
  | .identifier name => some (.name, name)
  | .temporaryIdentifier _ id _ => some (.name, env.tempName id)
  | .nilLiteral => some (.name, str "nil")
  | .trueLiteral => some (.name, str "true")
  | .falseLiteral => some (.name, str "false")
  | .numberLiteral value => some (.number, renderNumberLiteral env value)
  | .stringLiteral value => some (.string, renderStringLiteral .other value)
  | .varArgsLiteral => some (.symbol, str "...")
  | _ => none

/-- The expressions of operators, if-expressions, parentheses and atoms. -/
inductive OperatorTree (env : Env) : Node → Prop
  | atom {node : Node} (token : Lexical) : atomToken env node = some token → OperatorTree env node
  | parenthesized {expression : Node} : OperatorTree env expression →
      OperatorTree env (.parenthesizedExpression expression)
  | binary {left right : Node} {operator : BinaryOperator} : OperatorTree env left →
      OperatorTree env right → OperatorTree env (.binaryExpression left operator right)
  | unary {operator : UnaryOperator} {expression : Node} : OperatorTree env expression →
      OperatorTree env (.unaryExpression operator expression)
  | ifElse {condition expression alternative : Node} : OperatorTree env condition →
      OperatorTree env expression → OperatorTree env alternative →
      OperatorTree env (.ifExpression condition expression alternative)

def treeOf (env : Env) : Node → Tree Lexical Op
  | .parenthesizedExpression expression => .paren (treeOf env expression)
  | .binaryExpression left operator right =>
    .binary (treeOf env left) (.binary operator) (treeOf env right)
  | .unaryExpression operator expression =>
    .unary (.ofUnary operator) (treeOf env expression)
  | .ifExpression condition expression alternative =>
    .ifElse (treeOf env condition) (treeOf env expression) (treeOf env alternative)
  | node => .atom ((atomToken env node).getD (.invalid, []))

/-- The text of the expression is read as the expression, up to parentheses. -/
def ReadsBack (env : Env) (node : Node) : Prop :=
  ∃ text, render env 0 .other node = some text ∧
    (readExpression text).map Tree.strip = some (treeOf env node).strip

/-! ### When they are read back -/

def readsAlone (token : Lexical) : Bool :=
  (tokenize token.2).2.isEmpty && significantTokens token.2 == [token]

/-- Whether every atom is one: identifiers are valid, numbers and strings are texts of
one token. -/
def leavesRead (env : Env) : Node → Bool
  | .identifier name => isValidIdentifier name
  | .temporaryIdentifier _ id _ => isValidIdentifier (env.tempName id)
  | .numberLiteral value => readsAlone (.number, renderNumberLiteral env value)
  | .stringLiteral value => readsAlone (.string, renderStringLiteral .other value)
  | .parenthesizedExpression expression => leavesRead env expression
  | .binaryExpression left _ right => leavesRead env left && leavesRead env right
  | .unaryExpression _ expression => leavesRead env expression
  | .ifExpression condition expression alternative =>
    leavesRead env condition && leavesRead env expression && leavesRead env alternative
  | _ => true

/-- Whether a left operand is rendered without parentheses where it needs them. -/
def reassociates (operator : BinaryOperator) : Node → Bool
  | .binaryExpression _ inner _ => inner == operator && isRightAssociative operator
  | .ifExpression _ _ _ => operator == .or
  | _ => false

/-- Whether no left operand is. -/
def associates : Node → Bool
  | .parenthesizedExpression expression => associates expression
  | .binaryExpression left operator right =>
    associates left && associates right && !reassociates operator left
  | .unaryExpression _ expression => associates expression
  | .ifExpression condition expression alternative =>
    associates condition && associates expression && associates alternative
  | _ => true

/-! ### The tree that is written -/

def wrap (needed : Bool) (tree : Tree Lexical Op) : Tree Lexical Op :=
  if needed then .paren tree else tree

def written (env : Env) (slot : Slot) : Node → Tree Lexical Op
  | .parenthesizedExpression expression =>
    wrap (!(skipParentheses expression).isSimple) (written env .other expression)
  | .binaryExpression left operator right =>
    wrap (needsParentheses (binaryOperatorPrecedence operator) slot)
      (.binary (written env (.binaryLeft operator) left) (.binary operator)
        (written env (.binaryRight operator) right))
  | .unaryExpression operator expression =>
    wrap (needsParentheses (unaryOperatorPrecedence operator) slot)
      (.unary (.ofUnary operator) (written env (.unaryOperand operator) expression))
  | .ifExpression condition expression alternative =>
    wrap (needsParentheses ifExpressionPrecedence slot)
      (.ifElse (written env .ifPart condition) (written env .ifPart expression)
        (written env .ifPart alternative))
  | node => .atom ((atomToken env node).getD (.invalid, []))

lemma strip_wrap (needed : Bool) (tree : Tree Lexical Op) :
    (wrap needed tree).strip = tree.strip := by
  cases needed <;> rfl

lemma written_atom {token : Lexical} (atom : atomToken env node = some token) (slot : Slot) :
    written env slot node = .atom token ∧ treeOf env node = .atom token := by
  cases node <;> simp_all [atomToken, written, treeOf]

lemma strip_written (tree : OperatorTree env node) (slot : Slot) :
    (written env slot node).strip = (treeOf env node).strip := by
  induction tree generalizing slot with
  | atom token atom => rw [(written_atom atom slot).1, (written_atom atom slot).2]
  | parenthesized _ ih =>
    rw [written, treeOf, strip_wrap, ih]
    rfl
  | binary _ _ first second => simp [written, treeOf, strip_wrap, Tree.strip, first, second]
  | unary _ ih =>
    simp [written, treeOf, strip_wrap, Tree.strip, ih]
  | ifElse _ _ _ first second third =>
    simp [written, treeOf, strip_wrap, Tree.strip, first, second, third]

/-! ### Which written trees are grammatical -/

lemma precedence_eq_level (op : BinaryOperator) : binaryOperatorPrecedence op = level op := by
  cases op <;> rfl

lemma level_le_rightLimit (op : BinaryOperator) :
    rightLimit op ≤ level op ∧ level op ≤ rightLimit op + 1 := by
  cases op <;> decide

lemma level_ne_unaryLevel (op : BinaryOperator) : level op ≠ unaryLevel := by
  cases op <;> decide

/-- An operator that is at least as strong on the left stays outside, unless both are the
same operator and it associates to the right. -/
theorem level_le_rightLimit_iff {outer inner : BinaryOperator}
    (weaker : level outer ≤ level inner) :
    level outer ≤ rightLimit inner ↔ (inner == outer && isRightAssociative outer) = false := by
  cases associative : isRightAssociative inner with
  | false =>
    have limit : rightLimit inner = level inner := by simp [rightLimit, associative]
    have different : (inner == outer && isRightAssociative outer) = false := by
      by_cases same : inner = outer
      · simp [← same, associative]
      · simp [same]
    simp [limit, weaker, different]
  | true =>
    cases inner with
    | concat => cases outer <;> simp_all [level, rightLimit, isRightAssociative]
    | pow => cases outer <;> simp_all [level, rightLimit, isRightAssociative]
    | _ => simp [isRightAssociative] at associative

/-- Whether an operator of this strength stays outside a node written in a slot, as far
as the node alone decides. -/
def Outside (strength : Nat) (slot : Slot) : Node → Prop
  | .binaryExpression _ operator _ =>
    needsParentheses (binaryOperatorPrecedence operator) slot = true ∨
      strength ≤ rightLimit operator
  | .unaryExpression operator _ =>
    needsParentheses (unaryOperatorPrecedence operator) slot = true ∨ strength ≤ unaryLevel
  | .ifExpression _ _ _ => needsParentheses ifExpressionPrecedence slot = true
  | _ => True

lemma needsParentheses_left (nodePrec : Nat) (op : BinaryOperator) :
    needsParentheses nodePrec (.binaryLeft op) ↔ nodePrec < level op := by
  simp [needsParentheses, Slot.precedence, Slot.isBinaryRight, precedence_eq_level]

lemma needsParentheses_right (nodePrec : Nat) (op : BinaryOperator) :
    needsParentheses nodePrec (.binaryRight op) ↔ nodePrec ≤ level op := by
  simp [needsParentheses, Slot.precedence, Slot.isBinaryRight, precedence_eq_level,
    Nat.le_iff_lt_or_eq]

lemma needsParentheses_unary (nodePrec : Nat) (op : UnaryOperator) :
    needsParentheses nodePrec (.unaryOperand op) ↔ nodePrec < unaryLevel := by
  cases op <;>
    simp [needsParentheses, Slot.precedence, Slot.isBinaryRight, unaryOperatorPrecedence,
      unaryLevel]

lemma unaryPrecedence_eq_level (op : UnaryOperator) :
    unaryOperatorPrecedence op = unaryLevel := by
  cases op <;> rfl

lemma outside_right {op : BinaryOperator} (node : Node)
    (within : strength ≤ rightLimit op) : Outside strength (.binaryRight op) node := by
  have bound := (level_le_rightLimit op).1
  cases node with
  | binaryExpression left inner right =>
    have limits := (level_le_rightLimit inner).2
    rw [Outside, needsParentheses_right, precedence_eq_level]
    omega
  | unaryExpression inner expr =>
    rw [Outside, needsParentheses_right, unaryPrecedence_eq_level]
    omega
  | ifExpression cond expr alt =>
    rw [Outside, needsParentheses_right]
    exact level_pos op
  | _ => trivial

lemma outside_unary {op : UnaryOperator} (node : Node) (within : strength ≤ unaryLevel) :
    Outside strength (.unaryOperand op) node := by
  cases node with
  | binaryExpression left inner right =>
    have limits := (level_le_rightLimit inner).2
    have other := level_ne_unaryLevel inner
    rw [Outside, needsParentheses_unary, precedence_eq_level]
    omega
  | unaryExpression inner expr => exact .inr within
  | ifExpression cond expr alt =>
    rw [Outside, needsParentheses_unary]
    decide
  | _ => trivial

lemma outside_simple {slot : Slot} (simple : (skipParentheses node).isSimple) :
    Outside strength slot node := by
  cases node with
  | binaryExpression | unaryExpression | ifExpression =>
    simp [skipParentheses, Node.isSimple] at simple
  | _ => trivial

lemma closes_wrap {needed : Bool} {tree : Tree Lexical Op}
    (bare : needed = false → tree.Closes luau strength) :
    (wrap needed tree).Closes luau strength := by
  cases needed with
  | true => trivial
  | false => exact bare rfl

lemma closes_written (tree : OperatorTree env node) {slot : Slot}
    (outside : Outside strength slot node) :
    (written env slot node).Closes luau strength := by
  induction tree generalizing slot with
  | atom token atom =>
    rw [(written_atom atom slot).1]
    trivial
  | parenthesized _ ih =>
    apply closes_wrap
    intro simple
    exact ih (outside_simple (by simpa using simple))
  | binary _ _ _ second =>
    apply closes_wrap
    intro bare
    have within := outside.resolve_left (by simp [bare])
    exact ⟨within, second (outside_right _ within)⟩
  | unary _ ih =>
    apply closes_wrap
    intro bare
    have within := outside.resolve_left (by simp [bare])
    exact ⟨within, ih (outside_unary _ within)⟩
  | ifElse =>
    apply closes_wrap
    intro bare
    exact absurd (show _ = true from outside) (by simp [bare])

/-- A left operand is closed before its operator exactly when the text does not
reassociate it. -/
theorem closes_left_iff (tree : OperatorTree env node) (op : BinaryOperator) :
    (written env (.binaryLeft op) node).Closes luau (level op) ↔
      reassociates op node = false := by
  cases node with
  | binaryExpression left inner right =>
    by_cases weaker : level op ≤ level inner
    · have bare : needsParentheses (binaryOperatorPrecedence inner) (.binaryLeft op) =
          false := by
        rw [← Bool.not_eq_true, needsParentheses_left, precedence_eq_level]
        omega
      rw [reassociates, ← level_le_rightLimit_iff weaker]
      constructor
      · intro closes
        rw [written, bare] at closes
        exact closes.1
      · intro within
        exact closes_written tree (.inr within)
    · have needed : needsParentheses (binaryOperatorPrecedence inner) (.binaryLeft op) =
          true := by
        rw [needsParentheses_left, precedence_eq_level]
        omega
      have different : inner ≠ op := by
        rintro rfl
        exact weaker (Nat.le_refl _)
      simp [written, needed, wrap, Tree.Closes, reassociates, different]
  | ifExpression cond expr alt =>
    by_cases isOr : op = .or
    · subst isOr
      simp [written, wrap, needsParentheses, Slot.precedence, Slot.isBinaryRight,
        ifExpressionPrecedence, binaryOperatorPrecedence, Tree.Closes, reassociates, level]
    · have needed : needsParentheses ifExpressionPrecedence (.binaryLeft op) := by
        rw [needsParentheses_left]
        cases op <;> first | decide | exact absurd rfl isOr
      simp [written, needed, wrap, Tree.Closes, reassociates, isOr]
  | unaryExpression inner expr =>
    have outside : Outside (level op) (.binaryLeft op) (.unaryExpression inner expr) := by
      rw [Outside, needsParentheses_left, unaryPrecedence_eq_level]
      omega
    simp [closes_written tree outside, reassociates]
  | _ => exact iff_of_true (closes_written tree trivial) rfl

/-- Whether a node written in a slot is read under this limit, as far as its own operator
decides. -/
def Fits (limit : Nat) (slot : Slot) : Node → Prop
  | .binaryExpression _ operator _ =>
    needsParentheses (binaryOperatorPrecedence operator) slot = true ∨ limit < level operator
  | _ => True

lemma fits_zero (slot : Slot) (node : Node) : Fits 0 slot node := by
  cases node with
  | binaryExpression left op right => exact .inr (level_pos op)
  | _ => trivial

lemma fits_simple {limit : Nat} {slot : Slot} (simple : (skipParentheses node).isSimple) :
    Fits limit slot node := by
  cases node with
  | binaryExpression => simp [skipParentheses, Node.isSimple] at simple
  | _ => trivial

lemma fits_left {limit : Nat} {op : BinaryOperator} (above : limit < level op)
    (node : Node) : Fits limit (.binaryLeft op) node := by
  cases node with
  | binaryExpression left inner right =>
    rw [Fits, needsParentheses_left, precedence_eq_level]
    omega
  | _ => trivial

lemma fits_right (op : BinaryOperator) (node : Node) :
    Fits (rightLimit op) (.binaryRight op) node := by
  have bound := (level_le_rightLimit op).1
  cases node with
  | binaryExpression left inner right =>
    rw [Fits, needsParentheses_right, precedence_eq_level]
    omega
  | _ => trivial

lemma fits_unary (op : UnaryOperator) (node : Node) :
    Fits unaryLevel (.unaryOperand op) node := by
  cases node with
  | binaryExpression left inner right =>
    have other := level_ne_unaryLevel inner
    rw [Fits, needsParentheses_unary, precedence_eq_level]
    omega
  | _ => trivial

lemma associates_atom {token : Lexical} (atom : atomToken env node = some token) :
    associates node := by
  cases node <;> simp_all [atomToken, associates]

lemma isUnary_ofUnary (op : UnaryOperator) : luau.isUnary (.ofUnary op) := by
  cases op <;> rfl

lemma grammatical_written (tree : OperatorTree env node) :
    ∀ {limit : Nat} {slot : Slot}, Fits limit slot node →
      ((written env slot node).Grammatical luau limit ↔ associates node) := by
  induction tree with
  | atom token atom =>
    intro limit slot _
    rw [(written_atom atom slot).1, associates_atom atom]
    exact iff_of_true trivial rfl
  | @parenthesized expr _ ih =>
    intro limit slot _
    rw [written, associates]
    cases simple : (skipParentheses expr).isSimple with
    | true => exact ih (fits_simple simple)
    | false => exact ih (fits_zero .other expr)
  | @binary left right op treeLeft treeRight first second =>
    -- The operator is read under any limit below its level.
    have core {limit : Nat} (above : limit < level op) :
        (Tree.binary (written env (.binaryLeft op) left) (.binary op)
          (written env (.binaryRight op) right)).Grammatical luau limit ↔
          associates (.binaryExpression left op right) := by
      have isBinary : luau.isBinary (.binary op) := rfl
      have closes := closes_left_iff treeLeft op
      have limits : luau.left (.binary op) = level op ∧
          luau.right (.binary op) = rightLimit op := ⟨rfl, rfl⟩
      simp only [Tree.Grammatical, isBinary, limits, above, first (fits_left above left), closes,
        second (fits_right op right), associates, true_and, Bool.and_eq_true,
        Bool.not_eq_true']
      tauto
    intro limit slot fits
    rw [written]
    cases needed : needsParentheses (binaryOperatorPrecedence op) slot with
    | true => exact core (level_pos op)
    | false => exact core (fits.resolve_left (by simp [needed]))
  | @unary op expr _ ih =>
    intro limit slot _
    have core (limit : Nat) : (Tree.unary (.ofUnary op)
        (written env (.unaryOperand op) expr)).Grammatical luau limit ↔
        associates (.unaryExpression op expr) := by
      have operand := ih (fits_unary op expr)
      constructor
      · intro grammatical
        exact operand.mp grammatical.2
      · intro nothing
        exact ⟨isUnary_ofUnary op, operand.mpr nothing⟩
    rw [written]
    cases needsParentheses (unaryOperatorPrecedence op) slot with
    | true => exact core 0
    | false => exact core limit
  | @ifElse cond expr alt _ _ _ first second third =>
    intro limit slot _
    have core (limit : Nat) : (Tree.ifElse (written env .ifPart cond)
        (written env .ifPart expr) (written env .ifPart alt)).Grammatical luau
        limit ↔ associates (.ifExpression cond expr alt) := by
      simp [Tree.Grammatical, associates, first (fits_zero _ _), second (fits_zero _ _),
        third (fits_zero _ _), and_assoc]
    rw [written]
    cases needsParentheses ifExpressionPrecedence slot with
    | true => exact core 0
    | false => exact core limit

end Rotor.Luau.Render
