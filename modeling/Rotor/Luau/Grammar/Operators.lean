import Rotor.Lib.Precedence
import Rotor.Luau.Ast
import Rotor.Luau.Lex.Significant

/-!
Luau's operator expressions: `or` below `and` below comparisons below `..` below `+ -`
below `* / // %` below unary operators below `^`.  Concatenation and `^` associate to the
right, the others to the left, and the `else` branch of an if-expression extends as far
to the right as possible.
-/

namespace Rotor.Luau.Grammar

open Luau.Lex Lib.Precedence

/-- An operator as it is written; a minus sign is the binary one. -/
inductive Op where
  | binary (operator : BinaryOperator)
  | not
  | length
  deriving DecidableEq

def Op.ofUnary : UnaryOperator → Op
  | .not => .not
  | .length => .length
  | .neg => .binary .sub

def level : BinaryOperator → Nat
  | .or => 1
  | .and => 2
  | .lt | .gt | .le | .ge | .ne | .eq => 3
  | .concat => 4
  | .add | .sub => 5
  | .mul | .div | .floorDiv | .mod => 6
  | .pow => 8

def unaryLevel : Nat := 7

def isRightAssociative : BinaryOperator → Bool
  | .concat | .pow => true
  | _ => false

/-- An operator of the same level is taken into the right operand when the operator
associates to the right. -/
def rightLimit (operator : BinaryOperator) : Nat :=
  if isRightAssociative operator then level operator - 1 else level operator

lemma level_pos (op : BinaryOperator) : 0 < level op := by
  cases op <;> decide

def luau : Grammar Op where
  isBinary
    | .binary _ => true
    | _ => false
  isUnary
    | .binary .sub | .not | .length => true
    | _ => false
  left
    | .binary operator => level operator
    | _ => 0
  right
    | .binary operator => rightLimit operator
    | _ => 0
  unary _ := unaryLevel
  left_pos
    | .binary operator, _ => level_pos operator

/-! ### From tokens -/

def operators : List BinaryOperator :=
  [.or, .and, .lt, .gt, .le, .ge, .ne, .eq, .concat, .add, .sub, .mul, .div, .floorDiv, .mod, .pow]

def binaryOf (text : Bytes) : Option BinaryOperator :=
  operators.find? fun operator => str operator.text == text

/-- A token as a token of the operator grammar; `elseif` is an `else` followed by an
`if`. -/
def classify (tok : Lexical) : Option (List (Tok Lexical Op)) :=
  match tok.1 with
  | .number | .string => some [.atom tok]
  | .symbol =>
    if tok.2 = str "(" then some [.lparen]
    else if tok.2 = str ")" then some [.rparen]
    else if tok.2 = str "..." then some [.atom tok]
    else if tok.2 = str "#" then some [.op .length]
    else (binaryOf tok.2).map fun operator => [.op (.binary operator)]
  | .name =>
    if tok.2 = str "if" then some [.ifTok]
    else if tok.2 = str "then" then some [.thenTok]
    else if tok.2 = str "else" then some [.elseTok]
    else if tok.2 = str "elseif" then some [.elseTok, .ifTok]
    else if tok.2 = str "not" then some [.op .not]
    else if tok.2 = str "and" then some [.op (.binary .and)]
    else if tok.2 = str "or" then some [.op (.binary .or)]
    else if tok.2 = str "nil" ∨ tok.2 = str "true" ∨ tok.2 = str "false" then some [.atom tok]
    else if isReservedKeyword tok.2 then none
    else some [.atom tok]
  | _ => none

def classifyAll : List Lexical → Option (List (Tok Lexical Op))
  | [] => some []
  | tok :: toks => do
    let first ← classify tok
    let rest ← classifyAll toks
    some (first ++ rest)

def readExpression (text : Bytes) : Option (Tree Lexical Op) := do
  if (tokenize text).2.isEmpty then
    let toks ← classifyAll (significantTokens text)
    read luau toks
  else none

lemma classifyAll_append {front back : List Lexical} {first second : List (Tok Lexical Op)}
    (classifiedFront : classifyAll front = some first)
    (classifiedBack : classifyAll back = some second) :
    classifyAll (front ++ back) = some (first ++ second) := by
  induction front generalizing first with
  | nil =>
    obtain rfl := Option.some.inj classifiedFront
    exact classifiedBack
  | cons tok toks ih =>
    obtain ⟨here, classified, more⟩ := Option.bind_eq_some_iff.mp classifiedFront
    obtain ⟨rest, classifiedRest, joined⟩ := Option.bind_eq_some_iff.mp more
    obtain rfl := Option.some.inj joined
    simp [classifyAll, classified, ih classifiedRest]

end Rotor.Luau.Grammar
