import Rotor.Bytes

/-!
The Luau syntax tree (`luau/nodes.go`) with its guards (`luau/guards.go`) and the
validation of names and numbers (`luau/validate.go`).

All node structs are constructors of one type, as the `Node` interface has it.  A field
that is a node or a list of nodes in the source is a list here: the renderers treat a
single node as a list of one.  The absent right side of a declaration is the empty list,
and the statement list of an `else` is the node `elseList`.
-/

namespace Rotor.Luau

inductive BinaryOperator where
  | or | and | lt | gt | le | ge | ne | eq | concat | add | sub | mul | div | floorDiv | mod
  | pow
  deriving DecidableEq

inductive UnaryOperator where
  | not | length | neg
  deriving DecidableEq

inductive AssignmentOperator where
  | assign | add | sub | mul | div | floorDiv | mod | pow | concat
  deriving DecidableEq

def BinaryOperator.text : BinaryOperator → String
  | .or => "or" | .and => "and" | .lt => "<" | .gt => ">" | .le => "<=" | .ge => ">="
  | .ne => "~=" | .eq => "==" | .concat => ".." | .add => "+" | .sub => "-" | .mul => "*"
  | .div => "/" | .floorDiv => "//" | .mod => "%" | .pow => "^"

def UnaryOperator.text : UnaryOperator → String
  | .not => "not" | .length => "#" | .neg => "-"

def AssignmentOperator.text : AssignmentOperator → String
  | .assign => "=" | .add => "+=" | .sub => "-=" | .mul => "*=" | .div => "/="
  | .floorDiv => "//=" | .mod => "%=" | .pow => "^=" | .concat => "..="

inductive Node where
  -- indexable expressions
  | identifier (name : Bytes)
  | temporaryIdentifier (name : Bytes) (id : Nat) (exactName : Bool)
  | computedIndexExpression (expression index : Node)
  | propertyAccessExpression (expression : Node) (name : Bytes)
  | callExpression (expression : Node) (args : List Node)
  | methodCallExpression (name : Bytes) (expression : Node) (args : List Node)
  | parenthesizedExpression (expression : Node)
  -- expressions
  | noneExpression
  | nilLiteral
  | falseLiteral
  | trueLiteral
  | numberLiteral (value : Bytes)
  | stringLiteral (value : Bytes)
  | varArgsLiteral
  | functionExpression (parameters : List Node) (hasDotDotDot : Bool) (statements : List Node)
  | binaryExpression (left : Node) (operator : BinaryOperator) (right : Node)
  | unaryExpression (operator : UnaryOperator) (expression : Node)
  | ifExpression (condition expression alternative : Node)
  | interpolatedString (parts : List Node)
  | array (members : List Node)
  | map (fields : List Node)
  | set (members : List Node)
  | mixedTable (fields : List Node)
  -- statements
  | assignment (left : List Node) (operator : AssignmentOperator) (right : List Node)
  | breakStatement
  | callStatement (expression : Node)
  | continueStatement
  | doStatement (statements : List Node)
  | whileStatement (condition : Node) (statements : List Node)
  | repeatStatement (condition : Node) (statements : List Node)
  | ifStatement (condition : Node) (statements : List Node) (elseBody : Node)
  | elseList (statements : List Node)
  | numericForStatement (id start limit : Node) (step : Option Node) (statements : List Node)
  | forStatement (ids : List Node) (expression : Node) (statements : List Node)
  | functionDeclaration (localize : Bool) (name : Node) (parameters : List Node)
      (hasDotDotDot : Bool) (statements : List Node)
  | methodDeclaration (expression : Node) (name : Bytes) (parameters : List Node)
      (hasDotDotDot : Bool) (statements : List Node)
  | variableDeclaration (left right : List Node)
  | returnStatement (expression : List Node)
  | comment (text : Bytes)
  -- fields
  | mapField (index value : Node)
  | interpolatedStringPart (text : Bytes)

namespace Node

def isIndexableExpression : Node → Bool
  | .identifier _ | .temporaryIdentifier _ _ _ | .computedIndexExpression _ _
  | .propertyAccessExpression _ _ | .callExpression _ _ | .methodCallExpression _ _ _
  | .parenthesizedExpression _ => true
  | _ => false

def isSimple : Node → Bool
  | .identifier _ | .temporaryIdentifier _ _ _ | .nilLiteral | .trueLiteral | .falseLiteral
  | .numberLiteral _ | .stringLiteral _ => true
  | _ => false

def isTable : Node → Bool
  | .array _ | .set _ | .map _ | .mixedTable _ => true
  | _ => false

def isFinalStatement : Node → Bool
  | .breakStatement | .returnStatement _ | .continueStatement => true
  | _ => false

def isComment : Node → Bool
  | .comment _ => true
  | _ => false

def isAnyIdentifier : Node → Bool
  | .identifier _ | .temporaryIdentifier _ _ _ => true
  | _ => false

def isIfExpression : Node → Bool
  | .ifExpression _ _ _ => true
  | _ => false

end Node

/-! ### Names and numbers -/

/-- `luauReservedKeywords`. -/
def reservedKeywords : List Bytes :=
  [str "and", str "break", str "do", str "else", str "elseif", str "end", str "false",
    str "for", str "function", str "if", str "in", str "local", str "nil", str "not", str "or",
    str "repeat", str "return", str "then", str "true", str "until", str "while"]

def isReservedKeyword (id : Bytes) : Bool := reservedKeywords.contains id

def isIdentifierStart (c : UInt8) : Bool := c == 95 || (65 ≤ c && c ≤ 90) || (97 ≤ c && c ≤ 122)

def isIdentifierPart (c : UInt8) : Bool := isIdentifierStart c || (48 ≤ c && c ≤ 57)

def isValidIdentifier : Bytes → Bool
  | [] => false
  | c :: rest => isIdentifierStart c && rest.all isIdentifierPart && !isReservedKeyword (c :: rest)

def isDecimalDigit (c : UInt8) : Bool := 48 ≤ c && c ≤ 57

def isBinaryDigit (c : UInt8) : Bool := c == 48 || c == 49

def isHexDigit (c : UInt8) : Bool := (48 ≤ c && c ≤ 57) || (97 ≤ c && c ≤ 102) || (65 ≤ c && c ≤ 70)

/-- `_*D[D_]*` for a class of digits, up to the end. -/
def matchBaseDigits (s : Bytes) (isDigit : UInt8 → Bool) : Bool :=
  match s.dropWhile (· == 95) with
  | [] => false
  | c :: rest => isDigit c && rest.all fun d => d == 95 || isDigit d

def skipDigits (s : Bytes) : Bytes := s.dropWhile fun c => isDecimalDigit c || c == 95

/-- `(?:[eE][+-]?_*\d[\d_]*)?`, up to the end. -/
def matchExponent : Bytes → Bool
  | [] => true
  | e :: rest =>
    let unsigned := match rest with
      | 43 :: more | 45 :: more => more
      | _ => rest
    (e == 101 || e == 69) &&
      match unsigned.dropWhile (· == 95) with
      | [] => false
      | c :: more => isDecimalDigit c && (skipDigits more).isEmpty

def isDecimalLiteral : Bytes → Bool
  | [] => false
  | c :: rest =>
    if isDecimalDigit c then
      match skipDigits rest with
      | 46 :: more => matchExponent (skipDigits more)
      | more => matchExponent more
    else if c = 46 then
      match rest with
      | d :: more => isDecimalDigit d && matchExponent (skipDigits more)
      | [] => false
    else false

def isValidNumberLiteral : Bytes → Bool
  | 48 :: rest =>
    match rest.dropWhile (· == 95) with
    | 98 :: digits | 66 :: digits => matchBaseDigits digits isBinaryDigit
    | 120 :: digits | 88 :: digits => matchBaseDigits digits isHexDigit
    | _ => isDecimalLiteral (48 :: rest)
  | text => isDecimalLiteral text

end Rotor.Luau
