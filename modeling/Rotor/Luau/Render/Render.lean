import Rotor.Luau.Ast

/-!
The renderer (`luau/render`): from a syntax tree to its text.

A panic of the source is `none`.  The parent links that the constructors set are asked
for two things only, parentheses and the spaces around a bracketed string, so a node is
rendered with the `Slot` in which it hangs.  The names of temporaries and the
conversions through floating-point numbers are parameters: `getTempName` remembers the
name it gives to an id, so that the names of one rendering are a function of the ids.
-/

namespace Rotor.Luau.Render

structure Env where
  /-- `getTempName`. -/
  tempName : Nat → Bytes
  /-- The text of the number that a literal which is not valid Luau stands for. -/
  jsNumber : Bytes → Bytes
  /-- Whether a literal stands for the number one. -/
  isOne : Bytes → Bool

inductive Slot where
  | ifPart
  | unaryOperand (operator : UnaryOperator)
  | binaryLeft (operator : BinaryOperator)
  | binaryRight (operator : BinaryOperator)
  /-- The index of an index expression or a map field, or a member of a set. -/
  | bracket
  | other

/-! ### Parentheses (`parens.go`) -/

def ifExpressionPrecedence : Nat := 1

def unaryOperatorPrecedence : UnaryOperator → Nat
  | .not | .length | .neg => 7

def binaryOperatorPrecedence : BinaryOperator → Nat
  | .or => 1
  | .and => 2
  | .lt | .gt | .le | .ge | .ne | .eq => 3
  | .concat => 4
  | .add | .sub => 5
  | .mul | .div | .floorDiv | .mod => 6
  | .pow => 8

def Slot.precedence : Slot → Option Nat
  | .ifPart => some ifExpressionPrecedence
  | .unaryOperand operator => some (unaryOperatorPrecedence operator)
  | .binaryLeft operator | .binaryRight operator => some (binaryOperatorPrecedence operator)
  | .bracket | .other => none

def Slot.isBinaryRight : Slot → Bool
  | .binaryRight _ => true
  | _ => false

def needsParentheses (nodePrec : Nat) (slot : Slot) : Bool :=
  match slot.precedence with
  | some parentPrec => nodePrec < parentPrec || (nodePrec == parentPrec && slot.isBinaryRight)
  | none => false

def parenthesize (needed : Bool) (text : Bytes) : Bytes :=
  if needed then str "(" ++ text ++ str ")" else text

/-! ### Texts of leaves -/

def containsBytes (s sub : Bytes) : Bool := s.tails.any sub.isPrefixOf

/-- The level from which on the loop of `getSafeBracketEquals` stops. -/
def safeLevel (text : Bytes) : Nat → Nat → Nat
  | 0, level => level
  | fuel + 1, level =>
    let closing := 93 :: repeatByte 61 level
    if containsBytes text (closing ++ [93]) || closing.isSuffixOf text then
      safeLevel text fuel (level + 1)
    else level

/-- A closing bracket inside the text is no longer than the text. -/
def getSafeBracketEquals (text : Bytes) : Bytes :=
  repeatByte 61 (safeLevel text (text.length + 1) 0)

def renderStringLiteral (slot : Slot) (value : Bytes) : Bytes :=
  let isMultiline := value.contains 10
  if !isMultiline && !value.contains 34 then str "\"" ++ value ++ str "\""
  else if !isMultiline && !value.contains 39 then str "'" ++ value ++ str "'"
  else
    let eqStr := getSafeBracketEquals value
    let spacing := match slot with
      | .bracket => str " "
      | _ => []
    spacing ++ str "[" ++ eqStr ++ str "[" ++ value ++ str "]" ++ eqStr ++ str "]" ++ spacing

def renderNumberLiteral (env : Env) (value : Bytes) : Bytes :=
  if isValidNumberLiteral value then value else env.jsNumber value

/-- What remains behind `\u` with hexadecimal digits in braces. -/
def skipUnicodeEscape : Bytes → Option Bytes
  | 92 :: 117 :: 123 :: rest =>
    if (rest.takeWhile isHexDigit).isEmpty then none
    else match rest.dropWhile isHexDigit with
      | 125 :: after => some after
      | _ => none
  | _ => none

def escapeBraces : Nat → Bytes → Bytes
  | 0, text => text
  | _ + 1, [] => []
  | fuel + 1, c :: rest =>
    match skipUnicodeEscape (c :: rest) with
    | some after => (c :: rest).take ((c :: rest).length - after.length) ++ escapeBraces fuel after
    | none =>
      (if c = 123 ∨ c = 125 then [92, c] else [c]) ++ escapeBraces fuel rest

def escapeNewlines : Bytes → Bytes
  | [] => []
  | 13 :: 10 :: rest => 92 :: 13 :: 10 :: escapeNewlines rest
  | c :: rest => (if c = 10 ∨ c = 13 then [92, c] else [c]) ++ escapeNewlines rest

def renderInterpolatedStringPart (text : Bytes) : Bytes :=
  escapeNewlines (escapeBraces text.length text)

/-! ### Statement endings (`ending.go`) -/

def endsWithIndexableExpressionInner (node : Node) : Bool :=
  node.isIndexableExpression ||
    match node with
    | .binaryExpression _ _ right => endsWithIndexableExpressionInner right
    | .unaryExpression _ expr => endsWithIndexableExpressionInner expr
    | .ifExpression _ _ alternative => endsWithIndexableExpressionInner alternative
    | _ => false

def endsWithIndexableExpression : Node → Bool
  | .callStatement _ => true
  | .variableDeclaration left right =>
    ((if right.isEmpty then left else right).getLast?).any endsWithIndexableExpressionInner
  | .assignment _ _ right => right.getLast?.any endsWithIndexableExpressionInner
  | _ => false

def startsWithParenthesisInner : Node → Bool
  | .parenthesizedExpression _ => true
  | .callExpression expr _ | .methodCallExpression _ expr _
  | .propertyAccessExpression expr _ | .computedIndexExpression expr _ =>
    startsWithParenthesisInner expr
  | _ => false

def startsWithParenthesis : Node → Bool
  | .callStatement (.callExpression expr _)
  | .callStatement (.methodCallExpression _ expr _) => startsWithParenthesisInner expr
  | .assignment left _ _ => left.head?.any startsWithParenthesisInner
  | _ => false

def nextNonComment (rest : List Node) : Option Node := rest.find? fun node => !node.isComment

def getEnding (node : Node) (next : Option Node) : Bytes :=
  if next.any fun next => endsWithIndexableExpression node && startsWithParenthesis next then
    str ";"
  else []

/-! ### Lines (`state.go`) -/

def indented (indent : Nat) (text : Bytes) : Bytes := repeatByte 9 indent ++ text

def line (indent : Nat) (text : Bytes) : Bytes := indented indent text ++ str "\n"

def lineWithEnd (indent : Nat) (text : Bytes) (node : Node) (next : Option Node) : Bytes :=
  indented indent text ++ getEnding node next ++ str "\n"

def join (separator : Bytes) : List Bytes → Bytes
  | [] => []
  | [text] => text
  | text :: texts => text ++ separator ++ join separator texts

def commaSeparated (texts : List Bytes) : Bytes := join (str ", ") texts

/-- `renderExprOrList`, which panics on an empty list. -/
def nonemptyList (texts : List Bytes) : Option Bytes :=
  if texts.isEmpty then none else some (commaSeparated texts)

/-! ### Comments -/

def normalizeNewlines : Bytes → Bytes
  | [] => []
  | 13 :: 10 :: rest => 10 :: normalizeNewlines rest
  | c :: rest => (if c = 13 then 10 else c) :: normalizeNewlines rest

def splitLines : Bytes → List Bytes
  | [] => [[]]
  | c :: rest =>
    if c = 10 then [] :: splitLines rest
    else match splitLines rest with
      | [] => [[c]]
      | first :: more => (c :: first) :: more

def renderComment (indent : Nat) (source : Bytes) : Bytes :=
  let text := normalizeNewlines source
  let lines := splitLines text
  if 1 < lines.length then
    let eqStr := getSafeBracketEquals text
    line indent (str "--[" ++ eqStr ++ str "[") ++
      (lines.map (line (indent + 1))).flatten ++
      line indent (str "]" ++ eqStr ++ str "]")
  else line indent (str "--" ++ text)

/-! ### The dispatch -/

def fieldName : Node → Option Bytes
  | .stringLiteral value => if isValidIdentifier value then some value else none
  | _ => none

def skipParentheses : Node → Node
  | .parenthesizedExpression expr => skipParentheses expr
  | node => node

def unaryNeedsSpace (operator : UnaryOperator) (expr : Node) : Bool :=
  match operator, expr with
  | .not, _ => true
  | _, .unaryExpression .neg _ => true
  | _, _ => false

def renderParameters (parameters : List Bytes) (hasDotDotDot : Bool) : Bytes :=
  commaSeparated (parameters ++ if hasDotDotDot then [str "..."] else [])

def renderTable (indent : Nat) (fields : List Bytes) : Bytes :=
  if fields.isEmpty then str "\x7b\x7d"
  else str "\x7b\n" ++ (fields.map (line (indent + 1))).flatten ++ indented indent (str "\x7d")

def renderWith (keyword : Bytes) (text : Option Bytes) : Option Bytes := text.map (keyword ++ ·)

def renderHole (isTable : Bool) (text : Bytes) : Bytes :=
  str "\x7b" ++ parenthesize isTable text ++ str "\x7d"

mutual

def render (env : Env) (indent : Nat) (slot : Slot) (node : Node) : Option Bytes :=
  match node with
  | .identifier name => if isValidIdentifier name then some name else none
  | .temporaryIdentifier _ id _ =>
    if isValidIdentifier (env.tempName id) then some (env.tempName id) else none
  | .computedIndexExpression expr index => do
    let expStr ← render env indent .other expr
    let indexStr ← render env indent .bracket index
    match fieldName index with
    | some name => some (expStr ++ str "." ++ name)
    | none => some (expStr ++ str "[" ++ indexStr ++ str "]")
  | .propertyAccessExpression expr name => do
    let expStr ← render env indent .other expr
    if isValidIdentifier name then some (expStr ++ str "." ++ name)
    else some (expStr ++ str "[\"" ++ name ++ str "\"]")
  | .callExpression expr args => do
    let expStr ← render env indent .other expr
    let argStrs ← renderEach env indent .other args
    some (expStr ++ str "(" ++ commaSeparated argStrs ++ str ")")
  | .methodCallExpression name expr args =>
    if isValidIdentifier name then do
      let expStr ← render env indent .other expr
      let argStrs ← renderEach env indent .other args
      some (expStr ++ str ":" ++ name ++ str "(" ++ commaSeparated argStrs ++ str ")")
    else none
  | .parenthesizedExpression expr => do
    let inner ← render env indent .other expr
    some (parenthesize (!(skipParentheses expr).isSimple) inner)
  | .nilLiteral => some (str "nil")
  | .falseLiteral => some (str "false")
  | .trueLiteral => some (str "true")
  | .numberLiteral value => some (renderNumberLiteral env value)
  | .stringLiteral value => some (renderStringLiteral slot value)
  | .varArgsLiteral => some (str "...")
  | .functionExpression parameters hasDotDotDot stmts => do
    let parameterStrs ← renderEach env indent .other parameters
    let bodyStr ← renderStatements env (indent + 1) false stmts
    let head := str "function(" ++ renderParameters parameterStrs hasDotDotDot
    if stmts.isEmpty then some (head ++ str ") end")
    else some (head ++ str ")\n" ++ bodyStr ++ indented indent (str "end"))
  | .binaryExpression left operator right => do
    let leftStr ← render env indent (.binaryLeft operator) left
    let rightStr ← render env indent (.binaryRight operator) right
    some (parenthesize (needsParentheses (binaryOperatorPrecedence operator) slot)
      (leftStr ++ str " " ++ str operator.text ++ str " " ++ rightStr))
  | .unaryExpression operator expr => do
    let expStr ← render env indent (.unaryOperand operator) expr
    let opStr := str operator.text ++ if unaryNeedsSpace operator expr then str " " else []
    some (parenthesize (needsParentheses (unaryOperatorPrecedence operator) slot) (opStr ++ expStr))
  | .ifExpression cond expr alternative => do
    let conditionStr ← render env indent .ifPart cond
    let expStr ← render env indent .ifPart expr
    let alternativeStr ←
      (if alternative.isIfExpression then renderElseif env indent alternative
      else renderWith (str "else ") (render env indent .ifPart alternative))
    some (parenthesize (needsParentheses ifExpressionPrecedence slot)
      (str "if " ++ conditionStr ++ str " then " ++ expStr ++ str " " ++ alternativeStr))
  | .interpolatedString parts => do
    let partStrs ← renderParts env indent parts
    some (str "`" ++ partStrs.flatten ++ str "`")
  | .array members => do
    let memberStrs ← renderEach env indent .other members
    if members.isEmpty then some (str "\x7b\x7d")
    else some (str "\x7b " ++ commaSeparated memberStrs ++ str " \x7d")
  | .map fields | .mixedTable fields => do
    let fieldStrs ← renderEach env (indent + 1) .other fields
    some (renderTable indent (fieldStrs.map fun field => field ++ str ","))
  | .set members => do
    let memberStrs ← renderEach env (indent + 1) .bracket members
    some (renderTable indent (memberStrs.map fun member => str "[" ++ member ++ str "] = true,"))
  | .mapField index value => do
    let valueStr ← render env indent .other value
    let indexStr ← render env indent .bracket index
    match fieldName index with
    | some name => some (name ++ str " = " ++ valueStr)
    | none => some (str "[" ++ indexStr ++ str "] = " ++ valueStr)
  | .interpolatedStringPart text => some (renderInterpolatedStringPart text)
  | _ => none

def renderEach (env : Env) (indent : Nat) (slot : Slot) : List Node → Option (List Bytes)
  | [] => some []
  | node :: nodes => do
    let text ← render env indent slot node
    let texts ← renderEach env indent slot nodes
    some (text :: texts)

/-- The loop of `renderIfExpression` over the alternatives that are if-expressions. -/
def renderElseif (env : Env) (indent : Nat) (node : Node) : Option Bytes :=
  match node with
  | .ifExpression cond expr alternative => do
    let conditionStr ← render env indent .ifPart cond
    let expStr ← render env indent .ifPart expr
    let alternativeStr ←
      (if alternative.isIfExpression then renderElseif env indent alternative
      else renderWith (str "else ") (render env indent .ifPart alternative))
    some (str "elseif " ++ conditionStr ++ str " then " ++ expStr ++ str " " ++ alternativeStr)
  | _ => none

def renderParts (env : Env) (indent : Nat) : List Node → Option (List Bytes)
  | [] => some []
  | part :: parts => do
    let text ← render env indent .other part
    let texts ← renderParts env indent parts
    match part with
    | .interpolatedStringPart _ => some (text :: texts)
    | _ => some (renderHole part.isTable text :: texts)

/-- `Render` of a statement, before the next statement that is no comment. -/
def renderStatement (env : Env) (indent : Nat) (next : Option Node) (node : Node) : Option Bytes :=
  match node with
  | .assignment left operator right => do
    let leftStr ← nonemptyList (← renderEach env indent .other left)
    let rightStr ← nonemptyList (← renderEach env indent .other right)
    some (lineWithEnd indent (leftStr ++ str " " ++ str operator.text ++ str " " ++ rightStr)
      node next)
  | .breakStatement => some (line indent (str "break"))
  | .callStatement expr => do
    let text ← render env indent .other expr
    some (lineWithEnd indent text node next)
  | .continueStatement => some (line indent (str "continue"))
  | .doStatement stmts => do
    let bodyStr ← renderStatements env (indent + 1) false stmts
    some (line indent (str "do") ++ bodyStr ++ line indent (str "end"))
  | .whileStatement cond stmts => do
    let conditionStr ← render env indent .other cond
    let bodyStr ← renderStatements env (indent + 1) false stmts
    some (line indent (str "while " ++ conditionStr ++ str " do") ++ bodyStr ++
      line indent (str "end"))
  | .repeatStatement cond stmts => do
    let bodyStr ← renderStatements env (indent + 1) false stmts
    let conditionStr ← render env indent .other cond
    some (line indent (str "repeat") ++ bodyStr ++ line indent (str "until " ++ conditionStr))
  | .ifStatement cond stmts elseBody => do
    let conditionStr ← render env indent .other cond
    let bodyStr ← renderStatements env (indent + 1) false stmts
    let elseStr ← renderElse env indent elseBody
    some (line indent (str "if " ++ conditionStr ++ str " then") ++ bodyStr ++ elseStr ++
      line indent (str "end"))
  | .numericForStatement id start limit step stmts => do
    let idStr ← render env indent .other id
    let startStr ← render env indent .other start
    let limitStr ← render env indent .other limit
    let stepStr ← renderStep env indent step
    let bodyStr ← renderStatements env (indent + 1) false stmts
    some (line indent (str "for " ++ idStr ++ str " = " ++ startStr ++ str ", " ++ limitStr ++
      stepStr ++ str " do") ++ bodyStr ++ line indent (str "end"))
  | .forStatement ids expr stmts => do
    let idStrs ← renderEach env indent .other ids
    let expressionStr ← render env indent .other expr
    let bodyStr ← renderStatements env (indent + 1) false stmts
    let idsStr := commaSeparated idStrs
    some (line indent (str "for " ++ (if idsStr.isEmpty then str "_" else idsStr) ++
      str " in " ++ expressionStr ++ str " do") ++ bodyStr ++ line indent (str "end"))
  | .functionDeclaration localize name parameters hasDotDotDot stmts =>
    if localize && !name.isAnyIdentifier then none
    else do
      let nameStr ← render env indent .other name
      let parameterStrs ← renderEach env indent .other parameters
      let bodyStr ← renderStatements env (indent + 1) false stmts
      some (line indent ((if localize then str "local " else []) ++ str "function " ++
        nameStr ++ str "(" ++ renderParameters parameterStrs hasDotDotDot ++ str ")") ++
        bodyStr ++ line indent (str "end"))
  | .methodDeclaration expr name parameters hasDotDotDot stmts => do
    let expressionStr ← render env indent .other expr
    let parameterStrs ← renderEach env indent .other parameters
    let bodyStr ← renderStatements env (indent + 1) false stmts
    some (line indent (str "function " ++ expressionStr ++ str ":" ++ name ++ str "(" ++
      renderParameters parameterStrs hasDotDotDot ++ str ")") ++
      bodyStr ++ line indent (str "end"))
  | .variableDeclaration left right => do
    let leftStr ← nonemptyList (← renderEach env indent .other left)
    let rightStrs ← renderEach env indent .other right
    if right.isEmpty then some (lineWithEnd indent (str "local " ++ leftStr) node next)
    else some (lineWithEnd indent
      (str "local " ++ leftStr ++ str " = " ++ commaSeparated rightStrs) node next)
  | .returnStatement expr => do
    let expressionStrs ← renderEach env indent .other expr
    some (line indent (str "return " ++ commaSeparated expressionStrs))
  | .comment text => some (renderComment indent text)
  | _ => none

def renderStep (env : Env) (indent : Nat) : Option Node → Option Bytes
  | none => some []
  | some step => do
    let text ← render env indent .other step
    match step with
    | .numberLiteral value => some (if env.isOne value then [] else str ", " ++ text)
    | _ => some (str ", " ++ text)

/-- The loop of `renderIfStatement` over the branches behind the first one. -/
def renderElse (env : Env) (indent : Nat) (node : Node) : Option Bytes :=
  match node with
  | .ifStatement cond stmts elseBody => do
    let conditionStr ← render env indent .other cond
    let bodyStr ← renderStatements env (indent + 1) false stmts
    let elseStr ← renderElse env indent elseBody
    some (line indent (str "elseif " ++ conditionStr ++ str " then") ++ bodyStr ++ elseStr)
  | .elseList stmts => do
    let bodyStr ← renderStatements env (indent + 1) false stmts
    if stmts.isEmpty then some []
    else some (line indent (str "else") ++ bodyStr)
  | _ => some []

/-- `renderStatements`; only comments may follow a final statement. -/
def renderStatements (env : Env) (indent : Nat) (hasFinalStatement : Bool) :
    List Node → Option Bytes
  | [] => some []
  | node :: nodes =>
    if hasFinalStatement && !node.isComment then none
    else do
      let text ← renderStatement env indent (nextNonComment nodes) node
      let rest ← renderStatements env indent (hasFinalStatement || node.isFinalStatement) nodes
      some (text ++ rest)

end

end Rotor.Luau.Render
