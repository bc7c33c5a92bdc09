import Rotor.Luau.Cst.Cursor

/-!
The recursive descent parser (`cst/parse.go`, `cst/expr.go`, `cst/types.go`).

The routines call each other in cycles.  Every cycle goes through one of four of
them, the rules below, so each routine is written over the parsers of the rules,
and `parseRule` closes the recursion with a bound on its depth.
-/

namespace Rotor.Luau.Cst

open Luau.Lex Lib Cursor

inductive Rule where
  | expr
  | binary (minPrec : Nat)
  | type
  | block
  deriving DecidableEq

section Routines

variable (rule : Rule → Parser Node)

def parseClause (p : Parser Node) : Parser Node := do
  let tok ← next
  return .clause tok (← p)

/-- The items and separators of a list whose first item has been parsed. -/
def parseItems (item : Parser Node) (first : Node) : Parser (List Node × List TokenRef) :=
  loopWhile (atSymbol ",") (fun (items, seps) => do
    let sep ← next
    return (items ++ [← item], seps ++ [sep])) ([first], [])

/-- Items up to a closing symbol or the first one without a separator, the loop of
`parseTypeArgs` and `parseGenericParams`. -/
def parseUntil (close : String) (item : Parser Node) : Parser (List Node × List TokenRef) :=
  loop (fun (items, seps) => do
    let c ← get
    if !c.atSymbol close && !c.atEnd then
      let items := items ++ [← item]
      if (← get).atSymbol "," then
        return .inl (items, seps ++ [← next])
      else return .inr (items, seps)
    else return .inr (items, seps)) ([], [])

/-- Fields up to the closing brace or the first one without a separator, the loop
of `parseTable` and `parseTableType`. -/
def parseFields (content : Parser Node) : Parser (List Node) :=
  loop (fun fields => do
    let c ← get
    if !c.atSymbol "\x7d" && !c.atEnd then
      let content ← content
      match ← onlyIf (fun c => c.atSymbol "," || c.atSymbol ";") next with
      | some sep => return .inl (fields ++ [.field content (some sep)])
      | none => return .inr (fields ++ [.field content none])
    else return .inr fields) []

def parseDots : Parser (List DotName) :=
  loopWhile (atSymbol ".") (fun dots => do
    let dot ← next
    return dots ++ [⟨dot, ← expectName⟩]) []

def parseExprList (stop : String) : Parser Node := do
  let first ← rule .expr
  let (items, seps) ← loop (fun (items, seps) => do
    if (← get).atSymbol "," then
      let seps := seps ++ [← next]
      let c ← get
      if c.atSymbol stop || c.atEnd then return .inr (items, seps)
      else return .inl (items ++ [← rule .expr], seps)
    else return .inr (items, seps)) ([first], [])
  return .exprList items seps

def parseElseifs (clause : TokenRef → Node → TokenRef → Node → Node) (value : Rule) :
    Parser (List Node) :=
  loopWhile (atKeyword "elseif") (fun clauses => do
    let elseifTok ← next
    let cond ← rule .expr
    let thenTok ← expectKeyword "then"
    return clauses ++ [clause elseifTok cond thenTok (← rule value)]) []

-- types

def parseGenericParam : Parser Node := do
  let name ← expectName
  let pack ← onlyIf (atSymbol "...") next
  let dflt ← onlyIf (atSymbol "=") (parseClause (rule .type))
  return .genericParam name pack dflt

def parseGenericParams : Parser Node := do
  let lt ← expectSymbol "<"
  let (params, seps) ← parseUntil ">" (parseGenericParam rule)
  return .genericParams lt params seps (← expectSymbol ">")

def parseTypeArgs : Parser Node := do
  let lt ← next
  let (items, seps) ← parseUntil ">" (rule .type)
  return .typeArgs lt items seps (← expectSymbol ">")

def parseTypeName : Parser Node := do
  let base ← next
  let dots ← parseDots
  let args ← onlyIf (atSymbol "<") (parseTypeArgs rule)
  return .typeName base dots args (← onlyIf (atSymbol "...") next)

def peek2IsSymbol (c : Cursor) (text : String) : Bool := isSymbol c.peek2.token text

def parseTypeParam : Parser Node := do
  let c ← get
  if c.atSymbol "..." then
    let dots ← next
    let type ← onlyIf (fun c => !c.atSymbol ")" && !c.atSymbol "," && !c.atEnd) (rule .type)
    return .varargTypeParam dots type
  else if c.atKind .name && peek2IsSymbol c ":" then
    let name ← next
    let colon ← next
    return .namedTypeParam name colon (← rule .type)
  else rule .type

/-- `parseParenType`.  The generics that `parseTypePrimary` sets on the result are
passed in. -/
def parseParenType (generics : Option Node) : Parser Node := do
  let lParen ← next
  let params ← onlyIf (fun c => !c.atSymbol ")" && !c.atEnd) do
    parseItems (parseTypeParam rule) (← parseTypeParam rule)
  let (params, paramSeps) := params.getD ([], [])
  let rParen ← expectSymbol ")"
  let ret ← onlyIf (atSymbol "->") (parseClause (rule .type))
  return .functionType generics lParen params paramSeps rParen ret

def parseTableTypeField : Parser Node := do
  let c ← get
  if c.atSymbol "[" then
    let lBracket ← next
    let key ← rule .type
    let rBracket ← expectSymbol "]"
    let colon ← expectSymbol ":"
    return .keyedTypeField lBracket key rBracket colon (← rule .type)
  else if c.atKind .name && peek2IsSymbol c ":" then
    let name ← next
    let colon ← next
    return .namedTypeField name colon (← rule .type)
  else rule .type

def parseTableType : Parser Node := do
  let openTok ← expectSymbol "\x7b"
  let fields ← parseFields (parseTableTypeField rule)
  return .tableType openTok fields (← expectSymbol "\x7d")

def parseTypeof : Parser Node := do
  let typeofTok ← next
  let lParen ← expectSymbol "("
  let expr ← rule .expr
  return .typeofType typeofTok lParen expr (← expectSymbol ")")

def parseTypePrimary : Parser Node := do
  let c ← get
  if c.atSymbol "(" then parseParenType rule none
  else if c.atSymbol "<" then do
    let generics ← parseGenericParams rule
    parseParenType rule (some generics)
  else if c.atSymbol "\x7b" then parseTableType rule
  else if c.atSymbol "..." then do
    let dots ← next
    let type ← onlyIf (fun c => !c.atSymbol ")" && !c.atSymbol "," && !c.atSymbol ">" &&
      !c.atEnd) (rule .type)
    return .variadicType dots type
  else if c.atKeyword "typeof" && peek2IsSymbol c "(" then parseTypeof rule
  else if c.atKeyword "nil" || c.atKeyword "true" || c.atKeyword "false" then
    Node.singletonType <$> next
  else if c.atKind .string then Node.singletonType <$> next
  else if c.atKind .name then parseTypeName rule
  else do
    errHere (str "expected a type")
    Node.singletonType <$> next

def parseTypePostfix : Parser Node := do
  let type ← parseTypePrimary rule
  loopWhile (atSymbol "?") (fun type => Node.typeOptional type <$> next) type

def atTypeOperator (c : Cursor) : Bool := c.atSymbol "|" || c.atSymbol "&"

def parseTypeLead : Parser Node := do
  if atTypeOperator (← get) then
    let op ← next
    Node.typeLead op <$> parseTypePostfix rule
  else parseTypePostfix rule

def parseType : Parser Node := do
  let first ← parseTypeLead rule
  loopWhile atTypeOperator (fun type => do
    let op ← next
    Node.typeBinary type op <$> parseTypePostfix rule) first

-- functions

def parseTypeClause : Parser (Option Node) := onlyIf (atSymbol ":") (parseClause (rule .type))

def parseParam : Parser Node := do
  if (← get).atSymbol "..." then
    let vararg ← next
    return .varargParam vararg (← parseTypeClause rule)
  else
    let name ← expectName
    return .nameParam name (← parseTypeClause rule)

def parseFuncBody : Parser Node := do
  let generics ← onlyIf (atSymbol "<") (parseGenericParams rule)
  let lParen ← expectSymbol "("
  let params ← onlyIf (fun c => !c.atSymbol ")" && !c.atEnd) do
    parseItems (parseParam rule) (← parseParam rule)
  let (params, paramSeps) := params.getD ([], [])
  let rParen ← expectSymbol ")"
  let retType ← parseTypeClause rule
  let body ← rule .block
  return .funcBody generics lParen params paramSeps rParen retType body (← expectKeyword "end")

-- expressions

/-- The precedence of a binary operator and whether it associates to the right. -/
def binPrec (tok : Token) : Option (Nat × Bool) :=
  let among (texts : List String) := texts.any fun text => tok.text == str text
  if tok.kind = .name then
    if among ["or"] then some (1, false)
    else if among ["and"] then some (2, false)
    else none
  else if tok.kind = .symbol then
    if among ["<", ">", "<=", ">=", "~=", "=="] then some (3, false)
    else if among [".."] then some (4, true)
    else if among ["+", "-"] then some (5, false)
    else if among ["*", "/", "//", "%"] then some (6, false)
    else if among ["^"] then some (8, true)
    else none
  else none

def unaryPrec : Nat := 7

def isUnaryOp (c : Cursor) : Bool := c.atSymbol "-" || c.atSymbol "#" || c.atKeyword "not"

def atInterp (c : Cursor) : Bool := c.atKind .interpSimple || c.atKind .interpStart

def parseHoles : Parser (List Node × List TokenRef) :=
  loop (fun (exprs, mids) => do
    if (← get).atEnd then return .inr (exprs, mids)
    else
      let expr ← rule .expr
      let mid ← next
      if mid.token.kind = .interpMid then return .inl (exprs ++ [expr], mids ++ [mid])
      else return .inr (exprs ++ [expr], mids ++ [mid])) ([], [])

def parseInterpString : Parser Node := do
  if (← get).atKind .interpSimple then Node.interpSimple <$> next
  else
    let start ← next
    let (exprs, mids) ← parseHoles rule
    return .interpString start exprs mids

def parseTableField : Parser Node := do
  let c ← get
  if c.atSymbol "[" then
    let lBracket ← next
    let key ← rule .expr
    let rBracket ← expectSymbol "]"
    let eq ← expectSymbol "="
    return .keyedField lBracket key rBracket eq (← rule .expr)
  else if c.atKind .name && peek2IsSymbol c "=" then
    let name ← next
    let eq ← next
    return .namedField name eq (← rule .expr)
  else rule .expr

def parseTable : Parser Node := do
  let openTok ← expectSymbol "\x7b"
  let fields ← parseFields (parseTableField rule)
  return .table openTok fields (← expectSymbol "\x7d")

def parseParen : Parser Node := do
  let openTok ← expectSymbol "("
  let inner ← rule .expr
  return .paren openTok inner (← expectSymbol ")")

def parseParenArgs : Parser Node := do
  let openTok ← expectSymbol "("
  let list ← onlyIf (fun c => !c.atSymbol ")" && !c.atEnd) (parseExprList rule ")")
  return .parenArgs openTok (list.getD (.exprList [] [])) (← expectSymbol ")")

def parseCallArgs : Parser Node := do
  let c ← get
  if c.atSymbol "(" then parseParenArgs rule
  else if c.atSymbol "\x7b" then parseTable rule
  else if c.atKind .string then Node.string <$> next
  else if atInterp c then parseInterpString rule
  else do
    errHere (str "expected call arguments")
    let openTok ← next
    return .parenArgs openTok (.exprList [] []) .zero

def parsePrefixAtom : Parser Node := do
  let c ← get
  if c.atSymbol "(" then parseParen rule
  else Node.name <$> next

def atCallString (c : Cursor) : Bool := c.atKind .string || atInterp c

/-- One suffix of a prefix expression, when there is one. -/
def parseSuffix (base : Node) : Parser (Node ⊕ Node) := do
  let c ← get
  if c.atSymbol "." then
    let dot ← next
    return .inl (.index base dot (← expectName))
  else if c.atSymbol "[" then
    let openTok ← next
    let key ← rule .expr
    return .inl (.indexExpr base openTok key (← expectSymbol "]"))
  else if c.atSymbol "(" || c.atSymbol "\x7b" || atCallString c then
    return .inl (.call base (← parseCallArgs rule))
  else if c.atSymbol ":" then
    let colon ← next
    let name ← expectName
    return .inl (.methodCall base colon name (← parseCallArgs rule))
  else return .inr base

def parseSuffixes (base : Node) : Parser Node := loop (parseSuffix rule) base

def parsePrefixExpr : Parser Node := do
  parseSuffixes rule (← parsePrefixAtom rule)

def parseValue : Parser Node := do
  let c ← get
  if c.atKeyword "nil" then Node.nil <$> next
  else if c.atKeyword "true" then Node.true <$> next
  else if c.atKeyword "false" then Node.false <$> next
  else if c.atKeyword "function" then do
    let func ← next
    Node.funcExpr func <$> parseFuncBody rule
  else if c.atSymbol "..." then Node.vararg <$> next
  else if c.atSymbol "\x7b" then parseTable rule
  else if c.atKind .number then Node.number <$> next
  else if c.atKind .string then Node.string <$> next
  else if atInterp c then parseInterpString rule
  else if c.atSymbol "(" || c.atKind .name then parsePrefixExpr rule
  else do
    errHere (str "expected an expression")
    Node.name <$> next

def parseAsExp : Parser Node := do
  loopWhile (atSymbol "::") (fun expr => do
    let op ← next
    Node.typeAssert expr op <$> rule .type) (← parseValue rule)

def parseUnary : Parser Node := do
  if isUnaryOp (← get) then
    let op ← next
    Node.unary op <$> rule (.binary unaryPrec)
  else parseAsExp rule

/-- The operator ahead and the least precedence of its right operand, when it binds
at least as tightly as asked. -/
def operatorAhead (minPrec : Nat) (c : Cursor) : Option Nat :=
  match binPrec c.peek.token with
  | some (prec, rightAssoc) =>
    if prec < minPrec then none else some (if rightAssoc then prec else prec + 1)
  | none => none

def parseBinary (minPrec : Nat) : Parser Node := do
  loop (fun left => do
    match operatorAhead minPrec (← get) with
    | some nextMin =>
      let op ← next
      return .inl (.binary left op (← rule (.binary nextMin)))
    | none => return .inr left) (← parseUnary rule)

def parseIfExpr : Parser Node := do
  let ifTok ← next
  let cond ← rule .expr
  let thenTok ← expectKeyword "then"
  let thenExpr ← rule .expr
  let elseifs ← parseElseifs rule .ifExprClause .expr
  let elseTok ← expectKeyword "else"
  return .ifExpr ifTok cond thenTok thenExpr elseifs elseTok (← rule .expr)

def parseExpr : Parser Node := do
  if (← get).atKeyword "if" then parseIfExpr rule else parseBinary rule 1

-- statements

def isBlockEnd (tok : Token) : Bool :=
  isKeyword tok "end" || isKeyword tok "else" || isKeyword tok "elseif" || isKeyword tok "until"

def atBlockEnd (c : Cursor) : Bool := isBlockEnd c.peek.token

def isCompoundAssignOp (tok : Token) : Bool :=
  tok.kind == .symbol && ["+=", "-=", "*=", "/=", "//=", "%=", "^=", "..="].any fun text =>
    tok.text == str text

def endsStatement (c : Cursor) : Bool := c.atEnd || c.atSymbol ";" || atBlockEnd c

def peek2Ends (c : Cursor) : Bool :=
  c.peek2.token.kind == .eof || isSymbol c.peek2.token ";" || isBlockEnd c.peek2.token

def parseBinding (allowAttrib : Bool) : Parser Node := do
  let name ← expectName
  let attr ← onlyIf (fun c => allowAttrib && c.atSymbol "<") do
    let lt ← next
    let attrName ← expectName
    return ⟨lt, attrName, ← expectSymbol ">"⟩
  return .binding name attr (← parseTypeClause rule)

def parseExprStatement : Parser Node := do
  let first ← parsePrefixExpr rule
  let c ← get
  if c.atSymbol "=" || isCompoundAssignOp c.peek.token || c.atSymbol "," then
    let (items, seps) ← parseItems (parsePrefixExpr rule) first
    let op ← next
    return .assignStmt (.exprList items seps) op (← parseExprList rule "")
  else return .callStmt first

def parseLocal : Parser Node := do
  let localTok ← next
  if (← get).atKeyword "function" then
    let func ← next
    let name ← expectName
    return .localFuncStmt localTok func name (← parseFuncBody rule)
  else
    let (names, nameSeps) ← parseItems (parseBinding rule true) (← parseBinding rule true)
    let values ← onlyIf (atSymbol "=") (parseClause (parseExprList rule ""))
    return .localStmt localTok names nameSeps values

def parseDo : Parser Node := do
  let doTok ← next
  let body ← rule .block
  return .doStmt doTok body (← expectKeyword "end")

def parseWhile : Parser Node := do
  let whileTok ← next
  let cond ← rule .expr
  let doTok ← expectKeyword "do"
  let body ← rule .block
  return .whileStmt whileTok cond doTok body (← expectKeyword "end")

def parseRepeat : Parser Node := do
  let repeatTok ← next
  let body ← rule .block
  let untilTok ← expectKeyword "until"
  return .repeatStmt repeatTok body untilTok (← rule .expr)

def parseNumericFor (forTok : TokenRef) (var : Node) : Parser Node := do
  let eq ← next
  let start ← rule .expr
  let comma1 ← expectSymbol ","
  let limit ← rule .expr
  let step ← onlyIf (atSymbol ",") (parseClause (rule .expr))
  let doTok ← expectKeyword "do"
  let body ← rule .block
  return .numericForStmt forTok var eq start comma1 limit step doTok body (← expectKeyword "end")

def parseGenericFor (forTok : TokenRef) (first : Node) : Parser Node := do
  let (names, nameSeps) ← parseItems (parseBinding rule false) first
  let inTok ← expectKeyword "in"
  let exprs ← parseExprList rule ""
  let doTok ← expectKeyword "do"
  let body ← rule .block
  return .genericForStmt forTok names nameSeps inTok exprs doTok body (← expectKeyword "end")

def parseFor : Parser Node := do
  let forTok ← next
  let first ← parseBinding rule false
  if (← get).atSymbol "=" then parseNumericFor rule forTok first
  else parseGenericFor rule forTok first

def parseIfStmt : Parser Node := do
  let ifTok ← next
  let cond ← rule .expr
  let thenTok ← expectKeyword "then"
  let body ← rule .block
  let elseifs ← parseElseifs rule .elseifClause .block
  let elseBody ← onlyIf (atKeyword "else") (parseClause (rule .block))
  return .ifStmt ifTok cond thenTok body elseifs elseBody (← expectKeyword "end")

def parseFuncStmt : Parser Node := do
  let func ← next
  let base ← expectName
  let dots ← parseDots
  let method ← onlyIf (atSymbol ":") do
    let colon ← next
    return ⟨colon, ← expectName⟩
  return .funcStmt func (.funcName base dots method) (← parseFuncBody rule)

def parseReturn : Parser Node := do
  let returnTok ← next
  let values ← onlyIf (fun c => !endsStatement c) (parseExprList rule "")
  return .returnStmt returnTok (values.getD (.exprList [] [])) (← onlyIf (atSymbol ";") next)

def parseBreak : Parser Node := do
  let breakTok ← next
  return .breakStmt breakTok (← onlyIf (atSymbol ";") next)

def parseContinue : Parser Node := do
  let continueTok ← next
  return .continueStmt continueTok (← onlyIf (atSymbol ";") next)

def parseTypeAlias : Parser Node := do
  let exportTok ← onlyIf (atKeyword "export") next
  let type ← next
  let name ← expectName
  let generics ← onlyIf (atSymbol "<") (parseGenericParams rule)
  let eq ← expectSymbol "="
  return .typeAliasStmt exportTok type name generics eq (← rule .type)

/-- One statement, and whether it ends its block. -/
def parseStatement : Parser (Node × Bool) := do
  let c ← get
  if c.atKeyword "local" then return (← parseLocal rule, false)
  else if c.atKeyword "do" then return (← parseDo rule, false)
  else if c.atKeyword "while" then return (← parseWhile rule, false)
  else if c.atKeyword "repeat" then return (← parseRepeat rule, false)
  else if c.atKeyword "for" then return (← parseFor rule, false)
  else if c.atKeyword "if" then return (← parseIfStmt rule, false)
  else if c.atKeyword "function" then return (← parseFuncStmt rule, false)
  else if c.atKeyword "return" then return (← parseReturn rule, true)
  else if c.atKeyword "break" then return (← parseBreak, true)
  else if c.atKeyword "continue" && peek2Ends c then return (← parseContinue, true)
  else if c.atKeyword "export" && isKeyword c.peek2.token "type" then
    return (← parseTypeAlias rule, false)
  else if c.atKeyword "type" && c.peek2.token.kind == .name then
    return (← parseTypeAlias rule, false)
  else return (← parseExprStatement rule, false)

def parseStmts : Parser (List Node) :=
  loop (fun stmts => do
    let c ← get
    if !c.atEnd && !atBlockEnd c then
      if c.atSymbol ";" then return .inl (stmts ++ [.semiStmt (← next)])
      else
        let (stmt, isLast) ← parseStatement rule
        if isLast then return .inr (stmts ++ [stmt])
        else return .inl (stmts ++ [stmt])
    else return .inr stmts) []

def parseBlock : Parser Node := Node.block <$> parseStmts rule

end Routines

/-- The parsers of the rules, nested at most so deep. -/
def parseRule : Nat → Rule → Parser Node
  | 0, _ => fun _ => none
  | depth + 1, .expr => parseExpr (parseRule depth)
  | depth + 1, .binary minPrec => parseBinary (parseRule depth) minPrec
  | depth + 1, .type => parseType (parseRule depth)
  | depth + 1, .block => parseBlock (parseRule depth)

/-- `Parse` on a cursor: a block, then every stray token as an error statement with
the block behind it, then the last reference. -/
def parseFile (rule : Rule → Parser Node) : Parser Node := do
  let stmts ← parseStmts rule
  let stmts ← loopWhile (fun c => !c.atEnd) (fun stmts => do
    let c ← get
    errHere (str "unexpected '" ++ c.peek.token.text ++ str "'")
    let stray ← next
    return stmts ++ [.errorStmt stray] ++ (← parseStmts rule)) stmts
  return .file (.block stmts) (← next)

end Rotor.Luau.Cst
