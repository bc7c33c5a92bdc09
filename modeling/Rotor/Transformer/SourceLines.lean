import Rotor.Luau.Render.LineBreaks

/-!
The generated lines of a source map (`sourcemap.go`).

The mappings are collected in a second walk over the statements.  It renders every statement on its
own to count its lines, takes each nested list to begin one line below its statement, and looks for
the text of a function argument in the text of its call.  A statement is named by its path: its
index in the list, then the branch of the statement and the index there, and so on.
-/

namespace Rotor.Transformer.SourceLines

open Luau Luau.Render

abbrev Path := List Nat

structure SourcePosition where
  line : Nat
  column : Nat

/-- `sourcePositionMap` and `sourceEndPositionMap`. -/
structure Positions where
  start : Path → Option SourcePosition
  stop : Path → Option SourcePosition

structure Mapping where
  path : Path
  isEnd : Bool
  generatedLine : Nat
  source : SourcePosition

/-- What the renderer takes from elsewhere: the numbers, the names that `solveTempIDs` finds for a
statement list, and those that a node gets without it. -/
structure Renderer where
  env : Env
  solveTempIDs : List Node → Nat → Bytes
  unsolved : Node → Nat → Bytes

namespace Renderer

variable (renderer : Renderer)

def solved (stmts : List Node) : Env :=
  { renderer.env with tempName := renderer.solveTempIDs stmts }

def renderAST (stmts : List Node) : Option Bytes :=
  renderStatements (renderer.solved stmts) 0 false stmts

def renderSourceMapStatement (stmt : Node) : Option Bytes := renderer.renderAST [stmt]

/-- `Render` of a function in a new state. -/
def renderFunction (function : Node) : Option Bytes :=
  render { renderer.env with tempName := renderer.unsolved function } 0 .other function

def statementListLineCount : List Node → Option Nat
  | [] => some 0
  | node :: nodes => do
    let rendered ← renderer.renderSourceMapStatement node
    let rest ← statementListLineCount nodes
    some (breaksOf rendered + rest)

end Renderer

def cutBefore (separator : Bytes) : Bytes → Option Bytes
  | [] => if separator.isEmpty then some [] else none
  | c :: rest =>
    if separator.isPrefixOf (c :: rest) then some []
    else (cutBefore separator rest).map (c :: ·)

/-! ### The walk -/

section Walk

variable (renderer : Renderer) (positions : Positions)

def addStartMapping (path : Path) (line : Nat) : List Mapping :=
  (positions.start path).toList.map fun source => ⟨path, false, line, source⟩

def addEndMapping (path : Path) (line : Nat) : List Mapping :=
  ((positions.stop path).or (positions.start path)).toList.map fun source =>
    ⟨path, true, line, source⟩

def addBlockEnd (path : Path) (stmt : Node) (startLine : Nat) : Option (List Mapping) := do
  let rendered ← renderer.renderSourceMapStatement stmt
  let lineCount := breaksOf rendered
  some (if 0 < lineCount then addEndMapping positions path (startLine + lineCount - 1) else [])

mutual

def addStatementListMappings (path : Path) (index : Nat) (line : Nat) :
    List Node → Option (List Mapping)
  | [] => some []
  | stmt :: stmts => do
    let rendered ← renderer.renderSourceMapStatement stmt
    let inner ← addInnerMappings (path ++ [index]) line stmt
    let rest ← addStatementListMappings path (index + 1) (line + breaksOf rendered) stmts
    some (addStartMapping positions (path ++ [index]) line ++ inner ++ rest)

def addInnerMappings (path : Path) (startLine : Nat) (stmt : Node) : Option (List Mapping) :=
  match stmt with
  | .doStatement stmts | .whileStatement _ stmts
  | .numericForStatement _ _ _ _ stmts | .forStatement _ _ stmts
  | .functionDeclaration _ _ _ _ stmts | .methodDeclaration _ _ _ _ stmts => do
    let block ← addStatementListMappings (path ++ [0]) 0 (startLine + 1) stmts
    let last ← addBlockEnd renderer positions path stmt startLine
    some (block ++ last)
  | .repeatStatement _ stmts =>
    addStatementListMappings (path ++ [0]) 0 (startLine + 1) stmts
  | .ifStatement _ stmts elseBody => do
    let block ← addStatementListMappings (path ++ [0]) 0 (startLine + 1) stmts
    let bodyLines ← renderer.statementListLineCount stmts
    let branches ← addElseMappings path (startLine + bodyLines) elseBody
    let last ← addBlockEnd renderer positions path stmt startLine
    some (block ++ branches ++ last)
  | .callStatement expression => addCallMappings path startLine stmt expression
  | _ => some []

/-- The branches of `addIfMappings` behind the first one. -/
def addElseMappings (path : Path) (line : Nat) (elseBody : Node) : Option (List Mapping) :=
  match elseBody with
  | .elseList stmts =>
    if stmts.isEmpty then some []
    else addStatementListMappings (path ++ [1]) 0 (line + 2) stmts
  | .ifStatement _ stmts elseBody => do
    let elseIf := path ++ [1, 0]
    let block ← addStatementListMappings (elseIf ++ [0]) 0 (line + 2) stmts
    let bodyLines ← renderer.statementListLineCount stmts
    let branches ← addElseMappings elseIf (line + 1 + bodyLines) elseBody
    some (addStartMapping positions elseIf (line + 1) ++ block ++ branches)
  | _ => some []

def addCallMappings (path : Path) (startLine : Nat) (stmt : Node) (expression : Node) :
    Option (List Mapping) :=
  match expression with
  | .callExpression _ args => do
    let fullRendered ← renderer.renderSourceMapStatement stmt
    addArgumentMappings path startLine fullRendered 0 args
  | _ => some []

def addArgumentMappings (path : Path) (startLine : Nat) (fullRendered : Bytes) (branch : Nat) :
    List Node → Option (List Mapping)
  | [] => some []
  | argument :: args => do
    let first ← addFunctionMappings path startLine fullRendered branch argument
    let rest ← addArgumentMappings path startLine fullRendered (branch + 1) args
    some (first ++ rest)

def addFunctionMappings (path : Path) (startLine : Nat) (fullRendered : Bytes) (branch : Nat)
    (argument : Node) : Option (List Mapping) :=
  match argument with
  | .functionExpression _ _ stmts => do
    let functionRendered ← renderer.renderFunction argument
    match cutBefore functionRendered fullRendered with
    | none => some []
    | some beforeFunction =>
      let linesBeforeFunction := breaksOf beforeFunction
      let block ← addStatementListMappings (path ++ [branch]) 0
        (startLine + linesBeforeFunction + 1) stmts
      let functionLines := breaksOf functionRendered
      some (block ++ if 0 < functionLines then
        addEndMapping positions path (startLine + linesBeforeFunction + functionLines) else [])
  | _ => some []

end

def renderSourceMap (stmts : List Node) : Option (List Mapping) :=
  addStatementListMappings renderer positions [] 0 0 stmts

end Walk

/-! ### Where statements stand -/

/-- A nested list in the text of a statement: the text in front of it, and how it is rendered.
The `if` statement behind an `else` is a list of its own, which continues with `elseif`. -/
structure Nested where
  before : Bytes
  indent : Nat
  elseIf : Bool
  statements : List Node

def ifKeyword (elseIf : Bool) : Bytes := if elseIf then str "elseif " else str "if "

def argumentsText (texts : List Bytes) : Bytes := (texts.map fun text => text ++ str ", ").flatten

def nested (env : Env) (indent : Nat) (elseIf : Bool) (branch : Nat) : Node → Option Nested
  | .doStatement stmts =>
    if branch = 0 then some ⟨line indent (str "do"), indent + 1, false, stmts⟩ else none
  | .whileStatement condition stmts =>
    if branch = 0 then do
      let conditionStr ← render env indent .other condition
      some ⟨line indent (str "while " ++ conditionStr ++ str " do"), indent + 1, false, stmts⟩
    else none
  | .repeatStatement _ stmts =>
    if branch = 0 then some ⟨line indent (str "repeat"), indent + 1, false, stmts⟩ else none
  | .numericForStatement id start limit step stmts =>
    if branch = 0 then do
      let idStr ← render env indent .other id
      let startStr ← render env indent .other start
      let limitStr ← render env indent .other limit
      let stepStr ← renderStep env indent step
      some ⟨line indent (str "for " ++ idStr ++ str " = " ++ startStr ++ str ", " ++ limitStr ++
        stepStr ++ str " do"), indent + 1, false, stmts⟩
    else none
  | .forStatement ids expression stmts =>
    if branch = 0 then do
      let idStrs ← renderEach env indent .other ids
      let expressionStr ← render env indent .other expression
      let idsStr := commaSeparated idStrs
      some ⟨line indent (str "for " ++ (if idsStr.isEmpty then str "_" else idsStr) ++
        str " in " ++ expressionStr ++ str " do"), indent + 1, false, stmts⟩
    else none
  | .functionDeclaration localize name parameters hasDotDotDot stmts =>
    if branch = 0 then do
      let nameStr ← render env indent .other name
      let parameterStrs ← renderEach env indent .other parameters
      some ⟨line indent ((if localize then str "local " else []) ++ str "function " ++
        nameStr ++ str "(" ++ renderParameters parameterStrs hasDotDotDot ++ str ")"),
        indent + 1, false, stmts⟩
    else none
  | .methodDeclaration expression name parameters hasDotDotDot stmts =>
    if branch = 0 then do
      let expressionStr ← render env indent .other expression
      let parameterStrs ← renderEach env indent .other parameters
      some ⟨line indent (str "function " ++ expressionStr ++ str ":" ++ name ++ str "(" ++
        renderParameters parameterStrs hasDotDotDot ++ str ")"), indent + 1, false, stmts⟩
    else none
  | .ifStatement condition stmts elseBody => do
    let conditionStr ← render env indent .other condition
    let header := line indent (ifKeyword elseIf ++ conditionStr ++ str " then")
    if branch = 0 then some ⟨header, indent + 1, false, stmts⟩
    else do
      let bodyStr ← renderStatements env (indent + 1) false stmts
      match elseBody with
      | .elseList stmts =>
        if stmts.isEmpty then none
        else some ⟨header ++ bodyStr ++ line indent (str "else"), indent + 1, false, stmts⟩
      | .ifStatement _ _ _ => some ⟨header ++ bodyStr, indent, true, [elseBody]⟩
      | _ => none
  | .callStatement (.callExpression expression args) => do
    let expStr ← render env indent .other expression
    let argStrs ← renderEach env indent .other (args.take branch)
    match args[branch]? with
    | some (.functionExpression parameters hasDotDotDot stmts) => do
      let parameterStrs ← renderEach env indent .other parameters
      if stmts.isEmpty then none
      else some ⟨indented indent (expStr ++ str "(" ++ argumentsText argStrs ++
        str "function(" ++ renderParameters parameterStrs hasDotDotDot ++ str ")\n"),
        indent + 1, false, stmts⟩
    | _ => none
  | _ => none

/-- The text of a statement in its list, or of the `if` statement behind an `else`. -/
def statementText (env : Env) (indent : Nat) (elseIf : Bool) (next : Option Node)
    (stmt : Node) : Option Bytes :=
  if elseIf then
    match stmt with
    | .ifStatement _ _ _ => renderElse env indent stmt
    | _ => none
  else renderStatement env indent next stmt

def locateInList (env : Env) (indent : Nat) (elseIf : Bool) :
    Nat → List Node → Option (Bytes × Bytes)
  | _, [] => none
  | 0, stmt :: stmts => do
    let own ← statementText env indent elseIf (nextNonComment stmts) stmt
    some ([], own)
  | index + 1, stmt :: stmts => do
    let text ← statementText env indent elseIf (nextNonComment stmts) stmt
    let (before, own) ← locateInList env indent elseIf index stmts
    some (text ++ before, own)

def locate (env : Env) (indent : Nat) (elseIf : Bool) (stmts : List Node) :
    Path → Option (Bytes × Bytes)
  | [] => none
  | [index] => locateInList env indent elseIf index stmts
  | index :: branch :: path => do
    let (front, _) ← locateInList env indent elseIf index stmts
    let stmt ← stmts[index]?
    let inner ← nested env indent elseIf branch stmt
    let (before, own) ← locate env inner.indent inner.elseIf inner.statements path
    some (front ++ inner.before ++ before, own)

/-! ### Extra lines -/

def headerBreaks (env : Env) : Node → Nat
  | .whileStatement condition _ | .ifStatement condition _ _ => lineBreaks env condition
  | .numericForStatement id start limit step _ =>
    lineBreaks env id + lineBreaks env start + lineBreaks env limit + stepBreaks env step
  | .forStatement ids expression _ => lineBreaksEach env ids + lineBreaks env expression
  | .functionDeclaration _ name parameters _ _ =>
    lineBreaks env name + lineBreaksEach env parameters
  | .methodDeclaration expression name parameters _ _ =>
    lineBreaks env expression + breaksOf name + lineBreaksEach env parameters
  | _ => 0

/-- The lines in front of the body of a function argument, its own first line left out. -/
def argumentBreaks (env : Env) (expression : Node) (args : List Node) (branch : Nat) : Nat :=
  lineBreaks env expression + lineBreaksEach env (args.take branch) +
    match args[branch]? with
    | some (.functionExpression parameters _ _) => lineBreaksEach env parameters
    | _ => 0

def foundBreaks (renderer : Renderer) (stmt : Node) (args : List Node) (branch : Nat) : Nat :=
  match args[branch]?, renderer.renderSourceMapStatement stmt with
  | some function, some fullRendered =>
    match renderer.renderFunction function with
    | none => 0
    | some functionRendered => ((cutBefore functionRendered fullRendered).map breaksOf).getD 0
  | _, _ => 0

/-- By how much a nested list begins below the line that the walk takes it to begin at. -/
def extraLines (renderer : Renderer) (branch : Nat) (stmt : Node) : Int :=
  match stmt with
  | .callStatement (.callExpression expression args) =>
    (argumentBreaks renderer.env.anonymous expression args branch : Int) -
      foundBreaks renderer stmt args branch
  | _ => headerBreaks renderer.env.anonymous stmt

def branchStatements (branch : Nat) : Node → List Node
  | .doStatement stmts | .whileStatement _ stmts | .repeatStatement _ stmts
  | .numericForStatement _ _ _ _ stmts | .forStatement _ _ stmts
  | .functionDeclaration _ _ _ _ stmts | .methodDeclaration _ _ _ _ stmts => stmts
  | .ifStatement _ stmts elseBody =>
    if branch = 0 then stmts
    else match elseBody with
      | .elseList stmts => stmts
      | _ => [elseBody]
  | .callStatement (.callExpression _ args) =>
    match args[branch]? with
    | some (.functionExpression _ _ stmts) => stmts
    | _ => []
  | _ => []

/-- By how much the statement at a path stands below its recorded line. -/
def displacement (renderer : Renderer) (stmts : List Node) : Path → Int
  | index :: branch :: path =>
    match stmts[index]? with
    | none => 0
    | some stmt =>
      extraLines renderer branch stmt + displacement renderer (branchStatements branch stmt) path
  | _ => 0

end Rotor.Transformer.SourceLines
