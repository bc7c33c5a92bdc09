import Rotor.Bytes
import Rotor.Lib.Effects

/-!
Switch statements.

A switch becomes a `repeat … until true` with an `if` for each case clause.  A clause that the
previous one can fall into also looks at a flag, which a body that is left at its end sets.  The
statements inside the clauses are transformed elsewhere; here they are what they do to the world,
and a signal (`break`, `continue`, `return` or an error) leaves the chain of clauses.
-/

namespace Rotor.Transformer.Switch

open Lib

section Syntax

variable (S W V : Type)

/-! ### The source -/

/-- A statement of the source with what it is transformed into.  The last statement may be a final
one: `break`, `continue` or `return`. -/
structure Transformed where
  leadingComments : List Bytes
  prereqs : List (EStateM S W PUnit)
  statements : List (EStateM S W PUnit)
  final : Option (W → S × W)

inductive SourceStatement where
  | empty (leadingComments : List Bytes)
  /-- The comments in front of the closing brace are the last ones. -/
  | block (leadingComments : List Bytes) (stmts : List (Transformed S W))
      (closingComments : List Bytes)
  | other (stmt : Transformed S W)

/-- The statements of a clause; the comments in front of its colon matter if it has none. -/
structure ClauseBody where
  statements : List (SourceStatement S W)
  colonComments : List Bytes

structure CaseClause where
  prereqs : List (EStateM S W PUnit)
  expression : EStateM S W V
  body : ClauseBody S W

inductive Subject where
  /-- An identifier, a temporary or a literal, which is compared as it is. -/
  | simple (read : W → V)
  | complex (evaluate : EStateM S W V)

/-- A switch whose default clause, if any, is the last one. -/
structure SwitchStatement where
  subject : Subject S W V
  clauses : List (CaseClause S W V)
  defaultClause : Option (ClauseBody S W)

/-! ### The emitted code -/

/-- Statements as the transformation of a statement list leaves them. -/
inductive Statement where
  | plain (run : EStateM S W PUnit)
  | final (run : W → S × W)
  | comment (text : Bytes)

inductive Condition where
  | always
  | flag
  | notFlag
  | equals (expression : EStateM S W V)
  | flagOrEquals (expression : EStateM S W V)

inductive Simple where
  | body (stmt : Statement S W)
  /-- `_fallthrough = value` -/
  | assignFlag (value : Condition S W V)

inductive Chained where
  | simple (stmt : Simple S W V)
  /-- `local _fallthrough = false` -/
  | declareFlag
  | ifThen (condition : Condition S W V) (stmts : List (Simple S W V))

/-- The declaration of the subject's temporary, and the body of the `repeat`. -/
structure Emitted where
  subject : Subject S W V
  chain : List (Chained S W V)

end Syntax

section Transform

variable {S W V : Type}

/-! ### Statement lists -/

def Statement.isFinalStatement : Statement S W → Bool
  | .final _ => true
  | _ => false

/-- Leading comments, prerequisite statements and the statement itself. -/
def Transformed.emitted (removeComments : Bool) (stmt : Transformed S W) : List (Statement S W) :=
  (if removeComments then [] else stmt.leadingComments.map .comment) ++
    stmt.prereqs.map .plain ++ stmt.statements.map .plain ++
    (stmt.final.map .final).toList

/-- `transformStatementList`, with the comments in front of the token that ends the list; what
follows a final statement is left out. -/
def transformStatementList (removeComments : Bool) (lastComments : List Bytes) :
    List (Transformed S W) → List (Statement S W)
  | [] => if removeComments then [] else lastComments.map .comment
  | stmt :: others =>
    stmt.emitted removeComments ++
      if stmt.final.isSome then
        if removeComments then [] else lastComments.map .comment
      else transformStatementList removeComments lastComments others

def Statement.run : Statement S W → EStateM S W PUnit
  | .plain run => run
  | .final run => fun world => .error (run world).1 (run world).2
  | .comment _ => pure ⟨⟩

def runStatements (stmts : List (Statement S W)) : EStateM S W PUnit :=
  runAll (stmts.map Statement.run)

def SourceStatement.isEmpty : SourceStatement S W → Bool
  | .empty _ => true
  | _ => false

/-- A statement of a clause on its own; a block becomes `do … end`. -/
def SourceStatement.transform (removeComments : Bool) : SourceStatement S W → Transformed S W
  | .empty leadingComments => ⟨leadingComments, [], [], none⟩
  | .block leadingComments stmts closingComments =>
    ⟨leadingComments, [],
      [runStatements (transformStatementList removeComments closingComments stmts)], none⟩
  | .other stmt => stmt

/-- The statements of a clause.  Behind its last statement a clause has no token of its own. -/
def ClauseBody.transformStatements (removeComments : Bool) (body : ClauseBody S W) :
    List (Statement S W) :=
  transformStatementList removeComments (if body.statements.isEmpty then body.colonComments else [])
    (body.statements.map (SourceStatement.transform removeComments))

/-- The statements of a case clause: the braces of a single block are dropped. -/
def ClauseBody.transform (removeComments : Bool) (body : ClauseBody S W) : List (Statement S W) :=
  match body.statements.filter fun stmt => !stmt.isEmpty with
  | [.block _ stmts closingComments] =>
    transformStatementList removeComments closingComments stmts
  | _ => body.transformStatements removeComments

/-! ### Clauses -/

def transformCaseClauseExpression (clause : CaseClause S W V) (canFallThroughTo : Bool) :
    Condition S W V × List (Chained S W V) :=
  let prereqs : List (Simple S W V) := clause.prereqs.map fun run => .body (.plain run)
  if canFallThroughTo then
    if prereqs.isEmpty then (.flagOrEquals clause.expression, [])
    else (.flag, [.ifThen .notFlag (prereqs ++ [.assignFlag (.equals clause.expression)])])
  else (.equals clause.expression, prereqs.map .simple)

def canFallThroughFrom (stmts : List (Statement S W)) : Bool :=
  match stmts.getLast? with
  | none => true
  | some last => !last.isFinalStatement

structure CaseClauseResult (S W V : Type) where
  canFallThroughFrom : Bool
  prereqs : List (Chained S W V)
  clauseStatements : List (Chained S W V)

def transformCaseClause (removeComments : Bool) (clause : CaseClause S W V)
    (canFallThroughTo shouldUpdateFallThroughFlag : Bool) : CaseClauseResult S W V :=
  let (condition, prereqs) := transformCaseClauseExpression clause canFallThroughTo
  let stmts := clause.body.transform removeComments
  let falls := canFallThroughFrom stmts
  let update : List (Simple S W V) :=
    if falls && shouldUpdateFallThroughFlag then [.assignFlag .always] else []
  { canFallThroughFrom := falls
    prereqs
    clauseStatements := [.ifThen condition (stmts.map .body ++ update)] }

/-- The loop over the clauses, and whether the flag is needed. -/
def transformClauses (removeComments : Bool) (defaultClause : Option (ClauseBody S W)) :
    Bool → List (CaseClause S W V) → List (Chained S W V) × Bool
  | _, [] =>
    match defaultClause with
    | none => ([], false)
    | some body =>
      ((body.transformStatements removeComments).map fun stmt => .simple (.body stmt), false)
  | canFallThroughTo, clause :: clauses =>
    let result := transformCaseClause removeComments clause canFallThroughTo (!clauses.isEmpty)
    let rest := transformClauses removeComments defaultClause result.canFallThroughFrom clauses
    (result.prereqs ++ result.clauseStatements ++ rest.1, result.canFallThroughFrom || rest.2)

def transformSwitchStatement (removeComments : Bool) (node : SwitchStatement S W V) :
    Emitted S W V :=
  let (stmts, isFallThroughFlagNeeded) :=
    transformClauses removeComments node.defaultClause false node.clauses
  { subject := node.subject
    chain := if isFallThroughFlagNeeded then .declareFlag :: stmts else stmts }

/-! ### Rendering -/

def Simple.isFinalStatement : Simple S W V → Bool
  | .body stmt => stmt.isFinalStatement
  | .assignFlag _ => false

def Simple.isComment : Simple S W V → Bool
  | .body (.comment _) => true
  | _ => false

/-- `renderStatements` does not panic: only comments stand behind a final statement. -/
def renders : List (Simple S W V) → Bool
  | [] => true
  | stmt :: others =>
    (!stmt.isFinalStatement || others.all Simple.isComment) && renders others

def Chained.isFinalStatement : Chained S W V → Bool
  | .simple stmt => stmt.isFinalStatement
  | _ => false

def Chained.isComment : Chained S W V → Bool
  | .simple stmt => stmt.isComment
  | _ => false

def Chained.renders : Chained S W V → Bool
  | .ifThen _ stmts => Switch.renders stmts
  | _ => true

def chainRenders : List (Chained S W V) → Bool
  | [] => true
  | stmt :: others =>
    (!stmt.isFinalStatement || others.all Chained.isComment) && stmt.renders && chainRenders others

/-! ### Running the code -/

variable (equals : V → V → Bool)

def Condition.test (subject : W → V) : Condition S W V → EStateM S (W × Bool) Bool
  | .always => pure true
  | .flag => inspect fun state => state.2
  | .notFlag => inspect fun state => !state.2
  | .equals expression => do
    let left ← inspect fun state => subject state.1
    let right ← onFirst expression
    return equals left right
  | .flagOrEquals expression => do
    if ← inspect fun state => state.2 then return true
    let left ← inspect fun state => subject state.1
    let right ← onFirst expression
    return equals left right

def assignFlag (value : Bool) : EStateM S (W × Bool) PUnit :=
  fun state => .ok ⟨⟩ (state.1, value)

def Simple.execute (subject : W → V) : Simple S W V → EStateM S (W × Bool) PUnit
  | .body stmt => onFirst stmt.run
  | .assignFlag value => value.test equals subject >>= Switch.assignFlag

def Chained.execute (subject : W → V) : Chained S W V → EStateM S (W × Bool) PUnit
  | .simple stmt => stmt.execute equals subject
  | .declareFlag => Switch.assignFlag false
  | .ifThen condition stmts => do
    if ← condition.test equals subject then
      runAll (stmts.map (Simple.execute equals subject))

def executeChain (subject : W → V) (chain : List (Chained S W V)) : EStateM S (W × Bool) PUnit :=
  runAll (chain.map (Chained.execute equals subject))

/-- The temporary of a complex subject is assigned once. -/
def Emitted.execute (emitted : Emitted S W V) : EStateM S (W × Bool) PUnit :=
  match emitted.subject with
  | .simple read => executeChain equals read emitted.chain
  | .complex evaluate => do
    let value ← onFirst evaluate
    executeChain equals (fun _ => value) emitted.chain

/-! ### The meaning of the source -/

def Transformed.run (stmt : Transformed S W) : EStateM S W PUnit := do
  runAll stmt.prereqs
  runAll stmt.statements
  match stmt.final with
  | none => pure ⟨⟩
  | some run => (Statement.final run).run

def SourceStatement.run : SourceStatement S W → EStateM S W PUnit
  | .empty _ => pure ⟨⟩
  | .block _ stmts _ => runAll (stmts.map Transformed.run)
  | .other stmt => stmt.run

def ClauseBody.run (body : ClauseBody S W) : EStateM S W PUnit :=
  runAll (body.statements.map SourceStatement.run)

def runDefault (defaultClause : Option (ClauseBody S W)) : EStateM S W PUnit :=
  match defaultClause with
  | none => pure ⟨⟩
  | some body => body.run

def runBodies (defaultClause : Option (ClauseBody S W)) :
    List (CaseClause S W V) → EStateM S W PUnit
  | [] => runDefault defaultClause
  | clause :: clauses => clause.body.run >>= fun _ => runBodies defaultClause clauses

def runClauses (defaultClause : Option (ClauseBody S W)) (subject : V) :
    List (CaseClause S W V) → EStateM S W PUnit
  | [] => runDefault defaultClause
  | clause :: clauses => do
    runAll clause.prereqs
    let value ← clause.expression
    if equals subject value then runBodies defaultClause (clause :: clauses)
    else runClauses defaultClause subject clauses

def SwitchStatement.run (node : SwitchStatement S W V) : EStateM S W PUnit := do
  let subject ← match node.subject with
    | .simple read => inspect read
    | .complex evaluate => evaluate
  runClauses equals node.defaultClause subject node.clauses

def SwitchStatement.KeepsSubject (node : SwitchStatement S W V) : Prop :=
  match node.subject with
  | .simple read => ∀ clause ∈ node.clauses,
      (∀ run ∈ clause.prereqs, Keeps read run) ∧ Keeps read clause.expression
  | .complex _ => True

/-- The body is a block in which a comment stands behind a final statement. -/
def ClauseBody.endsInComment (removeComments : Bool) (body : ClauseBody S W) : Bool :=
  match body.statements.filter fun stmt => !stmt.isEmpty with
  | [.block _ stmts closingComments] =>
    !removeComments && (stmts.any fun stmt => stmt.final.isSome) && !closingComments.isEmpty
  | _ => false

end Transform

end Rotor.Transformer.Switch
