import Rotor.Luau.Cst.Trivia

/-!
The concrete syntax tree (`cst/node.go`, `cst/nodes.go`, `cst/stmtnodes.go`,
`cst/types.go`).

All structs of the tree are constructors of one type.  A struct with a method
`emit` instead of `tokens` (a binding, a parameter, a function body) is part of
the node that holds it: its references are emitted, but the walks do not visit
it as a node of its own.  The optional pointer of the source is an `Option`.
A token that the source sets together with the node behind it (`: Type`,
`= Default`, `-> Ret`, `, step`, `else` and its block, the values of a local) is
one optional `clause`, so that one of the two alone cannot be built.  A
positional table field is its value.
-/

namespace Rotor.Luau.Cst

open List Luau.Lex

structure DotName where
  dot : TokenRef
  name : TokenRef
  deriving DecidableEq

/-- The attribute of a local binding, `<const>` or `<close>`. -/
structure Attrib where
  lt : TokenRef
  name : TokenRef
  gt : TokenRef
  deriving DecidableEq

inductive Node where
  -- shared pieces, without a `tokens` method of their own
  | exprList (items : List Node) (seps : List TokenRef)
  | ifExprClause (elseifTok : TokenRef) (cond : Node) (thenTok : TokenRef) (value : Node)
  | clause (tok : TokenRef) (node : Node)
  | keyedField (lBracket : TokenRef) (key : Node) (rBracket eq : TokenRef) (value : Node)
  | namedField (nameTok eq : TokenRef) (value : Node)
  | field (content : Node) (sep : Option TokenRef)
  | binding (name : TokenRef) (attr : Option Attrib) (typeClause : Option Node)
  | varargParam (vararg : TokenRef) (typeClause : Option Node)
  | nameParam (name : TokenRef) (typeClause : Option Node)
  | genericParam (name : TokenRef) (pack : Option TokenRef) (dflt : Option Node)
  | genericParams (lt : TokenRef) (params : List Node) (seps : List TokenRef) (gt : TokenRef)
  | funcBody (generics : Option Node) (lParen : TokenRef) (params : List Node)
      (paramSeps : List TokenRef) (rParen : TokenRef) (retType : Option Node) (body : Node)
      (endTok : TokenRef)
  | funcName (base : TokenRef) (dots : List DotName) (method : Option DotName)
  | elseifClause (elseifTok : TokenRef) (cond : Node) (thenTok : TokenRef) (body : Node)
  | typeArgs (lt : TokenRef) (items : List Node) (seps : List TokenRef) (gt : TokenRef)
  | varargTypeParam (dots : TokenRef) (type : Option Node)
  | namedTypeParam (nameTok colon : TokenRef) (type : Node)
  | keyedTypeField (lBracket : TokenRef) (key : Node) (rBracket colon : TokenRef) (value : Node)
  | namedTypeField (nameTok colon : TokenRef) (value : Node)
  -- expressions
  | nil (tok : TokenRef)
  | true (tok : TokenRef)
  | false (tok : TokenRef)
  | vararg (tok : TokenRef)
  | number (tok : TokenRef)
  | string (tok : TokenRef)
  | name (tok : TokenRef)
  | interpSimple (simple : TokenRef)
  | interpString (start : TokenRef) (exprs : List Node) (mids : List TokenRef)
  | paren (openTok : TokenRef) (inner : Node) (closeTok : TokenRef)
  | index (base : Node) (dot name : TokenRef)
  | indexExpr (base : Node) (openTok : TokenRef) (key : Node) (closeTok : TokenRef)
  | call (base args : Node)
  | methodCall (base : Node) (colon name : TokenRef) (args : Node)
  | parenArgs (openTok : TokenRef) (list : Node) (closeTok : TokenRef)
  | unary (op : TokenRef) (operand : Node)
  | binary (left : Node) (op : TokenRef) (right : Node)
  | ifExpr (ifTok : TokenRef) (cond : Node) (thenTok : TokenRef) (thenExpr : Node)
      (elseifs : List Node) (elseTok : TokenRef) (elseExpr : Node)
  | table (openTok : TokenRef) (fields : List Node) (closeTok : TokenRef)
  | funcExpr (func : TokenRef) (body : Node)
  | typeAssert (expr : Node) (colonColon : TokenRef) (type : Node)
  -- types
  | typeName (base : TokenRef) (dots : List DotName) (args : Option Node) (pack : Option TokenRef)
  | singletonType (tok : TokenRef)
  | typeOptional (type : Node) (question : TokenRef)
  | typeBinary (left : Node) (op : TokenRef) (right : Node)
  | typeLead (op : TokenRef) (type : Node)
  | variadicType (dots : TokenRef) (type : Option Node)
  | typeofType (typeofTok lParen : TokenRef) (expr : Node) (rParen : TokenRef)
  | functionType (generics : Option Node) (lParen : TokenRef) (params : List Node)
      (paramSeps : List TokenRef) (rParen : TokenRef) (ret : Option Node)
  | tableType (openTok : TokenRef) (fields : List Node) (closeTok : TokenRef)
  -- statements
  | semiStmt (tok : TokenRef)
  | errorStmt (tok : TokenRef)
  | localStmt (localTok : TokenRef) (names : List Node) (nameSeps : List TokenRef)
      (values : Option Node)
  | localFuncStmt (localTok func name : TokenRef) (body : Node)
  | assignStmt (targets : Node) (op : TokenRef) (values : Node)
  | callStmt (call : Node)
  | doStmt (doTok : TokenRef) (body : Node) (endTok : TokenRef)
  | whileStmt (whileTok : TokenRef) (cond : Node) (doTok : TokenRef) (body : Node)
      (endTok : TokenRef)
  | repeatStmt (repeatTok : TokenRef) (body : Node) (untilTok : TokenRef) (cond : Node)
  | numericForStmt (forTok : TokenRef) (var : Node) (eq : TokenRef) (start : Node)
      (comma1 : TokenRef) (limit : Node) (step : Option Node) (doTok : TokenRef)
      (body : Node) (endTok : TokenRef)
  | genericForStmt (forTok : TokenRef) (names : List Node) (nameSeps : List TokenRef)
      (inTok : TokenRef) (exprs : Node) (doTok : TokenRef) (body : Node) (endTok : TokenRef)
  | ifStmt (ifTok : TokenRef) (cond : Node) (thenTok : TokenRef) (body : Node)
      (elseifs : List Node) (elseBody : Option Node) (endTok : TokenRef)
  | funcStmt (func : TokenRef) (name body : Node)
  | returnStmt (returnTok : TokenRef) (values : Node) (semi : Option TokenRef)
  | breakStmt (breakTok : TokenRef) (semi : Option TokenRef)
  | continueStmt (continueTok : TokenRef) (semi : Option TokenRef)
  | typeAliasStmt (exportTok : Option TokenRef) (type name : TokenRef)
      (generics : Option Node) (eq : TokenRef) (value : Node)
  | block (stmts : List Node)
  | file (body : Node) (eof : TokenRef)

/-- What a walk over a tree meets, in order. -/
inductive Event where
  /-- A node is entered. -/
  | enter (node : Node)
  /-- A token reference is yielded. -/
  | ref (ref : TokenRef)
  /-- A statement of a block that is not its first one begins. -/
  | stmt (node : Node)

/-- Interleave the pieces of a list with its separators: the separator at an
index follows the item at that index, when there is one. -/
def interleave : List (List Event) → List TokenRef → List Event
  | [], _ => []
  | item :: items, [] => item ++ interleave items []
  | item :: items, sep :: seps => item ++ .ref sep :: interleave items seps

/-- Mark the beginning of every statement but the first. -/
def statements : List (Node × List Event) → List Event
  | [] => []
  | (_, first) :: rest => first ++ (rest.map fun (node, events) => .stmt node :: events).flatten

def optRef (ref : Option TokenRef) : List Event := (ref.map Event.ref).toList

def dotEvents (dots : List DotName) : List Event :=
  (dots.map fun segment => [.ref segment.dot, .ref segment.name]).flatten

def attribEvents (attr : Option Attrib) : List Event :=
  match attr with
  | some attr => [.ref attr.lt, .ref attr.name, .ref attr.gt]
  | none => []

/-- The `tokens` methods: the references and children of each node in order,
followed down to the leaves. -/
def Node.events (node : Node) : List Event :=
  match node with
  | .exprList items seps => interleave (listEvents items) seps
  | .ifExprClause elseifTok cond thenTok value =>
    .ref elseifTok :: cond.events ++ .ref thenTok :: value.events
  | .clause tok node => .ref tok :: node.events
  | .keyedField lBracket key rBracket eq value =>
    .ref lBracket :: key.events ++ .ref rBracket :: .ref eq :: value.events
  | .namedField nameTok eq value => .ref nameTok :: .ref eq :: value.events
  | .field content sep => content.events ++ optRef sep
  | .binding nameTok attr typeClause =>
    .ref nameTok :: attribEvents attr ++ optEvents typeClause
  | .varargParam varargTok typeClause => .ref varargTok :: optEvents typeClause
  | .nameParam nameTok typeClause => .ref nameTok :: optEvents typeClause
  | .genericParam nameTok pack dflt => .ref nameTok :: optRef pack ++ optEvents dflt
  | .genericParams lt params seps gt =>
    .ref lt :: interleave (listEvents params) seps ++ [.ref gt]
  | .funcBody generics lParen params paramSeps rParen retType body endTok =>
    optEvents generics ++ .ref lParen :: interleave (listEvents params) paramSeps ++
      .ref rParen :: optEvents retType ++ body.events ++ [.ref endTok]
  | .funcName base dots method => .ref base :: dotEvents dots ++ dotEvents method.toList
  | .elseifClause elseifTok cond thenTok body =>
    .ref elseifTok :: cond.events ++ .ref thenTok :: body.events
  | .typeArgs lt items seps gt => .ref lt :: interleave (listEvents items) seps ++ [.ref gt]
  | .varargTypeParam dots type => .ref dots :: optEvents type
  | .namedTypeParam nameTok colon type => .ref nameTok :: .ref colon :: type.events
  | .keyedTypeField lBracket key rBracket colon value =>
    .ref lBracket :: key.events ++ .ref rBracket :: .ref colon :: value.events
  | .namedTypeField nameTok colon value => .ref nameTok :: .ref colon :: value.events
  | .nil tok | .true tok | .false tok | .vararg tok | .number tok | .string tok | .name tok
  | .singletonType tok | .semiStmt tok | .errorStmt tok | .interpSimple tok =>
    [.enter node, .ref tok]
  | .interpString start exprs mids =>
    .enter node :: .ref start :: interleave (listEvents exprs) mids
  | .paren openTok inner closeTok =>
    .enter node :: .ref openTok :: inner.events ++ [.ref closeTok]
  | .index base dot nameTok => .enter node :: base.events ++ [.ref dot, .ref nameTok]
  | .indexExpr base openTok key closeTok =>
    .enter node :: base.events ++ .ref openTok :: key.events ++ [.ref closeTok]
  | .call base args => .enter node :: base.events ++ args.events
  | .methodCall base colon nameTok args =>
    .enter node :: base.events ++ .ref colon :: .ref nameTok :: args.events
  | .parenArgs openTok list closeTok =>
    .enter node :: .ref openTok :: list.events ++ [.ref closeTok]
  | .unary op operand => .enter node :: .ref op :: operand.events
  | .binary left op right => .enter node :: left.events ++ .ref op :: right.events
  | .ifExpr ifTok cond thenTok thenExpr elseifs elseTok elseExpr =>
    .enter node :: .ref ifTok :: cond.events ++ .ref thenTok :: thenExpr.events ++
      (listEvents elseifs).flatten ++ .ref elseTok :: elseExpr.events
  | .table openTok fields closeTok =>
    .enter node :: .ref openTok :: (listEvents fields).flatten ++ [.ref closeTok]
  | .funcExpr func body => .enter node :: .ref func :: body.events
  | .typeAssert expr colonColon type =>
    .enter node :: expr.events ++ .ref colonColon :: type.events
  | .typeName base dots args pack =>
    .enter node :: .ref base :: dotEvents dots ++ optEvents args ++ optRef pack
  | .typeOptional type question => .enter node :: type.events ++ [.ref question]
  | .typeBinary left op right => .enter node :: left.events ++ .ref op :: right.events
  | .typeLead op type => .enter node :: .ref op :: type.events
  | .variadicType dots type => .enter node :: .ref dots :: optEvents type
  | .typeofType typeofTok lParen expr rParen =>
    .enter node :: .ref typeofTok :: .ref lParen :: expr.events ++ [.ref rParen]
  | .functionType generics lParen params paramSeps rParen ret =>
    .enter node :: optEvents generics ++ .ref lParen ::
      interleave (listEvents params) paramSeps ++ .ref rParen :: optEvents ret
  | .tableType openTok fields closeTok =>
    .enter node :: .ref openTok :: (listEvents fields).flatten ++ [.ref closeTok]
  | .localStmt localTok names nameSeps values =>
    .enter node :: .ref localTok :: interleave (listEvents names) nameSeps ++ optEvents values
  | .localFuncStmt localTok func nameTok body =>
    .enter node :: .ref localTok :: .ref func :: .ref nameTok :: body.events
  | .assignStmt targets op values =>
    .enter node :: targets.events ++ .ref op :: values.events
  | .callStmt callExpr => .enter node :: callExpr.events
  | .doStmt doTok body endTok => .enter node :: .ref doTok :: body.events ++ [.ref endTok]
  | .whileStmt whileTok cond doTok body endTok =>
    .enter node :: .ref whileTok :: cond.events ++ .ref doTok :: body.events ++ [.ref endTok]
  | .repeatStmt repeatTok body untilTok cond =>
    .enter node :: .ref repeatTok :: body.events ++ .ref untilTok :: cond.events
  | .numericForStmt forTok var eq start comma1 limit step doTok body endTok =>
    .enter node :: .ref forTok :: var.events ++ .ref eq :: start.events ++
      .ref comma1 :: limit.events ++ optEvents step ++
      .ref doTok :: body.events ++ [.ref endTok]
  | .genericForStmt forTok names nameSeps inTok exprs doTok body endTok =>
    .enter node :: .ref forTok :: interleave (listEvents names) nameSeps ++
      .ref inTok :: exprs.events ++ .ref doTok :: body.events ++ [.ref endTok]
  | .ifStmt ifTok cond thenTok body elseifs elseBody endTok =>
    .enter node :: .ref ifTok :: cond.events ++ .ref thenTok :: body.events ++
      (listEvents elseifs).flatten ++ optEvents elseBody ++ [.ref endTok]
  | .funcStmt func nameNode body => .enter node :: .ref func :: nameNode.events ++ body.events
  | .returnStmt returnTok values semi =>
    .enter node :: .ref returnTok :: values.events ++ optRef semi
  | .breakStmt breakTok semi => .enter node :: .ref breakTok :: optRef semi
  | .continueStmt continueTok semi => .enter node :: .ref continueTok :: optRef semi
  | .typeAliasStmt exportTok type nameTok generics eq value =>
    .enter node :: optRef exportTok ++ .ref type :: .ref nameTok :: optEvents generics ++
      .ref eq :: value.events
  | .block stmts => .enter node :: statements (stmtEvents stmts)
  | .file body eof => .enter node :: body.events ++ [.ref eof]
where
  listEvents : List Node → List (List Event)
    | [] => []
    | item :: items => item.events :: listEvents items
  stmtEvents : List Node → List (Node × List Event)
    | [] => []
    | item :: items => (item, item.events) :: stmtEvents items
  optEvents : Option Node → List Event
    | none => []
    | some node => node.events

def eventRefs (events : List Event) : List TokenRef :=
  events.filterMap fun
    | .ref ref => some ref
    | _ => none

def eventNodes (events : List Event) : List Node :=
  events.filterMap fun
    | .enter node => some node
    | _ => none

def Node.refs (node : Node) : List TokenRef := eventRefs node.events

def Node.nodes (node : Node) : List Node := eventNodes node.events

lemma listEvents_eq_map (nodes : List Node) :
    Node.events.listEvents nodes = nodes.map Node.events := by
  induction nodes with
  | nil => rfl
  | cons node nodes ih =>
    simp only [Node.events.listEvents, ih, map_cons]

lemma stmtEvents_eq_map (nodes : List Node) :
    Node.events.stmtEvents nodes = nodes.map fun node => (node, node.events) := by
  induction nodes with
  | nil => rfl
  | cons node nodes ih =>
    simp only [Node.events.stmtEvents, ih, map_cons]

lemma optEvents_eq_getD (node : Option Node) :
    Node.events.optEvents node = (node.map Node.events).getD [] := by
  cases node <;> rfl

/-- A property of event lists that the walks respect: their pieces have it, and it is
kept when pieces are put together. What is behind the entry of a node is its own walk. -/
structure RespectsOwn (P : List Event → Prop) : Prop where
  nil : P []
  enter {node : Node} {events : List Event} : node.events = .enter node :: events → P events →
    P (.enter node :: events)
  ref {ref : TokenRef} {events : List Event} : P events → P (.ref ref :: events)
  stmt {node : Node} : P node.events → P (.stmt node :: node.events)
  append {front back : List Event} : P front → P back → P (front ++ back)

namespace RespectsOwn

variable {P : List Event → Prop}

variable (respects : RespectsOwn P)
include respects

lemma flatten {pieces : List (List Event)}
    (each : ∀ piece ∈ pieces, P piece) : P pieces.flatten := by
  induction pieces with
  | nil => exact respects.nil
  | cons piece pieces ih =>
    apply respects.append (each piece (.head _))
    exact ih fun other mem => each other (.tail _ mem)

lemma interleave {pieces : List (List Event)}
    (each : ∀ piece ∈ pieces, P piece) :
    ∀ seps : List TokenRef, P (interleave pieces seps) := by
  induction pieces with
  | nil => exact fun _ => respects.nil
  | cons piece pieces ih =>
    have later := ih fun other mem => each other (.tail _ mem)
    intro seps
    cases seps with
    | nil => exact respects.append (each piece (.head _)) (later [])
    | cons sep seps => exact respects.append (each piece (.head _)) (respects.ref (later seps))

lemma optRef (ref : Option TokenRef) : P (optRef ref) := by
  cases ref with
  | none => exact respects.nil
  | some ref => exact respects.ref respects.nil

lemma dotEvents (dots : List DotName) : P (dotEvents dots) := by
  apply respects.flatten
  simp only [mem_map]
  rintro _ ⟨segment, -, rfl⟩
  exact respects.ref (respects.ref respects.nil)

lemma attribEvents (attr : Option Attrib) : P (attribEvents attr) := by
  cases attr with
  | none => exact respects.nil
  | some attr => exact respects.ref (respects.ref (respects.ref respects.nil))

lemma statements {nodes : List Node} (each : ∀ node ∈ nodes, P node.events) :
    P (statements (nodes.map fun node => (node, node.events))) := by
  cases nodes with
  | nil => exact respects.nil
  | cons first nodes =>
    apply respects.append (each first (.head _))
    apply respects.flatten
    simp only [map_map, mem_map]
    rintro _ ⟨node, mem, rfl⟩
    exact respects.stmt (each node (.tail _ mem))

/-- A property that the walks respect holds of every walk. -/
theorem events (node : Node) : P node.events := by
  revert node
  apply @Node.rec (fun node => P node.events)
    (fun nodes => ∀ piece ∈ Node.events.listEvents nodes, P piece)
    (fun node => P (Node.events.optEvents node))
  case block =>
    intro stmts each
    rw [listEvents_eq_map, forall_mem_map] at each
    rw [Node.events, stmtEvents_eq_map]
    exact respects.enter (by rw [Node.events, stmtEvents_eq_map]) (respects.statements each)
  case nil => exact fun tok => respects.enter rfl (respects.ref respects.nil)
  -- the empty list of children
  case nil =>
    intro piece mem
    cases mem
  case cons =>
    intro node nodes first later piece mem
    rcases mem_cons.mp mem with rfl | mem
    · exact first
    · exact later piece mem
  all_goals
    intros
    simp only [Node.events, Node.events.optEvents]
    -- Every other walk is put together from references, children and lists of children.
    repeat' first
      | assumption
      | apply respects.nil
      | apply respects.enter (by rfl)
      | apply respects.ref
      | apply respects.append
      | apply respects.optRef
      | apply respects.dotEvents
      | apply respects.attribEvents
      | apply respects.interleave
      | apply respects.flatten

end RespectsOwn

/-- A property of event lists that the walks respect, whatever is behind the entry of a node. -/
structure Respects (P : List Event → Prop) : Prop where
  nil : P []
  enter {node : Node} {events : List Event} : P events → P (.enter node :: events)
  ref {ref : TokenRef} {events : List Event} : P events → P (.ref ref :: events)
  stmt {node : Node} : P node.events → P (.stmt node :: node.events)
  append {front back : List Event} : P front → P back → P (front ++ back)

lemma Respects.events {P : List Event → Prop} (respects : Respects P) (node : Node) :
    P node.events := by
  have own : RespectsOwn P :=
    ⟨respects.nil, fun _ => respects.enter, respects.ref, respects.stmt, respects.append⟩
  exact own.events node

lemma interleave_concat_item {item : List Event} :
    ∀ {items : List (List Event)} {seps : List TokenRef}, items.length = seps.length →
      interleave (items ++ [item]) seps = interleave items seps ++ item
  | [], [], _ => by simp [interleave]
  | first :: items, sep :: seps, sameLength => by
    have shorter : items.length = seps.length := by simpa using sameLength
    simp only [cons_append, interleave, append_assoc, interleave_concat_item shorter]

lemma interleave_concat_sep {sep : TokenRef} :
    ∀ {items : List (List Event)} {seps : List TokenRef}, items.length = seps.length + 1 →
      interleave items (seps ++ [sep]) = interleave items seps ++ [.ref sep]
  | [only], [], _ => by simp [interleave]
  | first :: second :: items, nextSep :: seps, sameLength => by
    have shorter : (second :: items).length = seps.length + 1 := by
      simpa using sameLength
    simp only [cons_append, interleave, append_assoc, interleave_concat_sep shorter]

lemma interleave_concat {item : List Event} {sep : TokenRef} {items : List (List Event)}
    {seps : List TokenRef} (lengths : items.length = seps.length + 1) :
    interleave (items ++ [item]) (seps ++ [sep]) = interleave items seps ++ .ref sep :: item := by
  rw [interleave_concat_item (by simpa using lengths), interleave_concat_sep lengths]
  simp

end Rotor.Luau.Cst
