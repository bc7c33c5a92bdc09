import Rotor.Transformer.SourceLines
import Mathlib.Data.List.Infix

/-!
Recorded lines and real ones.

The real line of a statement is the number of line breaks in front of its text.  It differs from
the recorded one by the lines that headers around the statement have beyond their first, and by the
lines between a function argument and the place where its text is found.
-/

namespace Rotor.Transformer.SourceLines

open List Luau Luau.Render

variable {env : Env} {indent index branch : Nat} {elseIf hasDotDotDot : Bool} {next : Option Node}
variable {stmt cond elseBody expression : Node} {stmts args params : List Node}
variable {own whole : Bytes} {inner : Nested} {path : Path}

/-! ### The text of a statement -/

lemma ifStatement_text
    (rendered : statementText env indent elseIf next (.ifStatement cond stmts elseBody) =
      some own) :
    ∃ conditionStr bodyStr elseStr tail, render env indent .other cond = some conditionStr ∧
      renderStatements env (indent + 1) false stmts = some bodyStr ∧
      renderElse env indent elseBody = some elseStr ∧
      own = line indent (ifKeyword elseIf ++ conditionStr ++ str " then") ++
        (bodyStr ++ (elseStr ++ tail)) := by
  cases elseIf with
  | true =>
    simp only [statementText, if_true, renderElse, bind_eq_some] at rendered
    obtain ⟨conditionStr, first, bodyStr, second, elseStr, third, rendered⟩ := rendered
    cases rendered
    exact ⟨conditionStr, bodyStr, elseStr, [], first, second, third, by simp [ifKeyword]⟩
  | false =>
    simp only [statementText, Bool.false_eq_true, if_false, renderStatement,
      bind_eq_some] at rendered
    obtain ⟨conditionStr, first, bodyStr, second, elseStr, third, rendered⟩ := rendered
    cases rendered
    exact ⟨conditionStr, bodyStr, elseStr, line indent (str "end"), first, second, third,
      by simp [ifKeyword]⟩

lemma renderEach_append {slot : Slot} {first others : List Node} {texts : List Bytes}
    (rendered : renderEach env indent slot (first ++ others) = some texts) :
    ∃ front behind, renderEach env indent slot first = some front ∧
      renderEach env indent slot others = some behind ∧ texts = front ++ behind := by
  induction first generalizing texts with
  | nil => exact ⟨[], texts, rfl, rendered, rfl⟩
  | cons node first ih =>
    simp only [cons_append, renderEach, bind_eq_some] at rendered
    obtain ⟨text, own, texts, rest, rendered⟩ := rendered
    cases rendered
    obtain ⟨front, behind, before, after, rfl⟩ := ih rest
    refine ⟨text :: front, behind, ?_, after, rfl⟩
    simp [renderEach, own, before]

lemma commaSeparated_split (front : List Bytes) (text : Bytes) (behind : List Bytes) :
    ∃ tail, commaSeparated (front ++ text :: behind) = argumentsText front ++ (text ++ tail) := by
  induction front with
  | nil =>
    cases behind with
    | nil => exact ⟨[], by simp [commaSeparated, join, argumentsText]⟩
    | cons other behind => exact ⟨_, by
        simp only [commaSeparated, nil_append, join, append_assoc]
        rfl⟩
  | cons first front ih =>
    obtain ⟨tail, same⟩ := ih
    refine ⟨tail, ?_⟩
    have step : commaSeparated (first :: front ++ text :: behind) =
        first ++ str ", " ++ commaSeparated (front ++ text :: behind) := by
      cases front <;> rfl
    rw [step, same]
    simp [argumentsText]

def blockOf : Node → Option (List Node)
  | .doStatement stmts | .whileStatement _ stmts | .repeatStatement _ stmts
  | .numericForStatement _ _ _ _ stmts | .forStatement _ _ stmts
  | .functionDeclaration _ _ _ _ stmts | .methodDeclaration _ _ _ _ stmts =>
    some stmts
  | _ => none

lemma block_text (block : blockOf stmt = some stmts)
    (rendered : renderStatement env indent next stmt = some own) :
    ∃ header bodyStr last,
      nested env indent false 0 stmt = some ⟨header, indent + 1, false, stmts⟩ ∧
      renderStatements env (indent + 1) false stmts = some bodyStr ∧
      own = header ++ bodyStr ++ last ∧
      breaksOf header = 1 + headerBreaks env.anonymous stmt := by
  cases stmt with
  | doStatement stmts =>
    cases block
    simp only [renderStatement, bind_eq_some] at rendered
    obtain ⟨bodyStr, body, rendered⟩ := rendered
    cases rendered
    exact ⟨_, bodyStr, _, rfl, body, rfl, by simp [headerBreaks]⟩
  | repeatStatement cond stmts =>
    cases block
    simp only [renderStatement, bind_eq_some] at rendered
    obtain ⟨bodyStr, body, _, _, rendered⟩ := rendered
    cases rendered
    exact ⟨_, bodyStr, _, rfl, body, rfl, by simp [headerBreaks]⟩
  | whileStatement cond stmts =>
    cases block
    simp only [renderStatement, bind_eq_some] at rendered
    obtain ⟨conditionStr, first, bodyStr, body, rendered⟩ := rendered
    cases rendered
    refine ⟨_, bodyStr, _, by rw [nested, if_pos rfl, first]; rfl, body, rfl, ?_⟩
    simp [headerBreaks, breaksOf_render first]
    omega
  | numericForStatement id start limit step stmts =>
    cases block
    simp only [renderStatement, bind_eq_some] at rendered
    obtain ⟨idStr, first, startStr, second, limitStr, third, stepStr, fourth, bodyStr, body,
      rendered⟩ := rendered
    cases rendered
    refine ⟨_, bodyStr, _, by rw [nested, if_pos rfl, first, second, third, fourth]; rfl, body,
      rfl, ?_⟩
    simp [headerBreaks, breaksOf_render first, breaksOf_render second, breaksOf_render third,
      breaksOf_renderStep fourth]
    omega
  | forStatement ids expression stmts =>
    cases block
    simp only [renderStatement, bind_eq_some] at rendered
    obtain ⟨idStrs, first, expressionStr, second, bodyStr, body, rendered⟩ := rendered
    cases rendered
    refine ⟨_, bodyStr, _, by rw [nested, if_pos rfl, first, second]; rfl, body, rfl, ?_⟩
    have names := (breaksOf_ids idStrs).trans (breaksOf_renderEach first)
    simp only [breaksOf_line, breaksOf_append, names, breaksOf_render second, headerBreaks]
    simp
    omega
  | functionDeclaration localize name params hasDotDotDot stmts =>
    cases block
    simp only [renderStatement] at rendered
    split at rendered
    · nomatch rendered
    · simp only [bind_eq_some] at rendered
      obtain ⟨nameStr, first, parameterStrs, second, bodyStr, body, rendered⟩ := rendered
      cases rendered
      have keyword : breaksOf (if localize then str "local " else []) = 0 := by
        split <;> simp
      refine ⟨_, bodyStr, _, by rw [nested, if_pos rfl, first, second]; rfl, body, rfl, ?_⟩
      simp [headerBreaks, breaksOf_render first, breaksOf_renderParameters,
        breaksOf_renderEach second, keyword]
      omega
  | methodDeclaration expression name params hasDotDotDot stmts =>
    cases block
    simp only [renderStatement, bind_eq_some] at rendered
    obtain ⟨expressionStr, first, parameterStrs, second, bodyStr, body, rendered⟩ := rendered
    cases rendered
    refine ⟨_, bodyStr, _, by rw [nested, if_pos rfl, first, second]; rfl, body, rfl, ?_⟩
    simp [headerBreaks, breaksOf_render first, breaksOf_renderParameters,
      breaksOf_renderEach second]
    omega
  | _ => nomatch block

/-! ### Lines -/

section Lines

variable {renderer : Renderer}

/-- The statement at a path is located in the text of its list, on a line that differs from the
given one by its displacement. -/
def Placed (renderer : Renderer) (env : Env) (indent : Nat) (elseIf : Bool)
    (stmts : List Node) (whole : Bytes) (path : Path) (line : Int) : Prop :=
  ∃ before own, locate env indent elseIf stmts path = some (before, own) ∧
    before ++ own <+: whole ∧ (breaksOf before : Int) = line + displacement renderer stmts path

def Inside (renderer : Renderer) (env : Env) (indent : Nat) (elseIf : Bool) (stmt : Node)
    (own : Bytes) (path : Path) (line : Int) : Prop :=
  ∃ branch rest inner text line', path = branch :: rest ∧
    nested env indent elseIf branch stmt = some inner ∧
    inner.statements = branchStatements branch stmt ∧ inner.before ++ text <+: own ∧
    Placed renderer env inner.indent inner.elseIf inner.statements text rest line' ∧
    line = line' + breaksOf inner.before - extraLines renderer branch stmt

lemma placed_first (text : statementText env indent elseIf (nextNonComment stmts) stmt = some own)
    (first : own <+: whole) :
    Placed renderer env indent elseIf (stmt :: stmts) whole [0] 0 :=
  ⟨[], own, by simp [locate, locateInList, text], first, rfl⟩

lemma placed_later {text : Bytes} {rest : Path} {line : Int}
    (own : renderStatement env indent (nextNonComment stmts) stmt = some text)
    (placed : Placed renderer env indent false stmts whole (index :: rest) line) :
    Placed renderer env indent false (stmt :: stmts) (text ++ whole)
      ((index + 1) :: rest) (line + breaksOf text) := by
  obtain ⟨before, inner, found, inside, count⟩ := placed
  have own' : statementText env indent false (nextNonComment stmts) stmt = some text := own
  have located : locate env indent false (stmt :: stmts) ((index + 1) :: rest) =
      some (text ++ before, inner) := by
    cases rest with
    | nil =>
      have found' : locateInList env indent false index stmts = some (before, inner) := found
      simp [locate, locateInList, own', found']
    | cons branch rest =>
      simp only [locate, bind_eq_some] at found
      obtain ⟨⟨front, outer⟩, first, other, there, nested', branches, ⟨behind, last⟩, deep,
        found⟩ := found
      cases found
      simp [locate, locateInList, own', first, there, branches, deep]
  have same : displacement renderer (stmt :: stmts) ((index + 1) :: rest) =
      displacement renderer stmts (index :: rest) := by
    cases rest <;> rfl
  refine ⟨text ++ before, inner, located, ?_, ?_⟩
  · rw [append_assoc]
    exact (prefix_append_right_inj _).mpr inside
  · rw [breaksOf_append, Int.natCast_add, count, same]
    omega

lemma placed_inside {line : Int}
    (text : statementText env indent elseIf (nextNonComment stmts) stmt = some own)
    (first : own <+: whole) (inside : Inside renderer env indent elseIf stmt own path line) :
    Placed renderer env indent elseIf (stmt :: stmts) whole (0 :: path) line := by
  obtain ⟨branch, rest, inner, innerText, line', rfl, branches, same, within,
    ⟨before, last, found, deepest, count⟩, rfl⟩ := inside
  refine ⟨inner.before ++ before, last, ?_, ?_, ?_⟩
  · simp [locate, locateInList, text, branches, found]
  · rw [append_assoc]
    exact ((prefix_append_right_inj _).mpr deepest).trans (within.trans first)
  · rw [displacement, List.getElem?_cons_zero]
    dsimp only
    rw [← same, breaksOf_append, Int.natCast_add, count]
    omega

lemma breaksOf_renderSourceMapStatement {text : Bytes}
    (rendered : renderer.renderSourceMapStatement stmt = some text) :
    breaksOf text = lineBreaks renderer.env.anonymous stmt := by
  have count := breaksOf_renderStatements rendered
  rw [count, lineBreaksEach, lineBreaksEach]
  rfl

lemma statementListLineCount_eq {count : Nat}
    (counted : renderer.statementListLineCount stmts = some count) :
    count = lineBreaksEach renderer.env.anonymous stmts := by
  induction stmts generalizing count with
  | nil =>
    cases counted
    rfl
  | cons stmt stmts ih =>
    simp only [Renderer.statementListLineCount, bind_eq_some] at counted
    obtain ⟨text, first, rest, others, counted⟩ := counted
    cases counted
    rw [lineBreaksEach, breaksOf_renderSourceMapStatement first, ih others]

lemma breaksOf_ifKeyword : breaksOf (ifKeyword elseIf) = 0 := by
  cases elseIf <;> simp [ifKeyword]

lemma breaksOf_argumentsText (texts : List Bytes) :
    breaksOf (argumentsText texts) = sumBreaks texts := by
  induction texts with
  | nil => rfl
  | cons text texts ih =>
    have step : argumentsText (text :: texts) = text ++ str ", " ++ argumentsText texts := rfl
    rw [step, breaksOf_append, breaksOf_append, ih]
    simp

variable {fullRendered : Bytes} {line : Nat} {maps : List Mapping}
variable (same : env.anonymous = renderer.env.anonymous)

/-- A branch of a statement is a list whose text begins some lines below, and the extra ones. -/
def Holds (renderer : Renderer) (env : Env) (indent : Nat) (elseIf : Bool) (stmt : Node)
    (own : Bytes) (branch : Nat) (stmts : List Node) (shift : Nat) : Prop :=
  ∃ header text, nested env indent elseIf branch stmt = some ⟨header, indent + 1, false, stmts⟩ ∧
    renderStatements env (indent + 1) false stmts = some text ∧ header ++ text <+: own ∧
    branchStatements branch stmt = stmts ∧
    (breaksOf header : Int) = shift + extraLines renderer branch stmt

include same

lemma holds_call {functionRendered beforeFunction : Bytes}
    (there : args[branch]? = some (.functionExpression params hasDotDotDot stmts))
    (some' : stmts ≠ [])
    (rendered : renderStatement env indent next (.callStatement (.callExpression expression args)) =
      some own)
    (full : renderer.renderSourceMapStatement (.callStatement (.callExpression expression args)) =
      some fullRendered)
    (function : renderer.renderFunction (.functionExpression params hasDotDotDot stmts) =
      some functionRendered)
    (found : cutBefore functionRendered fullRendered = some beforeFunction) :
    Holds renderer env indent false (.callStatement (.callExpression expression args)) own branch
      stmts (breaksOf beforeFunction + 1) := by
  simp only [renderStatement, render, bind_eq_some] at rendered
  obtain ⟨_, ⟨expStr, first, argStrs, second, called⟩, rendered⟩ := rendered
  cases called
  cases rendered
  obtain ⟨below, same'⟩ := List.getElem?_eq_some_iff.mp there
  have split : args = args.take branch ++ args[branch] :: args.drop (branch + 1) := by
    rw [getElem_cons_drop, take_append_drop]
  rw [split, same'] at second
  obtain ⟨frontStrs, behindStrs, front, behind, rfl⟩ := renderEach_append second
  have full' : stmts.isEmpty = false := isEmpty_eq_false_iff.mpr some'
  simp only [renderEach, render, bind_eq_some, full'] at behind
  obtain ⟨_, ⟨parameterStrs, third, bodyStr, body, written⟩, otherStrs, _, behind⟩ := behind
  cases written
  cases behind
  refine ⟨indented indent (expStr ++ str "(" ++ argumentsText frontStrs ++ str "function(" ++
    renderParameters parameterStrs hasDotDotDot ++ str ")\n"), bodyStr, ?_, body, ?_, ?_, ?_⟩
  · rw [nested, first, front]
    simp only [there, third, full', Option.bind_eq_bind, Option.bind_some]
    rfl
  · obtain ⟨tail, joined⟩ := commaSeparated_split frontStrs (str "function(" ++
      renderParameters parameterStrs hasDotDotDot ++ str ")\n" ++ bodyStr ++
        indented indent (str "end")) otherStrs
    rw [joined, lineWithEnd]
    simp only [indented, append_assoc, prefix_append_right_inj]
    exact prefix_append _ _
  · rw [branchStatements, there]
  · simp only [extraLines, argumentBreaks, foundBreaks, there, full, function, found,
      breaksOf_indented, breaksOf_append, breaksOf_render first, breaksOf_argumentsText,
      breaksOf_renderEach front, breaksOf_renderParameters, breaksOf_renderEach third, same,
      Option.map_some, Option.getD_some]
    simp
    omega

lemma holds_block (block : blockOf stmt = some stmts)
    (rendered : renderStatement env indent next stmt = some own) :
    Holds renderer env indent false stmt own 0 stmts 1 := by
  obtain ⟨header, bodyStr, last, found, body, rfl, lines⟩ := block_text block rendered
  have extra : branchStatements 0 stmt = stmts ∧
      extraLines renderer 0 stmt = headerBreaks env.anonymous stmt := by
    cases stmt <;> simp_all [blockOf, branchStatements, extraLines]
  refine ⟨header, bodyStr, found, body, prefix_append _ _, extra.1, ?_⟩
  rw [extra.2, lines]
  rfl

lemma holds_then
    (rendered : statementText env indent elseIf next (.ifStatement cond stmts elseBody) =
      some own) :
    Holds renderer env indent elseIf (.ifStatement cond stmts elseBody) own 0 stmts
      1 := by
  obtain ⟨conditionStr, bodyStr, elseStr, tail, first, second, third, rfl⟩ :=
    ifStatement_text rendered
  refine ⟨_, bodyStr, by rw [nested, first]; rfl, second,
    (prefix_append_right_inj _).mpr (prefix_append _ _), rfl, ?_⟩
  simp [extraLines, headerBreaks, breaksOf_render first, same, breaksOf_ifKeyword]
  omega

/-! ### The walk -/

variable {positions : Positions} {others : List Mapping} {placed : Path → Int → Prop}

/-- Every start among the mappings lies below a path, at a place of the given kind, with its line
counted from another. -/
def Records (path : Path) (line : Nat) (placed : Path → Int → Prop) (maps : List Mapping) : Prop :=
  ∀ mapping ∈ maps, mapping.isEnd = false →
    ∃ rest, mapping.path = path ++ rest ∧ placed rest (mapping.generatedLine - line)

omit same

lemma records_nil : Records path line placed [] := fun _ mem => by cases mem

lemma Records.append (first : Records path line placed maps)
    (second : Records path line placed others) :
    Records path line placed (maps ++ others) := forall_mem_append.mpr ⟨first, second⟩

lemma Records.mono {path' : Path} {line' : Nat} {placed' : Path → Int → Prop}
    (records : Records path' line' placed' maps)
    (within : ∀ rest offset, placed' rest offset →
      ∃ tail, path' ++ rest = path ++ tail ∧ placed tail (offset + line' - line)) :
    Records path line placed maps := by
  intro mapping mem isStart
  obtain ⟨rest, atPath, there⟩ := records mapping mem isStart
  obtain ⟨tail, below, there⟩ := within rest _ there
  exact ⟨tail, atPath.trans below, by rwa [Int.sub_add_cancel] at there⟩

lemma records_start {rest : Path} {line' : Nat} (there : placed rest (line' - line)) :
    Records path line placed (addStartMapping positions (path ++ rest) line') := by
  intro mapping mem _
  obtain ⟨source, _, rfl⟩ := mem_map.mp mem
  exact ⟨rest, rfl, there⟩

variable {path' : Path} {line' : Nat}

lemma records_end : Records path line placed (addEndMapping positions path' line') := by
  intro mapping mem isStart
  obtain ⟨source, _, rfl⟩ := mem_map.mp mem
  nomatch isStart

lemma records_blockEnd (recorded : addBlockEnd renderer positions path' stmt line' = some maps) :
    Records path line placed maps := by
  simp only [addBlockEnd, bind_eq_some] at recorded
  obtain ⟨rendered, _, recorded⟩ := recorded
  cases recorded
  split
  · exact records_end
  · exact records_nil

def PlacedFrom (renderer : Renderer) (env : Env) (indent index : Nat) (stmts : List Node)
    (whole : Bytes) (path : Path) (line : Int) : Prop :=
  ∃ offset rest, path = (index + offset) :: rest ∧
    Placed renderer env indent false stmts whole (offset :: rest) line

/-- A statement in the branches behind the first one, which begin below a line. -/
def PlacedElse (renderer : Renderer) (env : Env) (indent : Nat) (elseBody : Node) (whole : Bytes)
    (path : Path) (line : Int) : Prop :=
  ∃ rest, path = 1 :: rest ∧
    match elseBody with
    | .elseList stmts =>
      stmts ≠ [] ∧ ∃ text, whole = Render.line indent (str "else") ++ text ∧
        Placed renderer env (indent + 1) false stmts text rest (line - 2)
    | .ifStatement _ _ _ => Placed renderer env indent true [elseBody] whole rest (line - 1)
    | _ => False

/-- Every start that the walk records for a list is placed in it, in any context that renders the
list. -/
def ListRecorded (renderer : Renderer) (positions : Positions) (env : Env)
    (stmts : List Node) : Prop :=
  ∀ {indent index line : Nat} {path : Path} {hasFinalStatement : Bool} {whole : Bytes}
    {maps : List Mapping},
    renderStatements env indent hasFinalStatement stmts = some whole →
    addStatementListMappings renderer positions path index line stmts = some maps →
    Records path line (PlacedFrom renderer env indent index stmts whole) maps

def InnerRecorded (renderer : Renderer) (positions : Positions) (env : Env) (stmt : Node) : Prop :=
  ∀ {indent line : Nat} {path : Path} {next : Option Node} {own : Bytes}
    {maps : List Mapping}, renderStatement env indent next stmt = some own →
    addInnerMappings renderer positions path line stmt = some maps →
    Records path line (Inside renderer env indent false stmt own) maps

def ElseRecorded (renderer : Renderer) (positions : Positions) (env : Env)
    (elseBody : Node) : Prop :=
  ∀ {indent line : Nat} {path : Path} {elseStr : Bytes} {maps : List Mapping},
    renderElse env indent elseBody = some elseStr →
    addElseMappings renderer positions path line elseBody = some maps →
    Records path line (PlacedElse renderer env indent elseBody elseStr) maps

def FunctionRecorded (renderer : Renderer) (positions : Positions) (env : Env)
    (argument : Node) : Prop :=
  ∀ {params : List Node} {hasDotDotDot : Bool} {stmts : List Node},
    argument = .functionExpression params hasDotDotDot stmts →
    ListRecorded renderer positions env stmts

lemma addInnerMappings_block (block : blockOf stmt = some stmts)
    (recorded : addInnerMappings renderer positions path line stmt = some maps) :
    ∃ inner last, addStatementListMappings renderer positions (path ++ [0]) 0 (line + 1)
        stmts = some inner ∧ maps = inner ++ last ∧
      Records path line placed last := by
  cases stmt with
  | doStatement _ | whileStatement _ _ | numericForStatement _ _ _ _ _ | forStatement _ _ _
  | functionDeclaration _ _ _ _ _ | methodDeclaration _ _ _ _ _ =>
    cases block
    simp only [addInnerMappings, bind_eq_some] at recorded
    obtain ⟨inner, walked, last, ended, recorded⟩ := recorded
    cases recorded
    exact ⟨inner, last, walked, rfl, records_blockEnd ended⟩
  | repeatStatement cond stmts =>
    cases block
    exact ⟨maps, [], recorded, (append_nil _).symm, records_nil⟩
  | _ => nomatch block

variable (list : ListRecorded renderer positions env stmts)
include list

lemma records_inside {shift : Nat}
    (holds : Holds renderer env indent elseIf stmt own branch stmts shift)
    (walked : addStatementListMappings renderer positions (path ++ [branch]) 0 (line + shift)
      stmts = some maps) :
    Records path line (Inside renderer env indent elseIf stmt own) maps := by
  obtain ⟨header, text, found, body, within, same, lines⟩ := holds
  refine (list body walked).mono ?_
  rintro _ offset ⟨index, rest, rfl, there⟩
  rw [Nat.zero_add]
  refine ⟨branch :: index :: rest, append_assoc .., branch, _, _, text, _, rfl, found,
    same.symm, within, there, ?_⟩
  rw [lines]
  omega

lemma elseRecorded_list :
    ElseRecorded renderer positions env (.elseList stmts) := by
  intro indent line path elseStr maps rendered recorded
  simp only [renderElse, bind_eq_some] at rendered
  obtain ⟨bodyStr, body, rendered⟩ := rendered
  rw [addElseMappings] at recorded
  split at recorded
  · cases recorded
    exact records_nil
  · rename_i some'
    rw [if_neg some'] at rendered
    cases rendered
    refine (list body recorded).mono ?_
    rintro _ offset ⟨index, rest, rfl, placed⟩
    rw [Nat.zero_add]
    refine ⟨1 :: index :: rest, append_assoc .., _, rfl, by simpa using some', bodyStr, rfl, ?_⟩
    convert placed using 1
    omega

omit list in
lemma records_arguments (functions : ∀ offset argument inner, args[offset]? = some argument →
      addFunctionMappings renderer positions path line fullRendered (branch + offset) argument =
        some inner → Records path line placed inner)
    (recorded : addArgumentMappings renderer positions path line fullRendered branch args =
      some maps) : Records path line placed maps := by
  induction args generalizing branch maps with
  | nil =>
    cases recorded
    exact records_nil
  | cons argument args ih =>
    simp only [addArgumentMappings, bind_eq_some] at recorded
    obtain ⟨first, own, rest, walked, recorded⟩ := recorded
    cases recorded
    refine (functions 0 argument first rfl own).append (ih ?_ walked)
    intro offset argument inner there
    rw [Nat.add_right_comm]
    exact functions (offset + 1) argument inner there

include same

omit list in
lemma listRecorded_cons (inner : InnerRecorded renderer positions env stmt)
    (others : ListRecorded renderer positions env stmts) :
    ListRecorded renderer positions env (stmt :: stmts) := by
  intro indent index line path hasFinalStatement whole maps rendered recorded
  rw [renderStatements] at rendered
  split at rendered
  · nomatch rendered
  simp only [bind_eq_some] at rendered
  obtain ⟨own, first, rest, second, rendered⟩ := rendered
  cases rendered
  have own' : statementText env indent false (nextNonComment stmts) stmt = some own := first
  simp only [addStatementListMappings, bind_eq_some] at recorded
  obtain ⟨alone, counted, innerMappings, walked, otherMappings, behind, recorded⟩ := recorded
  cases recorded
  refine ((records_start ?_).append ((inner first walked).mono ?_)).append
    ((others second behind).mono ?_)
  · rw [Int.sub_self]
    exact ⟨0, [], rfl, placed_first own' (prefix_append _ _)⟩
  · intro rest offset inside
    rw [Int.add_sub_cancel]
    exact ⟨index :: rest, append_assoc .., 0, rest, rfl,
      placed_inside own' (prefix_append _ _) inside⟩
  · rintro _ offset ⟨place, rest, rfl, placed⟩
    have later := placed_later first placed
    -- Alone and in its list, the statement has the same lines.
    rw [breaksOf_renderStatement first, same, ← breaksOf_renderSourceMapStatement counted] at later
    refine ⟨_, rfl, place + 1, rest, by congr 1; omega, ?_⟩
    convert later using 1
    omega

omit list in
lemma innerRecorded_block (block : blockOf stmt = some stmts)
    (list : ListRecorded renderer positions env stmts) :
    InnerRecorded renderer positions env stmt := by
  intro indent line path next own maps rendered recorded
  obtain ⟨inner, last, walked, rfl, ends⟩ := addInnerMappings_block block recorded
  exact (records_inside list (holds_block same block rendered) walked).append ends

omit list in
lemma records_else {elseStr : Bytes}
    (rendered : statementText env indent elseIf next (.ifStatement cond stmts elseBody) =
      some own) (behind : renderElse env indent elseBody = some elseStr)
    (records : Records path (line + lineBreaksEach renderer.env.anonymous stmts)
      (PlacedElse renderer env indent elseBody elseStr) maps) :
    Records path line (Inside renderer env indent elseIf (.ifStatement cond stmts elseBody) own)
      maps := by
  obtain ⟨conditionStr, bodyStr, _, tail, first, second, third, rfl⟩ := ifStatement_text rendered
  cases behind.symm.trans third
  let line' := Render.line indent (ifKeyword elseIf ++ conditionStr ++ str " then")
  have header : breaksOf line' = lineBreaks renderer.env.anonymous cond + 1 := by
    simp [line', breaksOf_render first, same, breaksOf_ifKeyword]
  refine records.mono ?_
  rintro _ offset ⟨path, rfl, placed⟩
  refine ⟨1 :: path, rfl, ?_⟩
  cases elseBody with
  | elseList elseStatements =>
    obtain ⟨some', text, rfl, inner⟩ := placed
    refine ⟨1, path, ⟨line' ++ bodyStr ++ Render.line indent (str "else"), indent + 1, false,
      elseStatements⟩, text, _, rfl, ?_, rfl, ⟨tail, ?_⟩, inner, ?_⟩
    · rw [nested, first, second]
      simp only [List.isEmpty_iff, some', Option.bind_eq_bind, Option.bind_some]
      rfl
    · simp only [line', append_assoc]
    · simp [extraLines, headerBreaks, header, breaksOf_renderStatements second, same]
      omega
  | ifStatement cond' stmts' elseBody' =>
    refine ⟨1, path, ⟨line' ++ bodyStr, indent, true, _⟩, elseStr, offset - 1, rfl, ?_, rfl,
      ⟨tail, ?_⟩, placed, ?_⟩
    · rw [nested, first, second]
      rfl
    · simp only [line', append_assoc]
    · simp [extraLines, headerBreaks, header, breaksOf_renderStatements second, same]
      omega
  | _ => exact placed.elim

lemma innerRecorded_if (others : ElseRecorded renderer positions env elseBody) :
    InnerRecorded renderer positions env (.ifStatement cond stmts elseBody) := by
  intro indent line path next own maps rendered recorded
  have own' : statementText env indent false next (.ifStatement cond stmts elseBody) =
    some own := rendered
  obtain ⟨_, _, elseStr, _, _, _, behind, _⟩ := ifStatement_text own'
  simp only [addInnerMappings, bind_eq_some] at recorded
  obtain ⟨inner, walked, bodyLines, counted, branches, walkedElse, last, ended, recorded⟩ :=
    recorded
  cases recorded
  rw [statementListLineCount_eq counted] at walkedElse
  exact ((records_inside list (holds_then same own') walked).append
    (records_else same own' behind (others behind walkedElse))).append (records_blockEnd ended)

lemma elseRecorded_if (others : ElseRecorded renderer positions env elseBody) :
    ElseRecorded renderer positions env (.ifStatement cond stmts elseBody) := by
  intro indent line path elseStr maps rendered recorded
  have own' : statementText env indent true (nextNonComment [])
    (.ifStatement cond stmts elseBody) = some elseStr := rendered
  have whole := prefix_refl elseStr
  obtain ⟨_, _, elseStr, _, _, _, behind, _⟩ := ifStatement_text own'
  simp only [addElseMappings, bind_eq_some] at recorded
  obtain ⟨inner, walked, bodyLines, counted, branches, walkedElse, recorded⟩ := recorded
  cases recorded
  rw [statementListLineCount_eq counted] at walkedElse
  rw [append_assoc]
  refine (records_start ⟨[0], rfl, ?_⟩).append (((records_inside list (holds_then same own')
    walked).append (records_else same own' behind (others behind walkedElse))).mono ?_)
  · intro rest offset inside
    refine ⟨1 :: 0 :: rest, append_assoc .., _, rfl, ?_⟩
    convert placed_inside own' whole inside using 1
    omega
  · convert placed_first own' whole using 1
    omega

omit list

lemma innerRecorded_call
    (functions : ∀ argument ∈ args, FunctionRecorded renderer positions env argument) :
    InnerRecorded renderer positions env (.callStatement (.callExpression expression args)) := by
  intro indent line path next own maps rendered recorded
  simp only [addInnerMappings, addCallMappings, bind_eq_some] at recorded
  obtain ⟨fullRendered, full, recorded⟩ := recorded
  refine records_arguments (fun branch argument maps there recorded => ?_) recorded
  rw [Nat.zero_add] at recorded
  unfold addFunctionMappings at recorded
  split at recorded
  · rename_i params hasDotDotDot stmts
    obtain ⟨functionRendered, function, recorded⟩ := Option.bind_eq_some_iff.mp recorded
    split at recorded
    · cases recorded
      exact records_nil
    · rename_i beforeFunction found
      obtain ⟨inner, walked, recorded⟩ := Option.bind_eq_some_iff.mp recorded
      cases recorded
      refine Records.append ?_ (by split; exacts [records_end, records_nil])
      by_cases some' : stmts = []
      · subst some'
        cases walked
        exact records_nil
      · rw [Nat.add_assoc] at walked
        exact records_inside (functions _ (mem_of_getElem? there) rfl)
          (holds_call same there some' rendered full function found) walked
  · cases recorded
    exact records_nil

omit same

mutual

theorem listRecorded (same : env.anonymous = renderer.env.anonymous) (stmts : List Node) :
    ListRecorded renderer positions env stmts :=
  match stmts with
  | [] => fun _ recorded => by
    cases recorded
    exact records_nil
  | stmt :: stmts =>
    listRecorded_cons same (innerRecorded same stmt) (listRecorded same stmts)

theorem innerRecorded (same : env.anonymous = renderer.env.anonymous) (stmt : Node) :
    InnerRecorded renderer positions env stmt := by
  cases stmt with
  | doStatement stmts | whileStatement _ stmts | repeatStatement _ stmts
  | numericForStatement _ _ _ _ stmts | forStatement _ _ stmts
  | functionDeclaration _ _ _ _ stmts | methodDeclaration _ _ _ _ stmts =>
    exact innerRecorded_block same rfl (listRecorded same stmts)
  | ifStatement _ stmts elseBody =>
    exact innerRecorded_if same (listRecorded same stmts) (elseRecorded same elseBody)
  | callStatement expression =>
    cases expression with
    | callExpression _ args => exact innerRecorded_call same (functionsRecorded same args)
    | _ =>
      intro _ _ _ _ _ _ _ recorded
      cases recorded
      exact records_nil
  | _ =>
    intro _ _ _ _ _ _ _ recorded
    cases recorded
    exact records_nil

theorem elseRecorded (same : env.anonymous = renderer.env.anonymous) (elseBody : Node) :
    ElseRecorded renderer positions env elseBody := by
  cases elseBody with
  | elseList stmts => exact elseRecorded_list (listRecorded same stmts)
  | ifStatement _ stmts elseBody =>
    exact elseRecorded_if same (listRecorded same stmts) (elseRecorded same elseBody)
  | _ =>
    intro _ _ _ _ _ _ recorded
    cases recorded
    exact records_nil

theorem functionsRecorded (same : env.anonymous = renderer.env.anonymous) (args : List Node) :
    ∀ argument ∈ args, FunctionRecorded renderer positions env argument :=
  match args with
  | [] => nofun
  | argument :: args => forall_mem_cons.mpr
      ⟨functionRecorded same argument, functionsRecorded same args⟩

theorem functionRecorded (same : env.anonymous = renderer.env.anonymous) (argument : Node) :
    FunctionRecorded renderer positions env argument := by
  intro params hasDotDotDot stmts function
  cases argument with
  | functionExpression _ _ inner =>
    have recorded : ListRecorded renderer positions env inner := listRecorded same inner
    cases function
    exact @recorded
  | _ => nomatch function

end

end Lines

/-- The own text of the statement at a path begins on a line of the whole text. -/
def BeginsOn (renderer : Renderer) (stmts : List Node) (path : Path) (line : Nat) : Prop :=
  ∃ text before own rest, renderer.renderAST stmts = some text ∧
    locate (renderer.solved stmts) 0 false stmts path = some (before, own) ∧
    text = before ++ own ++ rest ∧ line = breaksOf before

/-- A recorded line is the line of its statement exactly when the statement is not displaced. -/
theorem beginsOn_iff_displacement {renderer : Renderer} {positions : Positions}
    {stmts : List Node} {text : Bytes} {maps : List Mapping} {mapping : Mapping}
    (rendered : renderer.renderAST stmts = some text)
    (recorded : renderSourceMap renderer positions stmts = some maps)
    (member : mapping ∈ maps) (isStart : mapping.isEnd = false) :
    BeginsOn renderer stmts mapping.path mapping.generatedLine ↔
      displacement renderer stmts mapping.path = 0 := by
  have same : (renderer.solved stmts).anonymous = renderer.env.anonymous := rfl
  obtain ⟨_, atPath, offset, rest, rfl, placed⟩ :=
    listRecorded same stmts rendered recorded mapping member isStart
  rw [Nat.zero_add, nil_append] at atPath
  rw [← atPath, Int.natCast_zero, Int.sub_zero] at placed
  obtain ⟨before, own, found, ⟨behind, whole⟩, line⟩ := placed
  constructor
  · rintro ⟨_, before', own', _, _, found', _, exact'⟩
    rw [found] at found'
    cases found'
    omega
  · intro still
    exact ⟨text, before, own, behind, rendered, found, whole.symm, by omega⟩

end Rotor.Transformer.SourceLines
