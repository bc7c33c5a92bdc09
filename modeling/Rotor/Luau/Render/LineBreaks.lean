import Rotor.Luau.Render.Render
import Mathlib.Algebra.BigOperators.Group.List.Basic
import Mathlib.Algebra.GroupWithZero.Nat

/-!
The number of lines of a rendered node.

Neither the indentation nor the names of temporaries add lines to a text, so the line breaks of a
node are the same wherever it is rendered.
-/

namespace Rotor.Luau.Render

open List

def breaksOf (text : Bytes) : Nat := text.count 10

@[simp]
lemma breaksOf_nil : breaksOf [] = 0 := rfl

@[simp]
lemma breaksOf_append (first others : Bytes) :
    breaksOf (first ++ others) = breaksOf first + breaksOf others := count_append

@[simp]
lemma breaksOf_str (text : String) :
    breaksOf (str text) = (text.toList.map fun char => char.toNat.toUInt8).count 10 := rfl

def sumBreaks (texts : List Bytes) : Nat := (texts.map breaksOf).sum

@[simp]
lemma sumBreaks_nil : sumBreaks [] = 0 := rfl

@[simp]
lemma sumBreaks_cons (text : Bytes) (texts : List Bytes) :
    sumBreaks (text :: texts) = breaksOf text + sumBreaks texts := rfl

@[simp]
lemma sumBreaks_append (first others : List Bytes) :
    sumBreaks (first ++ others) = sumBreaks first + sumBreaks others := by simp [sumBreaks]

@[simp]
lemma breaksOf_flatten (texts : List Bytes) : breaksOf texts.flatten = sumBreaks texts :=
  count_flatten

mutual

def lineBreaks (env : Env) (node : Node) : Nat :=
  match node with
  | .computedIndexExpression expression index => lineBreaks env expression + lineBreaks env index
  | .propertyAccessExpression expression name => lineBreaks env expression + breaksOf name
  | .callExpression expression args | .methodCallExpression _ expression args =>
    lineBreaks env expression + lineBreaksEach env args
  | .parenthesizedExpression expression => lineBreaks env expression
  | .numberLiteral value => breaksOf (renderNumberLiteral env value)
  | .stringLiteral value => breaksOf value
  | .functionExpression parameters _ statements =>
    lineBreaksEach env parameters +
      if statements.isEmpty then 0 else 1 + lineBreaksEach env statements
  | .binaryExpression left _ right => lineBreaks env left + lineBreaks env right
  | .unaryExpression _ expression => lineBreaks env expression
  | .ifExpression condition expression alternative =>
    lineBreaks env condition + lineBreaks env expression + lineBreaks env alternative
  | .interpolatedString parts => lineBreaksEach env parts
  | .array members => lineBreaksEach env members
  | .map fields | .mixedTable fields | .set fields =>
    if fields.isEmpty then 0 else 1 + lineBreaksEach env fields + fields.length
  | .mapField index value => lineBreaks env index + lineBreaks env value
  | .interpolatedStringPart text => breaksOf (renderInterpolatedStringPart text)
  | .assignment left _ right => lineBreaksEach env left + lineBreaksEach env right + 1
  | .breakStatement | .continueStatement => 1
  | .callStatement expression => lineBreaks env expression + 1
  | .doStatement statements => lineBreaksEach env statements + 2
  | .whileStatement condition statements | .repeatStatement condition statements =>
    lineBreaks env condition + lineBreaksEach env statements + 2
  | .ifStatement condition statements elseBody =>
    lineBreaks env condition + lineBreaksEach env statements + elseBreaks env elseBody + 2
  | .numericForStatement id start limit step statements =>
    lineBreaks env id + lineBreaks env start + lineBreaks env limit + stepBreaks env step +
      lineBreaksEach env statements + 2
  | .forStatement ids expression statements =>
    lineBreaksEach env ids + lineBreaks env expression + lineBreaksEach env statements + 2
  | .functionDeclaration _ name parameters _ statements =>
    lineBreaks env name + lineBreaksEach env parameters + lineBreaksEach env statements + 2
  | .methodDeclaration expression name parameters _ statements =>
    lineBreaks env expression + breaksOf name + lineBreaksEach env parameters +
      lineBreaksEach env statements + 2
  | .variableDeclaration left right => lineBreaksEach env left + lineBreaksEach env right + 1
  | .returnStatement expression => lineBreaksEach env expression + 1
  | .comment text => breaksOf (renderComment 0 text)
  | _ => 0

def lineBreaksEach (env : Env) : List Node → Nat
  | [] => 0
  | node :: nodes => lineBreaks env node + lineBreaksEach env nodes

def stepBreaks (env : Env) : Option Node → Nat
  | none => 0
  | some step =>
    match step with
    | .numberLiteral value =>
      if env.isOne value then 0 else breaksOf (renderNumberLiteral env value)
    | _ => lineBreaks env step

def elseBreaks (env : Env) (node : Node) : Nat :=
  match node with
  | .ifStatement condition statements elseBody =>
    lineBreaks env condition + lineBreaksEach env statements + elseBreaks env elseBody + 1
  | .elseList statements =>
    if statements.isEmpty then 0 else lineBreaksEach env statements + 1
  | _ => 0

end

def Env.anonymous (env : Env) : Env := { env with tempName := fun _ => [] }

lemma renderNumberLiteral_anonymous (env : Env) (val : Bytes) :
    renderNumberLiteral env.anonymous val = renderNumberLiteral env val := rfl

lemma isOne_anonymous (env : Env) (val : Bytes) : env.anonymous.isOne val = env.isOne val := rfl

lemma bind_eq_some {α β : Type} {x : Option α} {f : α → Option β} {b : β} :
    x >>= f = some b ↔ ∃ a, x = some a ∧ f a = some b := Option.bind_eq_some_iff

/-! ### Pieces of text -/

variable {name : Bytes} {env : Env} {indent : Nat} {texts : List Bytes}

lemma breaksOf_identifier (valid : isValidIdentifier name) : breaksOf name = 0 := by
  refine count_eq_zero_of_not_mem fun mem => ?_
  cases name with
  | nil => nomatch mem
  | cons c rest =>
    simp only [isValidIdentifier, Bool.and_eq_true, all_eq_true] at valid
    rcases mem_cons.mp mem with rfl | behind
    · exact absurd valid.1.1 (by decide)
    · exact absurd (valid.1.2 10 behind) (by decide)

lemma breaksOf_join {separator : Bytes} (oneLine : breaksOf separator = 0) (texts : List Bytes) :
    breaksOf (join separator texts) = sumBreaks texts := by
  induction texts with
  | nil => rfl
  | cons text texts ih =>
    cases texts with
    | nil => simp [join]
    | cons second texts =>
      rw [join, breaksOf_append, breaksOf_append, ih, sumBreaks_cons, oneLine]
      · rfl
      · exact cons_ne_nil _ _

@[simp]
lemma breaksOf_commaSeparated (texts : List Bytes) :
    breaksOf (commaSeparated texts) = sumBreaks texts := breaksOf_join (by simp) texts

lemma breaksOf_repeatByte {byte : UInt8} (other : byte ≠ 10) (count : Nat) :
    breaksOf (repeatByte byte count) = 0 :=
  count_eq_zero_of_not_mem fun mem => other (mem_replicate.mp mem).2.symm

@[simp]
lemma breaksOf_indented (indent : Nat) (text : Bytes) :
    breaksOf (indented indent text) = breaksOf text := by
  rw [indented, breaksOf_append, breaksOf_repeatByte (by decide), Nat.zero_add]

@[simp]
lemma breaksOf_line (indent : Nat) (text : Bytes) :
    breaksOf (line indent text) = breaksOf text + 1 := by
  rw [line, breaksOf_append, breaksOf_indented]
  simp

@[simp]
lemma breaksOf_lineWithEnd (indent : Nat) (text : Bytes) (node : Node) (next : Option Node) :
    breaksOf (lineWithEnd indent text node next) = breaksOf text + 1 := by
  have ending : breaksOf (getEnding node next) = 0 := by
    rw [getEnding]
    split
    · simp
    · rfl
  rw [lineWithEnd, breaksOf_append, breaksOf_append, ending, breaksOf_indented]
  simp

@[simp]
lemma breaksOf_parenthesize (needed : Bool) (text : Bytes) :
    breaksOf (parenthesize needed text) = breaksOf text := by
  cases needed with
  | true => simp [parenthesize]
  | false => simp [parenthesize]

lemma breaksOf_renderStringLiteral (slot : Slot) (val : Bytes) :
    breaksOf (renderStringLiteral slot val) = breaksOf val := by
  have equals : breaksOf (getSafeBracketEquals val) = 0 := breaksOf_repeatByte (by decide) _
  unfold renderStringLiteral
  dsimp only
  split
  · simp
  · split
    · simp
    · cases slot <;> simp [equals]

lemma sumBreaks_lines (indent : Nat) (texts : List Bytes) :
    sumBreaks (texts.map (line indent)) = sumBreaks texts + texts.length := by
  induction texts with
  | nil => rfl
  | cons text texts ih =>
    simp only [map_cons, sumBreaks_cons, breaksOf_line, ih, length_cons]
    omega

lemma breaksOf_renderTable (indent : Nat) (fields : List Bytes) :
    breaksOf (renderTable indent fields) =
      if fields.isEmpty then 0 else 1 + sumBreaks fields + fields.length := by
  rw [renderTable]
  split
  · simp
  · simp [sumBreaks_lines]
    omega

lemma breaksOf_renderComment (indent : Nat) (source : Bytes) :
    breaksOf (renderComment indent source) = breaksOf (renderComment 0 source) := by
  rw [renderComment, renderComment]
  split
  · simp [sumBreaks_lines]
  · simp

lemma breaksOf_renderParameters (params : List Bytes) (hasDotDotDot : Bool) :
    breaksOf (renderParameters params hasDotDotDot) = sumBreaks params := by
  cases hasDotDotDot with
  | true => simp [renderParameters]
  | false => simp [renderParameters]

lemma breaksOf_ids (texts : List Bytes) :
    breaksOf (if (commaSeparated texts).isEmpty then str "_" else commaSeparated texts) =
      sumBreaks texts := by
  rw [← breaksOf_commaSeparated]
  split
  · rename_i empty
    simp [List.isEmpty_iff.mp empty]
  · rfl

lemma breaksOf_fieldName (env : Env) {idx : Node} (found : fieldName idx = some name) :
    breaksOf name = 0 ∧ lineBreaks env idx = 0 := by
  cases idx with
  | stringLiteral val =>
    simp only [fieldName] at found
    split at found
    · rename_i valid
      cases found
      exact ⟨breaksOf_identifier valid, by simp [lineBreaks, breaksOf_identifier valid]⟩
    · nomatch found
  | _ => nomatch found

lemma renderEach_length {slot : Slot} {nodes : List Node}
    (rendered : renderEach env indent slot nodes = some texts) : texts.length = nodes.length := by
  induction nodes generalizing texts with
  | nil =>
    cases rendered
    rfl
  | cons node nodes ih =>
    simp only [renderEach, bind_eq_some] at rendered
    obtain ⟨text, _, others, rest, rendered⟩ := rendered
    cases rendered
    rw [length_cons, length_cons, ih rest]

lemma breaksOf_fields {inner : Nat} {slot : Slot} {nodes : List Node}
    (rendered : renderEach env inner slot nodes = some texts)
    (each : sumBreaks texts = lineBreaksEach env.anonymous nodes) {field : Bytes → Bytes}
    (oneLine : ∀ text, breaksOf (field text) = breaksOf text) :
    breaksOf (renderTable indent (texts.map field)) =
      if nodes.isEmpty then 0 else 1 + lineBreaksEach env.anonymous nodes + nodes.length := by
  have count := renderEach_length rendered
  have same : sumBreaks (texts.map field) = sumBreaks texts := by
    rw [sumBreaks, map_map]
    exact congrArg List.sum (map_congr_left fun text _ => oneLine text)
  have empty : (texts.map field).isEmpty = nodes.isEmpty := by
    rw [isEmpty_map, Bool.eq_iff_iff, isEmpty_iff_length_eq_zero, isEmpty_iff_length_eq_zero, count]
  rw [breaksOf_renderTable, empty, same, each, length_map, count]

/-! ### Rendered nodes -/

def Counted {α : Type} (measure : α → Nat) (rendered : Option α) (count : Nat) : Prop :=
  ∀ ⦃text⦄, rendered = some text → measure text = count

section Counted

variable {α β : Type} {measure : α → Nat} {measure' : β → Nat} {count count' : Nat}

lemma Counted.some {text : α} (same : measure text = count) :
    Counted measure (some text) count := by
  rintro _ ⟨⟩
  exact same

lemma Counted.none : Counted measure none count := nofun

lemma Counted.bind {rendered : Option α} {rest : α → Option β}
    (first : Counted measure rendered count)
    (others : ∀ text, measure text = count → Counted measure' (rest text) count') :
    Counted measure' (rendered >>= rest) count' := by
  intro whole found
  obtain ⟨text, own, found⟩ := bind_eq_some.mp found
  exact others text (first own) found

end Counted

lemma counted_nonemptyList : Counted breaksOf (nonemptyList texts) (sumBreaks texts) := by
  rw [nonemptyList]
  split
  · exact .none
  · exact .some (breaksOf_commaSeparated texts)

lemma counted_identifier :
    Counted breaksOf (if isValidIdentifier name then some name else none) 0 := by
  split
  · rename_i valid
    exact .some (breaksOf_identifier valid)
  · exact .none

lemma breaksOf_alternative {count : Nat} {node : Node}
    (behind : Counted breaksOf (renderElseif env indent node) count)
    (own : Counted breaksOf (render env indent .ifPart node) count) :
    Counted breaksOf (if node.isIfExpression then renderElseif env indent node
      else renderWith (str "else ") (render env indent .ifPart node)) count := by
  split
  · exact behind
  · intro text rendered
    obtain ⟨inner, last, rfl⟩ := Option.map_eq_some_iff.mp rendered
    simp [own last]

mutual

variable {env : Env}

theorem breaksOf_render {indent : Nat} {slot : Slot} {node : Node} :
    Counted breaksOf (render env indent slot node) (lineBreaks env.anonymous node) := by
  cases node with
  | identifier name => exact counted_identifier
  | temporaryIdentifier _ id _ => exact counted_identifier
  | computedIndexExpression expr idx =>
    refine breaksOf_render.bind fun _ own => breaksOf_render.bind fun _ ofIndex => ?_
    split
    · rename_i found
      have field := breaksOf_fieldName env.anonymous found
      exact .some (by simp [lineBreaks, own, field])
    · exact .some (by simp [lineBreaks, own, ofIndex])
  | propertyAccessExpression expr name =>
    refine breaksOf_render.bind fun _ own => ?_
    split
    · exact .some (by simp [lineBreaks, own])
    · exact .some (by simp [lineBreaks, own])
  | callExpression expr args =>
    refine breaksOf_render.bind fun _ own => breaksOf_renderEach.bind fun _ each => .some ?_
    simp [lineBreaks, own, each]
  | parenthesizedExpression expr =>
    exact breaksOf_render.bind fun _ own => .some (by simp [lineBreaks, own])
  | nilLiteral | falseLiteral | trueLiteral | varArgsLiteral =>
    exact .some (by simp [lineBreaks])
  | numberLiteral val => exact .some (by simp [lineBreaks, renderNumberLiteral_anonymous])
  | stringLiteral val => exact .some (by simp [lineBreaks, breaksOf_renderStringLiteral])
  | methodCallExpression name expr args =>
    rw [render]
    split
    · rename_i valid
      refine breaksOf_render.bind fun _ own => breaksOf_renderEach.bind fun _ each => .some ?_
      simp [lineBreaks, own, each, breaksOf_identifier valid]
    · exact .none
  | functionExpression params hasDotDotDot stmts =>
    refine breaksOf_renderEach.bind fun _ head => breaksOf_renderStatements.bind fun _ body => ?_
    split
    · rename_i empty
      exact .some (by simp [lineBreaks, empty, breaksOf_renderParameters, head])
    · rename_i some'
      exact .some (by simp [lineBreaks, some', breaksOf_renderParameters, head, body])
  | binaryExpression left op right =>
    refine breaksOf_render.bind fun _ first => breaksOf_render.bind fun _ second => .some ?_
    have sym : breaksOf (str op.text) = 0 := by cases op <;> rfl
    simp only [breaksOf_parenthesize, breaksOf_append, sym, first, second, lineBreaks]
    simp
  | unaryExpression op expr =>
    refine breaksOf_render.bind fun _ own => .some ?_
    have sym : breaksOf (str op.text) = 0 := by cases op <;> rfl
    have space : breaksOf (if unaryNeedsSpace op expr then str " " else []) = 0 := by
      split <;> simp
    simp only [breaksOf_parenthesize, breaksOf_append, sym, space, own, lineBreaks]
    simp
  | ifExpression cond expr alt =>
    refine breaksOf_render.bind fun _ first => breaksOf_render.bind fun _ second =>
      (breaksOf_alternative breaksOf_renderElseif breaksOf_render).bind fun _ third => .some ?_
    simp [lineBreaks, first, second, third]
    omega
  | interpolatedString parts =>
    exact breaksOf_renderParts.bind fun _ own => .some (by simp [lineBreaks, own])
  | array members =>
    refine breaksOf_renderEach.bind fun _ each => ?_
    split
    · rename_i empty
      exact .some (by simp [lineBreaks, List.isEmpty_iff.mp empty, lineBreaksEach])
    · exact .some (by simp [lineBreaks, each])
  | map fields | mixedTable fields | set fields =>
    intro text rendered
    obtain ⟨fieldStrs, first, ⟨⟩⟩ := bind_eq_some.mp rendered
    rw [lineBreaks, breaksOf_fields first (breaksOf_renderEach first) (by simp)]
  | mapField idx val =>
    refine breaksOf_render.bind fun _ own => breaksOf_render.bind fun _ ofIndex => ?_
    split
    · rename_i found
      have field := breaksOf_fieldName env.anonymous found
      exact .some (by simp [lineBreaks, own, field])
    · exact .some (by simp [lineBreaks, own, ofIndex])
  | interpolatedStringPart text => exact .some (by simp [lineBreaks])
  | _ => exact .none

theorem breaksOf_renderEach {indent : Nat} {slot : Slot} {nodes : List Node} :
    Counted sumBreaks (renderEach env indent slot nodes) (lineBreaksEach env.anonymous nodes) := by
  match nodes with
  | [] => exact .some rfl
  | node :: nodes =>
    refine breaksOf_render.bind fun _ own => breaksOf_renderEach.bind fun _ others => .some ?_
    simp [lineBreaksEach, own, others]

theorem breaksOf_renderElseif {indent : Nat} {node : Node} :
    Counted breaksOf (renderElseif env indent node) (lineBreaks env.anonymous node) := by
  intro text rendered
  match node with
  | .ifExpression cond expr alt =>
    refine (breaksOf_render.bind fun _ first => breaksOf_render.bind fun _ second =>
      (breaksOf_alternative breaksOf_renderElseif breaksOf_render).bind fun _ third =>
        .some ?_ : Counted breaksOf _ _) rendered
    simp [lineBreaks, first, second, third]
    omega

theorem breaksOf_renderParts {indent : Nat} {parts : List Node} :
    Counted sumBreaks (renderParts env indent parts) (lineBreaksEach env.anonymous parts) := by
  match parts with
  | [] => exact .some rfl
  | part :: parts =>
    refine breaksOf_render.bind fun _ own => breaksOf_renderParts.bind fun _ others => ?_
    split
    · exact .some (by simp [lineBreaksEach, own, others])
    · exact .some (by simp [lineBreaksEach, own, others, renderHole])

theorem breaksOf_renderStatements {indent : Nat} {hasFinalStatement : Bool}
    {nodes : List Node} : Counted breaksOf (renderStatements env indent hasFinalStatement nodes)
      (lineBreaksEach env.anonymous nodes) := by
  match nodes with
  | [] => exact .some rfl
  | node :: nodes =>
    rw [renderStatements]
    split
    · exact .none
    · exact breaksOf_renderStatement.bind fun _ own => breaksOf_renderStatements.bind
        fun _ others => .some (by simp [lineBreaksEach, own, others])

theorem breaksOf_renderStatement {indent : Nat} {next : Option Node} {node : Node} :
    Counted breaksOf (renderStatement env indent next node) (lineBreaks env.anonymous node) := by
  cases node with
  | assignment left op right =>
    refine breaksOf_renderEach.bind fun _ first => counted_nonemptyList.bind fun _ left' =>
      breaksOf_renderEach.bind fun _ second => counted_nonemptyList.bind fun _ right' => .some ?_
    have sym : breaksOf (str op.text) = 0 := by cases op <;> rfl
    simp only [breaksOf_lineWithEnd, breaksOf_append, first, left', second, right', sym, lineBreaks]
    simp
  | breakStatement | continueStatement => exact .some (by simp [lineBreaks])
  | callStatement expr =>
    exact breaksOf_render.bind fun _ own => .some (by simp [lineBreaks, own])
  | doStatement stmts =>
    refine breaksOf_renderStatements.bind fun _ body => .some ?_
    simp [lineBreaks, body]
    omega
  | whileStatement cond stmts =>
    refine breaksOf_render.bind fun _ own => breaksOf_renderStatements.bind fun _ body => .some ?_
    simp [lineBreaks, own, body]
    omega
  | repeatStatement cond stmts =>
    refine breaksOf_renderStatements.bind fun _ body => breaksOf_render.bind fun _ own => .some ?_
    simp [lineBreaks, own, body]
    omega
  | ifStatement cond stmts elseBody =>
    refine breaksOf_render.bind fun _ own => breaksOf_renderStatements.bind fun _ body =>
      breaksOf_renderElse.bind fun _ last => .some ?_
    simp [lineBreaks, own, body, last]
    omega
  | numericForStatement id start limit step stmts =>
    refine breaksOf_render.bind fun _ first => breaksOf_render.bind fun _ second =>
      breaksOf_render.bind fun _ third => breaksOf_renderStep.bind fun _ fourth =>
      breaksOf_renderStatements.bind fun _ body => .some ?_
    simp [lineBreaks, first, second, third, fourth, body]
    omega
  | forStatement ids expr stmts =>
    refine breaksOf_renderEach.bind fun idStrs first => breaksOf_render.bind fun _ second =>
      breaksOf_renderStatements.bind fun _ body => .some ?_
    simp only [lineBreaks, breaksOf_append, breaksOf_line, breaksOf_ids, first, second, body]
    simp
    omega
  | functionDeclaration localize name params hasDotDotDot stmts =>
    rw [renderStatement]
    split
    · exact .none
    · refine breaksOf_render.bind fun _ first => breaksOf_renderEach.bind fun _ second =>
        breaksOf_renderStatements.bind fun _ body => .some ?_
      have keyword : breaksOf (if localize then str "local " else []) = 0 := by
        split <;> simp
      simp [lineBreaks, breaksOf_renderParameters, first, second, body, keyword]
      omega
  | methodDeclaration expr name params hasDotDotDot stmts =>
    refine breaksOf_render.bind fun _ first => breaksOf_renderEach.bind fun _ second =>
      breaksOf_renderStatements.bind fun _ body => .some ?_
    simp [lineBreaks, breaksOf_renderParameters, first, second, body]
    omega
  | variableDeclaration left right =>
    refine breaksOf_renderEach.bind fun _ first => counted_nonemptyList.bind fun _ left' =>
      breaksOf_renderEach.bind fun _ second => ?_
    split
    · rename_i empty
      exact .some (by simp [lineBreaks, first, left', List.isEmpty_iff.mp empty, lineBreaksEach])
    · exact .some (by simp [lineBreaks, first, left', second])
  | returnStatement expr =>
    exact breaksOf_renderEach.bind fun _ each => .some (by simp [lineBreaks, each])
  | comment source => exact .some (by rw [lineBreaks, breaksOf_renderComment])
  | _ => exact .none

theorem breaksOf_renderStep {indent : Nat} {step : Option Node} :
    Counted breaksOf (renderStep env indent step) (stepBreaks env.anonymous step) := by
  match step with
  | none => exact .some rfl
  | some step =>
    refine breaksOf_render.bind fun _ own => ?_
    split
    · rename_i val
      rw [lineBreaks] at own
      simp only [stepBreaks, isOne_anonymous]
      by_cases one : env.isOne val
      · exact .some (by simp [one])
      · exact .some (by simp [one, own])
    · exact .some (by simp [stepBreaks, own])

theorem breaksOf_renderElse {indent : Nat} {node : Node} :
    Counted breaksOf (renderElse env indent node) (elseBreaks env.anonymous node) := by
  cases node with
  | ifStatement cond stmts elseBody =>
    refine breaksOf_render.bind fun _ own => breaksOf_renderStatements.bind fun _ body =>
      breaksOf_renderElse.bind fun _ last => .some ?_
    simp [elseBreaks, own, body, last]
    omega
  | elseList stmts =>
    refine breaksOf_renderStatements.bind fun _ body => ?_
    split
    · rename_i empty
      exact .some (by simp [elseBreaks, empty])
    · rename_i some'
      exact .some (by simp [elseBreaks, some', body]; omega)
  | _ => exact .some rfl

end

end Rotor.Luau.Render
