import Rotor.Transformer.EnsureOrder

/-!
Calls of macros.

A macro is handed the expressions of its receiver and of its arguments, behind the statements
they need. The elements of a tuple that is spread at the end are declared as temporaries, and so
is each argument that could change.
-/

namespace Rotor.Transformer.CallMacro

open List Lib Function EnsureOrder

/-! ### Expressions that could change -/

/-- The kinds of expressions that `expressionMightMutate` tells apart. -/
inductive Kind where
  | simplePrimitive
  | temporaryIdentifier
  | functionExpression
  | varArgsLiteral
  | parenthesizedExpression (expression : Kind)
  | ifExpression (condition expression alternative : Kind)
  | binaryExpression (left right : Kind)
  | unaryExpression (expression : Kind)
  | array (members : List Kind)
  | set (members : List Kind)
  | map (indices values : List Kind)
  /-- An identifier, an access or a call. -/
  | other

mutual

/-- The flag tells of the node, if one is given, that it is an identifier whose symbol is not
mutable. -/
def expressionMightMutate (isConstVar : Bool) : Kind → Bool
  | .temporaryIdentifier => false
  | .parenthesizedExpression expression => expressionMightMutate false expression
  | .functionExpression => false
  | .varArgsLiteral => false
  | .ifExpression condition expression alternative =>
    expressionMightMutate false condition || expressionMightMutate false expression ||
      expressionMightMutate false alternative
  | .binaryExpression left right =>
    expressionMightMutate false left || expressionMightMutate false right
  | .unaryExpression expression => expressionMightMutate false expression
  | .array members => someMightMutate members
  | .set members => someMightMutate members
  | .map indices values => someMightMutate indices || someMightMutate values
  | .simplePrimitive => false
  | .other => !isConstVar

def someMightMutate : List Kind → Bool
  | [] => false
  | kind :: kinds => expressionMightMutate false kind || someMightMutate kinds

end

variable {E W T V : Type}

/-- The receiver or an argument, with what its transformation pushes and returns. -/
structure Argument (E W T V : Type) where
  /-- The symbol of the identifier that the node is, parentheses and assertions skipped. -/
  symbol : Option Symbol
  /-- There are none to skip. -/
  isBare : Bool
  prereqs : List (EStateM E (Memory W T V) PUnit)
  expression : Expression E W T V
  /-- The kind of an expression that is no simple primitive and no temporary. -/
  otherKind : Kind

namespace Argument

variable (argument : Argument E W T V)

def node : Node E W T V :=
  ⟨if argument.isBare then argument.symbol else none, argument.prereqs, argument.expression⟩

def kind : Kind :=
  match argument.expression with
  | .simplePrimitive _ => .simplePrimitive
  | .temporaryIdentifier _ => .temporaryIdentifier
  | .other _ => argument.otherKind

def mightMutate : Bool :=
  expressionMightMutate (argument.symbol.any fun symbol => !isSymbolMutable symbol) argument.kind

end Argument

/-- The last argument, if it is the spread of a tuple. -/
structure Spread (E W T V : Type) where
  argument : Argument E W T V
  /-- The number of elements of the tuple's type. -/
  argumentCount : Nat

/-! ### The emitted code -/

inductive Temporary where
  | spread (index : Nat)
  | arg (index : Nat)
  | base
  deriving DecidableEq

/-- What the macro is handed. -/
inductive Handed (E W T V : Type) where
  | operand (operand : Operand E W T V)
  | temporary (id : Temporary)

/-- The node is the one that is given along with the expression. -/
def Handed.mightMutate (node : Option (Argument E W T V)) : Handed E W T V → Bool
  | .operand (.inPlace _) => node.all Argument.mightMutate
  | .operand (.exp _) => false
  | .temporary _ => false

inductive Prereq (E W T V : Type) where
  | ordered (statement : Statement E W T V)
  /-- `local _spread0, _spread1 = unpack(tuple)`, for the indices from the first one on. -/
  | declareSpread (first count : Nat) (tuple : Handed E W T V)
  | declare (id : Temporary) (expression : Handed E W T V)

/-- A declaration has at least one name. -/
def Prereq.isLuau : Prereq E W T V → Bool
  | .declareSpread _ count _ => count != 0
  | _ => true

/-- The transformed spread, which is the last of the arguments, is replaced by one temporary for
each index from the number of the other arguments on. -/
def expandSpread (spread : Option (Spread E W T V)) (args : List (Handed E W T V)) :
    List (Prereq E W T V) × List (Handed E W T V) :=
  match spread, args.getLast? with
  | some spread, some tuple =>
    let args := args.dropLast
    let count := spread.argumentCount - args.length
    ([.declareSpread args.length count tuple],
      args ++ (range' args.length count).map fun index => .temporary (.spread index))
  | _, _ => ([], args)

def pushMutable : Nat → List (Argument E W T V) → List (Handed E W T V) →
    List (Prereq E W T V) × List (Handed E W T V)
  | _, _, [] => ([], [])
  | index, nodes, arg :: args =>
    let rest := pushMutable (index + 1) nodes.tail args
    if arg.mightMutate nodes.head? then
      (.declare (.arg index) arg :: rest.1, .temporary (.arg index) :: rest.2)
    else (rest.1, arg :: rest.2)

variable (base : Argument E W T V) (plain : List (Argument E W T V))
  (spread : Option (Spread E W T V))

def nodeArguments : List (Argument E W T V) := plain ++ spread.toList.map Spread.argument

/-- The statements captured while the arguments are transformed, and the arguments. -/
def captureArguments : Option (List (Prereq E W T V) × List (Handed E W T V)) :=
  match ensureTransformOrder ((nodeArguments plain spread).map Argument.node) ⟨[[]]⟩ with
  | some (operands, ⟨[statements]⟩) =>
    let (expanded, args) := expandSpread spread (operands.map .operand)
    let (pushed, args) := pushMutable 0 (nodeArguments plain spread) args
    some (statements.map .ordered ++ expanded ++ pushed, args)
  | _ => none

structure MacroCall (E W T V : Type) where
  statements : List (Prereq E W T V)
  expression : Handed E W T V
  args : List (Handed E W T V)

/-- The prerequisite statements of the receiver have been emitted before. -/
def runCallMacro : Option (MacroCall E W T V) :=
  (captureArguments plain spread).map fun (prereqs, args) =>
    let expression : Handed E W T V := .operand (.inPlace base.expression)
    if !prereqs.isEmpty && base.mightMutate then
      ⟨.declare .base expression :: prereqs, .temporary .base, args⟩
    else ⟨prereqs, expression, args⟩

/-! ### Runs -/

abbrev MacroStore (W T V : Type) := Store W T V × (Temporary → V)

def assign (id : Temporary) (value : V) : EStateM E (MacroStore W T V) PUnit :=
  fun store => .ok ⟨⟩ (store.1, update store.2 id value)

/-- The temporaries of a spread take what a list of results has at their places. -/
def assignSpread (element : V → Nat → V) (first count : Nat) (tuple : V) :
    EStateM E (MacroStore W T V) PUnit := fun store =>
  .ok ⟨⟩ (store.1, fun id =>
    match id with
    | .spread index =>
      if first ≤ index ∧ index < first + count then element tuple (index - first)
      else store.2 id
    | _ => store.2 id)

def Handed.evaluate : Handed E W T V → EStateM E (MacroStore W T V) V
  | .operand op => onFirst op.evaluate
  | .temporary id => inspect fun store => store.2 id

def evaluateHanded : List (Handed E W T V) → EStateM E (MacroStore W T V) (List V)
  | [] => pure []
  | arg :: args => do
    let value ← arg.evaluate
    return value :: (← evaluateHanded args)

variable (element : V → Nat → V)

def Prereq.execute : Prereq E W T V → EStateM E (MacroStore W T V) PUnit
  | .ordered statement => onFirst statement.execute
  | .declareSpread first count tuple => tuple.evaluate >>= assignSpread element first count
  | .declare id expression => expression.evaluate >>= assign id

def execute (prereqs : List (Prereq E W T V)) : EStateM E (MacroStore W T V) PUnit :=
  runAll (prereqs.map (Prereq.execute element))

def MacroCall.run (call : MacroCall E W T V) : EStateM E (MacroStore W T V) (V × List V) := do
  execute element call.statements
  let receiver ← call.expression.evaluate
  return (receiver, ← evaluateHanded call.args)

def evaluateArguments : EStateM E (Memory W T V) (List V) := do
  let values ← inOrder (plain.map Argument.node)
  match spread with
  | none => return values
  | some spread =>
    let tuples ← inOrder [spread.argument.node]
    return values ++ tuples.flatMap fun tuple => (range spread.argumentCount).map (element tuple)

/-- The receiver, and then the arguments from left to right. -/
def evaluateCall : EStateM E (Memory W T V) (V × List V) := do
  let receiver ← base.expression.evaluate
  return (receiver, ← evaluateArguments plain spread element)

def Steady (nodes : List (Argument E W T V)) (args : List (Handed E W T V)) : Prop :=
  ∀ (index : Nat) (arg : Handed E W T V), args[index]? = some arg →
    arg.mightMutate nodes[index]? = false

/-- The macro is handed all arguments, none of which can change any more. Behind the statements,
the receiver and the arguments give what they give in TypeScript, one after the other. -/
def Received : Prop :=
  ∃ call, runCallMacro base plain spread = some call ∧ call.statements.all Prereq.isLuau = true ∧
    call.args.length = plain.length + (spread.map Spread.argumentCount).getD 0 ∧
    Steady (nodeArguments plain spread) call.args ∧
    ∀ store, forget (forget (call.run element store)) =
      evaluateCall base plain spread element store.1.1

/-- What the code takes to be constant is a read that nothing behind it changes. -/
def ConstantsStay : List (Argument E W T V) → Prop
  | [] => True
  | argument :: others =>
    (argument.mightMutate = false ∨ argument.node.unsettled = false →
      ∃ read, argument.expression.evaluate = inspect read ∧
        ∀ other ∈ others, other.node.Preserves read) ∧ ConstantsStay others

/-! ### The arguments -/

section Arguments

variable {base plain spread}

lemma ConstantsStay.settledKept {args : List (Argument E W T V)} (stay : ConstantsStay args) :
    SettledKept (args.map Argument.node) := by
  induction args with
  | nil => trivial
  | cons arg args ih =>
    refine ⟨fun settled => ?_, ih stay.2⟩
    obtain ⟨read, same, kept⟩ := stay.1 (.inr settled)
    exact ⟨read, same, fun other mem => by
      obtain ⟨arg, among, rfl⟩ := mem_map.mp mem
      exact kept arg among⟩

lemma mem_operands {nodes : List (Node E W T V)} {idx : Nat} {operand : Operand E W T V}
    (mem : operand ∈ (emit idx nodes).2) :
    (∃ place, operand = .exp place) ∨ ∃ node ∈ nodes, operand = .inPlace node.expression := by
  induction nodes generalizing idx with
  | nil => simp [emit] at mem
  | cons node others ih =>
    have split : operand = .exp idx ∨ operand = .inPlace node.expression ∨
        operand ∈ (emit (idx + 1) others).2 := by
      rw [emit] at mem
      split at mem <;> grind
    rcases split with rfl | rfl | mem
    · exact .inl ⟨idx, rfl⟩
    · exact .inr ⟨node, mem_cons_self, rfl⟩
    · obtain placed | ⟨other, among, same⟩ := ih mem
      · exact .inl placed
      · exact .inr ⟨other, mem_cons_of_mem _ among, same⟩

/-- Siblings that preserve a read do so as operands. -/
lemma keeps_operand {nodes : List (Node E W T V)} {idx : Nat} {operand : Operand E W T V}
    {read : Memory W T V → V} (kept : ∀ node ∈ nodes, node.Preserves read)
    (mem : operand ∈ (emit idx nodes).2) :
    Keeps (fun store => read store.1) operand.evaluate := by
  obtain ⟨place, rfl⟩ | ⟨node, among, rfl⟩ := mem_operands mem
  · rintro store _ _ ⟨⟩
    rfl
  · exact (kept node among).2.onFirst

lemma mem_pushMutable {idx : Nat} {nodes : List (Argument E W T V)} {args : List (Handed E W T V)}
    {prereq : Prereq E W T V} (mem : prereq ∈ (pushMutable idx nodes args).1) :
    ∃ arg ∈ args, ∃ place, idx ≤ place ∧ prereq = .declare (.arg place) arg := by
  induction args generalizing idx nodes with
  | nil => simp [pushMutable] at mem
  | cons arg args ih =>
    have split : prereq = .declare (.arg idx) arg ∨
        prereq ∈ (pushMutable (idx + 1) nodes.tail args).1 := by
      rw [pushMutable] at mem
      grind
    rcases split with rfl | mem
    · exact ⟨arg, mem_cons_self, idx, Nat.le_refl _, rfl⟩
    · obtain ⟨other, among, place, behind, rfl⟩ := ih mem
      exact ⟨other, mem_cons_of_mem _ among, place, by omega, rfl⟩

lemma keeps_assign {β : Type} {read : MacroStore W T V → β} {id : Temporary} {val : V}
    (apart : ∀ store, read (store.1, update store.2 id val) = read store) :
    Keeps read (assign id val : EStateM E (MacroStore W T V) PUnit) := by
  rintro store _ _ ⟨⟩
  exact apart store

/-- The statements that keep arguments leave what the arguments leave. -/
lemma keeps_pushMutable {read : Store W T V → V} {idx : Nat} {nodes : List (Argument E W T V)}
    {args : List (Handed E W T V)}
    (kept : ∀ arg ∈ args, Keeps (fun store => read store.1) arg.evaluate) :
    Keeps (fun store => read store.1) (execute element (pushMutable idx nodes args).1) := by
  refine Keeps.runAll fun p mem => ?_
  obtain ⟨prereq, pushed, rfl⟩ := mem_map.mp mem
  obtain ⟨arg, among, place, _, rfl⟩ := mem_pushMutable pushed
  exact (kept arg among).bind fun val => keeps_assign fun _ => rfl

lemma keeps_temporary (id : Temporary) (arg : Handed E W T V) :
    Keeps (fun store => store.2 id) arg.evaluate := by
  cases arg with
  | operand operand => exact keeps_onFirst (fun temps : Temporary → V => temps id) operand.evaluate
  | temporary other =>
    rintro store _ _ ⟨⟩
    rfl

lemma keeps_pushMutable_temporary {idx : Nat} {nodes : List (Argument E W T V)}
    {args : List (Handed E W T V)} {id : Temporary}
    (apart : ∀ place, idx ≤ place → id ≠ .arg place) :
    Keeps (fun store => store.2 id) (execute element (pushMutable idx nodes args).1) := by
  refine Keeps.runAll fun p mem => ?_
  obtain ⟨prereq, pushed, rfl⟩ := mem_map.mp mem
  obtain ⟨arg, among, place, behind, rfl⟩ := mem_pushMutable pushed
  exact (keeps_temporary id arg).bind fun val =>
    keeps_assign fun store => update_of_ne (apart place behind) _ _

lemma hides_assign {α : Type} (id : Temporary) (val : V) {p : EStateM E (MacroStore W T V) α}
    {q : EStateM E (Store W T V) α} (hides : Hides p q) : Hides (assign id val >>= fun _ => p) q :=
  fun store => hides (store.1, update store.2 id val)

lemma assign_inspect {α : Type} (id : Temporary) (val : V)
    (f : V → EStateM E (MacroStore W T V) α) :
    (assign id val >>= fun _ => inspect (fun store => store.2 id) >>= f) =
      assign id val >>= fun _ => f val := by
  funext store
  change f (update store.2 id val id) _ = f val _
  rw [update_self]

lemma emit_cons (node : Node E W T V) (others : List (Node E W T V)) (idx : Nat) :
    ∃ operand, (operand = .exp idx ∨ operand = .inPlace node.expression) ∧
      (emit idx (node :: others)).2 = operand :: (emit (idx + 1) others).2 := by
  rw [emit]
  split
  · exact ⟨_, .inl rfl, rfl⟩
  · exact ⟨_, .inr rfl, rfl⟩

/-- An argument that is not kept is a read that the arguments behind it leave. -/
lemma steady_operand {arg : Argument E W T V} {args : List (Argument E W T V)}
    (stay : ConstantsStay (arg :: args)) {idx : Nat} {operand : Operand E W T V}
    (isFirst : operand = .exp idx ∨ operand = .inPlace arg.expression)
    (steady : (Handed.operand operand).mightMutate (some arg) = false) :
    ∃ read, operand.evaluate = inspect read ∧
      ∀ other ∈ (emit (idx + 1) (args.map Argument.node)).2, Keeps read other.evaluate := by
  rcases isFirst with rfl | rfl
  · refine ⟨fun store => store.2 idx, rfl, fun other mem => ?_⟩
    obtain ⟨place, rfl⟩ | ⟨node, among, rfl⟩ := mem_operands mem
    · rintro store _ _ ⟨⟩
      rfl
    · exact keeps_onFirst (fun exps : Nat → V => exps idx) node.expression.evaluate
  · obtain ⟨read, same, kept⟩ := stay.1 (.inl steady)
    refine ⟨fun store => read store.1, ?_,
      fun other mem => keeps_operand (fun node among => ?_) mem⟩
    · rw [Operand.evaluate, same]
      rfl
    · obtain ⟨arg, given, rfl⟩ := mem_map.mp among
      exact kept arg given

lemma hides_pushMutable {args : List (Argument E W T V)} (stay : ConstantsStay args)
    (idx place : Nat) :
    let operands := (emit idx (args.map Argument.node)).2
    let pushed := pushMutable place args (operands.map .operand)
    Hides (execute element pushed.1 >>= fun _ => evaluateHanded pushed.2)
      (evaluateAll operands) := by
  induction args generalizing idx place with
  | nil => exact Hides.pure []
  | cons arg args ih =>
    obtain ⟨operand, isFirst, same⟩ := emit_cons arg.node (args.map Argument.node) idx
    have rest := fun val => (ih stay.2 (idx + 1) (place + 1)).bind fun values =>
      Hides.pure (val :: values)
    simp only [map_cons, same, pushMutable, head?_cons, List.tail_cons, evaluateAll]
    by_cases mutable : (Handed.operand operand).mightMutate (some arg) = true
    · have kept := @keeps_pushMutable_temporary _ _ _ _ element (place + 1) args
        ((emit (idx + 1) (args.map Argument.node)).2.map .operand) (.arg place) (by
          rintro other behind ⟨⟩
          omega)
      simp only [execute] at kept rest ⊢
      simp only [mutable, if_true, map_cons, runAll, Prereq.execute, Handed.evaluate,
        evaluateHanded, bind_assoc, bind_inspect_comm kept, assign_inspect]
      refine (Hides.onFirst _).bind fun val => hides_assign _ val ?_
      simpa only [bind_assoc] using rest val
    · rw [Bool.not_eq_true] at mutable
      obtain ⟨read, reads, later⟩ := steady_operand stay isFirst mutable
      have kept := @keeps_pushMutable _ _ _ _ element read (place + 1) args
        ((emit (idx + 1) (args.map Argument.node)).2.map .operand) (by
          intro other mem
          obtain ⟨operand, among, rfl⟩ := mem_map.mp mem
          exact (later operand among).onFirst)
      have lifted : (onFirst operand.evaluate : EStateM E (MacroStore W T V) V) =
          inspect fun store => read store.1 := by
        rw [reads]
        rfl
      simp only [mutable, Bool.false_eq_true, if_false, Handed.evaluate, evaluateHanded, lifted,
        bind_inspect_comm kept]
      rw [← lifted]
      refine (Hides.onFirst _).bind fun val => ?_
      simpa only [bind_assoc] using rest val

lemma execute_append (front back : List (Prereq E W T V)) :
    execute element (front ++ back) = execute element front >>= fun _ => execute element back := by
  rw [execute, map_append, runAll_append]
  rfl

lemma execute_ordered (stmts : List (Statement E W T V)) :
    execute element (stmts.map .ordered) = onFirst (runAll (stmts.map Statement.execute)) := by
  rw [← runAll_onFirst, execute, map_map, map_map]
  rfl

lemma captureArguments_eq {out : List (Prereq E W T V) × List (Handed E W T V)}
    (captured : captureArguments plain spread = some out) :
    let emitted := emit 0 ((nodeArguments plain spread).map Argument.node)
    let expanded := expandSpread spread (emitted.2.map .operand)
    let pushed := pushMutable 0 (nodeArguments plain spread) expanded.2
    out = (emitted.1.map .ordered ++ expanded.1 ++ pushed.1, pushed.2) := by
  rw [captureArguments, ensureTransformOrder_run] at captured
  exact (Option.some.inj captured).symm

lemma evaluateHanded_temporary (ids : List Temporary) :
    evaluateHanded (ids.map .temporary) =
      (inspect fun store => ids.map store.2 : EStateM E (MacroStore W T V) _) := by
  induction ids with
  | nil => rfl
  | cons id ids ih =>
    rw [map_cons, evaluateHanded, ih]
    rfl

lemma pushMutable_temporary (idx : Nat) (nodes : List (Argument E W T V)) (ids : List Temporary) :
    pushMutable idx nodes (ids.map .temporary) = ([], ids.map .temporary) := by
  induction ids generalizing idx nodes with
  | nil => rfl
  | cons id ids ih => simp [pushMutable, ih, Handed.mightMutate]

/-- The elements of a tuple that is spread, as the temporaries give them. -/
lemma assignSpread_temporaries (count : Nat) (tuple : V) :
    (assignSpread element 0 count tuple >>= fun _ =>
        evaluateHanded (((range' 0 count).map Temporary.spread).map .temporary) :
      EStateM E (MacroStore W T V) _) =
      assignSpread element 0 count tuple >>= fun _ => pure ((range count).map (element tuple)) := by
  rw [evaluateHanded_temporary]
  funext store
  refine congrArg (EStateM.Result.ok · _) ?_
  dsimp only
  rw [map_map, ← range_eq_range']
  refine map_congr_left fun index mem => ?_
  simp [mem_range.mp mem]

/-- The captured statements and the arguments do what the arguments do in their order. -/
lemma hides_captureArguments {out : List (Prereq E W T V) × List (Handed E W T V)}
    (captured : captureArguments plain spread = some out)
    (stay : ConstantsStay (nodeArguments plain spread))
    (alone : ∀ s, spread = some s → plain = []) :
    ∃ middle, Hides (execute element out.1 >>= fun _ => evaluateHanded out.2) middle ∧
      Hides middle (evaluateArguments plain spread element) := by
  obtain rfl := captureArguments_eq captured
  have ordered := hides_emit stay.settledKept 0
  cases spread with
  | none =>
    have same : nodeArguments plain none = plain := append_nil plain
    rw [same] at stay ordered ⊢
    have pinned := @hides_pushMutable _ _ _ _ element _ stay 0 0
    refine ⟨_, ?_, ordered.bind fun values => Hides.pure values⟩
    simp only [expandSpread, append_nil, execute_append, execute_ordered, bind_pure, runEmitted,
      bind_assoc]
    exact (Hides.onFirst _).bind fun _ => pinned
  | some s =>
    obtain rfl := alone s rfl
    refine ⟨_, ?_, ordered.bind fun tuples => Hides.pure
      (tuples.flatMap fun tuple => (range s.argumentCount).map (element tuple))⟩
    have single : emit 0 ((nodeArguments [] (some s)).map Argument.node) =
        (s.argument.node.statements, [.inPlace s.argument.expression]) := by
      simp [nodeArguments, emit, isKept, Argument.node]
    have expanded : expandSpread (some s)
        [Handed.operand (.inPlace s.argument.expression : Operand E W T V)] =
          ([.declareSpread 0 s.argumentCount (.operand (.inPlace s.argument.expression))],
            ((range' 0 s.argumentCount).map .spread).map .temporary) := by
      simp [expandSpread]
    simp only [single, map_cons, map_nil, expanded, pushMutable_temporary, append_nil,
      execute_append, execute_ordered, runEmitted, bind_assoc]
    refine (Hides.onFirst _).bind fun _ => ?_
    simp only [execute, map_cons, map_nil, runAll, Prereq.execute, Handed.evaluate, evaluateAll,
      bind_assoc, pure_bind, assignSpread_temporaries]
    refine (Hides.onFirst _).bind fun tuple store => ?_
    rw [flatMap_singleton]
    rfl

/-! ### The receiver -/

lemma keeps_declareSpread {β : Type} {read : MacroStore W T V → β} {first count : Nat}
    {tuple : Handed E W T V} (kept : Keeps read tuple.evaluate)
    (apart : ∀ store temps, (∀ id, (∀ index, id ≠ .spread index) → temps id = store.2 id) →
      read (store.1, temps) = read store) :
    Keeps read (Prereq.execute element (.declareSpread first count tuple)) := by
  refine kept.bind fun val => ?_
  rintro store _ _ ⟨⟩
  refine apart store _ fun id other => ?_
  cases id with
  | spread index => exact absurd rfl (other index)
  | arg index => rfl
  | base => rfl

lemma mem_expandSpread {args : List (Handed E W T V)} :
    (∀ prereq ∈ (expandSpread spread args).1, ∃ first count, ∃ tuple ∈ args,
        prereq = .declareSpread first count tuple) ∧
      ∀ arg ∈ (expandSpread spread args).2, arg ∈ args ∨ ∃ id, arg = .temporary id := by
  unfold expandSpread
  split
  · next _ _ s tuple last =>
    refine ⟨fun prereq mem => ⟨_, _, tuple, mem_of_getLast? last, mem_singleton.mp mem⟩, ?_⟩
    intro arg mem
    rcases mem_append.mp mem with mem | mem
    · exact .inl (dropLast_subset _ mem)
    · obtain ⟨index, -, rfl⟩ := mem_map.mp mem
      exact .inr ⟨_, rfl⟩
  · exact ⟨by simp, fun arg mem => .inl mem⟩

/-- The captured statements leave the temporary of the receiver. -/
lemma keeps_base {out : List (Prereq E W T V) × List (Handed E W T V)}
    (captured : captureArguments plain spread = some out) :
    Keeps (fun store => store.2 .base) (execute element out.1) := by
  obtain rfl := captureArguments_eq captured
  simp only [execute_append, execute_ordered]
  refine ((keeps_onFirst (fun temps : Temporary → V => temps .base) _).bind fun _ => ?_).bind
    fun _ => keeps_pushMutable_temporary element (by simp)
  refine Keeps.runAll fun p mem => ?_
  obtain ⟨prereq, expanded, rfl⟩ := mem_map.mp mem
  obtain ⟨first, count, tuple, -, rfl⟩ := mem_expandSpread.1 prereq expanded
  exact keeps_declareSpread element (keeps_temporary .base tuple) fun store temps same =>
    same .base (by simp)

/-- The captured statements leave what the arguments leave. -/
lemma keeps_captureArguments {out : List (Prereq E W T V) × List (Handed E W T V)}
    {read : Memory W T V → V} (captured : captureArguments plain spread = some out)
    (kept : ∀ arg ∈ nodeArguments plain spread, arg.node.Preserves read) :
    Keeps (fun store => read store.1.1) (execute element out.1) := by
  obtain rfl := captureArguments_eq captured
  have nodes : ∀ node ∈ (nodeArguments plain spread).map Argument.node, node.Preserves read := by
    intro node mem
    obtain ⟨arg, among, rfl⟩ := mem_map.mp mem
    exact kept arg among
  have operands : ∀ arg ∈ (emit 0 ((nodeArguments plain spread).map Argument.node)).2.map
      Handed.operand, Keeps (fun store : MacroStore W T V => read store.1.1) arg.evaluate := by
    intro arg mem
    obtain ⟨operand, among, rfl⟩ := mem_map.mp mem
    exact (keeps_operand nodes among).onFirst
  simp only [execute_append, execute_ordered]
  refine ((keeps_emit nodes 0).onFirst.bind fun _ => ?_).bind fun _ =>
    @keeps_pushMutable _ _ _ _ element (fun store => read store.1) _ _ _ fun arg mem => ?_
  · refine Keeps.runAll fun p mem => ?_
    obtain ⟨prereq, expanded, rfl⟩ := mem_map.mp mem
    obtain ⟨first, count, tuple, among, rfl⟩ := mem_expandSpread.1 prereq expanded
    exact keeps_declareSpread element (operands tuple among) fun _ _ _ => rfl
  · rcases mem_expandSpread.2 arg mem with among | ⟨id, rfl⟩
    · exact operands arg among
    · rintro store _ _ ⟨⟩
      rfl

/-- The receiver goes first: it is kept in its temporary, or read behind the statements. -/
lemma run_receiver {call : MacroCall E W T V}
    (handed : runCallMacro base plain spread = some call)
    (stay : ConstantsStay (base :: nodeArguments plain spread)) :
    ∃ out, captureArguments plain spread = some out ∧
      ∃ keep : V → EStateM E (MacroStore W T V) PUnit,
      (∀ val, keep val = pure ⟨⟩ ∨ keep val = assign .base val) ∧
      call.run element = onFirst (onFirst base.expression.evaluate) >>= fun val =>
        keep val >>= fun _ => (execute element out.1 >>= fun _ => evaluateHanded out.2) >>=
          fun values => pure (val, values) := by
  obtain ⟨out, captured, rfl⟩ := Option.map_eq_some_iff.mp handed
  refine ⟨out, captured, ?_⟩
  by_cases pinned : (!out.1.isEmpty && base.mightMutate) = true
  · refine ⟨assign .base, fun _ => .inr rfl, ?_⟩
    have kept := keeps_base element captured
    simp only [pinned, if_true, MacroCall.run]
    rw [show execute element (.declare .base (.operand (.inPlace base.expression)) :: out.1) =
      (onFirst (onFirst base.expression.evaluate) >>= assign .base) >>= fun _ =>
        execute element out.1 from rfl]
    simp only [Handed.evaluate, bind_assoc, bind_inspect_comm kept, assign_inspect]
  · refine ⟨fun _ => pure ⟨⟩, fun _ => .inl rfl, ?_⟩
    simp only [if_neg pinned, MacroCall.run, Handed.evaluate, Operand.evaluate, pure_bind,
      bind_assoc]
    obtain none | steady : out.1 = [] ∨ base.mightMutate = false := by grind
    · simp only [none, execute, map_nil, runAll, pure_bind]
    · obtain ⟨read, same, kept⟩ := stay.1 (.inl steady)
      have comm := fun {α : Type} (f : V → EStateM E (MacroStore W T V) α) => bind_inspect_comm
        (keeps_captureArguments element captured kept) f
      rw [same]
      exact comm _

end Arguments

/-! ### The shape of the call -/

lemma pushMutable_shape (idx : Nat) (nodes : List (Argument E W T V))
    (args : List (Handed E W T V)) :
    (pushMutable idx nodes args).1.all Prereq.isLuau = true ∧
      (pushMutable idx nodes args).2.length = args.length ∧
      Steady nodes (pushMutable idx nodes args).2 := by
  induction args generalizing idx nodes with
  | nil => simp [pushMutable, Steady]
  | cons arg args ih =>
    obtain ⟨luau, sizes, steady⟩ := ih (idx + 1) nodes.tail
    simp only [Steady, List.getElem?_tail] at steady
    rw [pushMutable]
    split
    · refine ⟨by simpa [Prereq.isLuau] using luau, by simpa using sizes, ?_⟩
      rintro (_ | place) other found
      · cases found
        rfl
      · exact steady place other found
    · next keeps =>
      refine ⟨luau, by simpa using sizes, ?_⟩
      rintro (_ | place) other found
      · cases found
        simpa [List.head?_eq_getElem?] using keeps
      · exact steady place other found

lemma length_emit (nodes : List (Node E W T V)) (idx : Nat) :
    (emit idx nodes).2.length = nodes.length := by
  induction nodes generalizing idx with
  | nil => rfl
  | cons node others ih =>
    obtain ⟨operand, -, same⟩ := emit_cons node others idx
    rw [same, length_cons, length_cons, ih]

variable {base plain spread} in
lemma runCallMacro_shape {call : MacroCall E W T V}
    (handed : runCallMacro base plain spread = some call) :
    (call.statements.all Prereq.isLuau = true ↔
        ∀ s, spread = some s → plain.length < s.argumentCount) ∧
      call.args.length = plain.length +
        (spread.map fun s => s.argumentCount - plain.length).getD 0 ∧
      Steady (nodeArguments plain spread) call.args := by
  obtain ⟨out, captured, rfl⟩ := Option.map_eq_some_iff.mp handed
  suffices shape : (out.1.all Prereq.isLuau = true ↔
      ∀ s, spread = some s → plain.length < s.argumentCount) ∧
        out.2.length = plain.length + (spread.map fun s => s.argumentCount - plain.length).getD 0 ∧
        Steady (nodeArguments plain spread) out.2 by
    dsimp only
    split
    · simpa [Prereq.isLuau] using shape
    · exact shape
  obtain rfl := captureArguments_eq captured
  have count := length_emit ((nodeArguments plain spread).map Argument.node) 0
  generalize emit 0 _ = emitted at count
  obtain ⟨luau, sizes, steady⟩ := pushMutable_shape 0 (nodeArguments plain spread)
    (expandSpread spread (emitted.2.map .operand)).2
  have ordered : (emitted.1.map (.ordered : _ → Prereq E W T V)).all Prereq.isLuau = true := by
    simp [Prereq.isLuau]
  simp only [all_append, luau, ordered, sizes, Bool.true_and, Bool.and_true]
  refine ⟨?_, ?_, steady⟩ <;> cases spread with
  | none => simp_all [expandSpread, nodeArguments]
  | some s =>
    obtain none | ⟨front, tuple, args⟩ := List.eq_nil_or_concat emitted.2
    · simp [none, nodeArguments] at count
    · have same : front.length = plain.length := by simpa [args, nodeArguments] using count
      simp [expandSpread, Prereq.isLuau, args, same, Nat.sub_eq_zero_iff_le]

lemma runCallMacro_some : ∃ call, runCallMacro base plain spread = some call := by
  rw [runCallMacro, captureArguments, ensureTransformOrder_run]
  exact ⟨_, rfl⟩

/-- `m` for a constant `m`, and the arguments of `m.set(x, x++)` for a variable `x`. -/
def setReceiver : Argument Empty Nat Unit Nat :=
  ⟨some ⟨some ⟨false, some false⟩⟩, true, [], .other fun memory => .ok 7 memory.world, .other⟩

def setArguments : List (Argument Empty Nat Unit Nat) :=
  [⟨some ⟨some ⟨false, some true⟩⟩, true, [],
      .other fun memory => .ok memory.world memory.world, .other⟩,
    ⟨none, false, [fun memory => .ok ⟨⟩ ⟨memory.world + 1, fun _ => memory.world⟩],
      .temporaryIdentifier (), .other⟩]

end Rotor.Transformer.CallMacro
