import Rotor.Lib.Effects

/-!
The evaluation order of sibling expressions.

Siblings are operands, arguments, elements.  Each is transformed on its own, into statements that
have to run first and an expression.  Since all statements are emitted in front of all
expressions, the expressions in front of the last statements are kept in temporaries, unless
nothing that comes later can change them.
-/

namespace Rotor.Transformer.EnsureOrder

open List Lib Function

/-! ### The code of one sibling -/

/-- What a running program sees: variables and tables, and the temporaries that the transformation
of the siblings introduced. -/
structure Memory (W T V : Type) where
  world : W
  temporaries : T → V

/-- Expressions, by what the kind of a node tells.  An expression does not assign temporaries. -/
inductive Expression (E W T V : Type) where
  /-- `nil`, a boolean, a number or a string. -/
  | simplePrimitive (value : V)
  | temporaryIdentifier (id : T)
  | other (run : Memory W T V → EStateM.Result E W V)

structure Declaration where
  isParameter : Bool
  /-- Whether the variable declaration list around it is one of `let`, if there is one. -/
  listIsLet : Option Bool

structure Symbol where
  valueDeclaration : Option Declaration

def isSymbolMutable (idSymbol : Symbol) : Bool :=
  match idSymbol.valueDeclaration with
  | none => false
  | some decl => if decl.isParameter then true else decl.listIsLet.getD false

/-- A node with what its transformation pushes and returns. -/
structure Node (E W T V : Type) where
  /-- The symbol, if the node is an identifier that has one. -/
  identifierSymbol : Option Symbol
  prereqs : List (EStateM E (Memory W T V) PUnit)
  expression : Expression E W T V

/-! ### The emitted code -/

inductive Statement (E W T V : Type) where
  | prereq (run : EStateM E (Memory W T V) PUnit)
  /-- `local _exp = expression`, the one of the sibling with the index. -/
  | declareExp (index : Nat) (expression : Expression E W T V)

inductive Operand (E W T V : Type) where
  | inPlace (expression : Expression E W T V)
  | exp (index : Nat)

section Transform

variable {E W T V : Type}

namespace Expression

def isSimplePrimitive : Expression E W T V → Bool
  | simplePrimitive _ => true
  | _ => false

def isTemporaryIdentifier : Expression E W T V → Bool
  | temporaryIdentifier _ => true
  | _ => false

end Expression

def Node.isConstVar (node : Node E W T V) : Bool :=
  match node.identifierSymbol with
  | none => false
  | some symbol => !isSymbolMutable symbol

/-- The state of the transformation: the statement lists under construction, the top one first.
Without one, pushing panics. -/
structure State (E W T V : Type) where
  prereqStack : List (List (Statement E W T V))

abbrev Transform (E W T V α : Type) := StateT (State E W T V) Option α

def prereqList (list : List (Statement E W T V)) : Transform E W T V Unit := fun state =>
  match state.prereqStack with
  | [] => none
  | top :: rest => some ((), ⟨(top ++ list) :: rest⟩)

def prereq (statement : Statement E W T V) : Transform E W T V Unit := prereqList [statement]

def pushPrereqStack : Transform E W T V Unit := fun state =>
  some ((), ⟨[] :: state.prereqStack⟩)

def popPrereqStack : Transform E W T V (List (Statement E W T V)) := fun state =>
  match state.prereqStack with
  | [] => none
  | top :: rest => some (top, ⟨rest⟩)

/-- `Capture`: what the callback returns, and the statements it pushed. -/
def capture {α : Type} (callback : Transform E W T V α) :
    Transform E W T V (α × List (Statement E W T V)) := do
  pushPrereqStack
  let value ← callback
  let list ← popPrereqStack
  return (value, list)

/-- The transformer of a node, which pushes one statement after the other. -/
def transformNode (node : Node E W T V) : Transform E W T V (Expression E W T V) := do
  node.prereqs.forM fun run => prereq (.prereq run)
  return node.expression

/-- What is known of a sibling after its transformation. -/
structure ExpressionInfo (E W T V : Type) where
  expression : Expression E W T V
  prereqs : List (Statement E W T V)

def captureInfo (node : Node E W T V) : Transform E W T V (ExpressionInfo E W T V) := do
  let (expression, prereqs) ← capture (transformNode node)
  return { expression, prereqs }

/-- The last index with prerequisite statements below a bound, or -1. -/
def lastIndexWithPrereqs (infos : List (ExpressionInfo E W T V)) : Nat → Int
  | 0 => -1
  | index + 1 =>
    if infos[index]?.any fun info => !info.prereqs.isEmpty then index
    else lastIndexWithPrereqs infos index

def pushToVar (index : Nat) (expression : Expression E W T V) :
    Transform E W T V (Operand E W T V) := do
  prereq (.declareExp index expression)
  return .exp index

def orderLoop (last : Int) : Nat → List (Node E W T V × ExpressionInfo E W T V) →
    Transform E W T V (List (Operand E W T V))
  | _, [] => return []
  | index, (node, info) :: others => do
    prereqList info.prereqs
    let first ←
      if (index : Int) < last && !info.expression.isSimplePrimitive &&
          !info.expression.isTemporaryIdentifier && !node.isConstVar then
        pushToVar index info.expression
      else pure (.inPlace info.expression)
    return first :: (← orderLoop last (index + 1) others)

def ensureTransformOrder (nodes : List (Node E W T V)) :
    Transform E W T V (List (Operand E W T V)) := do
  let infos ← nodes.mapM captureInfo
  orderLoop (lastIndexWithPrereqs infos infos.length) 0 (nodes.zip infos)

/-! ### What is emitted -/

def Node.unsettled (node : Node E W T V) : Bool :=
  !node.expression.isSimplePrimitive && !node.expression.isTemporaryIdentifier && !node.isConstVar

def Node.statements (node : Node E W T V) : List (Statement E W T V) := node.prereqs.map .prereq

/-- The rule for a sibling of any kind: it is kept in a temporary if one behind it has statements
and it is not settled. -/
def isKept {N : Type} (hasPrereqs unsettled : N → Bool) (node : N) (others : List N) : Bool :=
  others.any hasPrereqs && unsettled node

/-- The emitted statements and operands for the siblings from an index on. -/
def emit : Nat → List (Node E W T V) → List (Statement E W T V) × List (Operand E W T V)
  | _, [] => ([], [])
  | index, node :: others =>
    let rest := emit (index + 1) others
    if isKept (fun other => !other.prereqs.isEmpty) Node.unsettled node others then
      (node.statements ++ .declareExp index node.expression :: rest.1, .exp index :: rest.2)
    else (node.statements ++ rest.1, .inPlace node.expression :: rest.2)

lemma forM_prereq (runs : List (EStateM E (Memory W T V) PUnit)) (top : List (Statement E W T V))
    (rest : List (List (Statement E W T V))) :
    (runs.forM fun run => prereq (.prereq run)) ⟨top :: rest⟩ =
      some (⟨⟩, ⟨(top ++ runs.map .prereq) :: rest⟩) := by
  induction runs generalizing top with
  | nil =>
    rw [map_nil, append_nil]
    rfl
  | cons run runs ih =>
    rw [map_cons, append_cons]
    exact ih (top ++ [.prereq run])

lemma transformNode_run (node : Node E W T V) (top : List (Statement E W T V))
    (rest : List (List (Statement E W T V))) :
    transformNode node ⟨top :: rest⟩ =
      some (node.expression, ⟨(top ++ node.statements) :: rest⟩) := by
  change ((node.prereqs.forM fun run => prereq (.prereq run)) ⟨top :: rest⟩).bind _ = _
  rw [forM_prereq]
  rfl

lemma captureInfo_run (node : Node E W T V) (state : State E W T V) :
    captureInfo node state = some (⟨node.expression, node.statements⟩, state) := by
  have captured : capture (transformNode node) state =
      some ((node.expression, node.statements), state) := by
    change (transformNode node ⟨[] :: state.prereqStack⟩).bind _ = _
    rw [transformNode_run]
    rfl
  change (capture (transformNode node) state).bind _ = _
  rw [captured]
  rfl

lemma mapM_captureInfo (nodes : List (Node E W T V)) (state : State E W T V) :
    nodes.mapM captureInfo state =
      some (nodes.map fun node => ⟨node.expression, node.statements⟩, state) := by
  induction nodes with
  | nil => rfl
  | cons node nodes ih =>
    rw [mapM_cons]
    change (captureInfo node state).bind _ = _
    rw [captureInfo_run]
    change (nodes.mapM captureInfo state).bind _ = _
    rw [ih]
    rfl

lemma lt_lastIndexWithPrereqs {infos : List (ExpressionInfo E W T V)} {idx bound : Nat} :
    (idx : Int) < lastIndexWithPrereqs infos bound ↔ ∃ later, idx < later ∧ later < bound ∧
        (infos[later]?.any fun info => !info.prereqs.isEmpty) = true := by
  induction bound with
  | zero =>
    refine iff_of_false (fun less => ?_) (by simp)
    rw [lastIndexWithPrereqs] at less
    omega
  | succ bound ih =>
    rw [lastIndexWithPrereqs]
    split
    · rename_i found
      constructor
      · intro less
        exact ⟨bound, by omega, by omega, found⟩
      · rintro ⟨later, behind, below, _⟩
        omega
    · rename_i missing
      rw [ih]
      constructor
      · rintro ⟨later, behind, below, found⟩
        exact ⟨later, behind, by omega, found⟩
      · rintro ⟨later, behind, below, found⟩
        have differs : later ≠ bound := by
          rintro rfl
          exact missing found
        exact ⟨later, behind, by omega, found⟩

lemma lt_last_iff (front : List (Node E W T V))
    (node : Node E W T V) (others : List (Node E W T V)) :
    let infos : List (ExpressionInfo E W T V) :=
      (front ++ node :: others).map fun node => ⟨node.expression, node.statements⟩
    (front.length : Int) < lastIndexWithPrereqs infos infos.length ↔
      (others.any fun other => !other.prereqs.isEmpty) = true := by
  intro infos
  have behind : ∀ place, infos[front.length + 1 + place]? =
      others[place]?.map fun node => ⟨node.expression, node.statements⟩ := by
    intro place
    rw [List.getElem?_map, Nat.add_assoc, List.getElem?_append_right (by omega),
      Nat.add_sub_cancel_left, Nat.add_comm, List.getElem?_cons_succ]
  rw [lt_lastIndexWithPrereqs, any_eq_true]
  constructor
  · rintro ⟨later, less, _, found⟩
    obtain ⟨place, rfl⟩ := Nat.exists_eq_add_of_le (show front.length + 1 ≤ later from less)
    rw [behind, Option.any_map] at found
    cases there : others[place]? with
    | none =>
      rw [there] at found
      nomatch found
    | some other =>
      rw [there] at found
      exact ⟨other, mem_of_getElem? there, by simpa [Node.statements] using found⟩
  · rintro ⟨other, mem, some'⟩
    obtain ⟨place, below, rfl⟩ := mem_iff_getElem.mp mem
    refine ⟨front.length + 1 + place, by omega, by simp [infos]; omega, ?_⟩
    rw [behind, List.getElem?_eq_getElem below]
    simpa [Node.statements] using some'

lemma orderLoop_run {last : Int} (nodes front : List (Node E W T V))
    (isLast : last = lastIndexWithPrereqs
      ((front ++ nodes).map fun node => ⟨node.expression, node.statements⟩)
      (front ++ nodes).length)
    (top : List (Statement E W T V))
    (rest : List (List (Statement E W T V))) :
    orderLoop last front.length
        (nodes.zip (nodes.map fun node => ⟨node.expression, node.statements⟩)) ⟨top :: rest⟩ =
      some ((emit front.length nodes).2, ⟨(top ++ (emit front.length nodes).1) :: rest⟩) := by
  induction nodes generalizing front top with
  | nil =>
    rw [emit, append_nil]
    rfl
  | cons node others ih =>
    have later := lt_last_iff front node others
    have rest' := fun stmts => ih (front ++ [node]) (by simpa using isLast) (top ++ stmts)
    rw [length_append, length_singleton] at rest'
    have test : (decide ((front.length : Int) < last) && !node.expression.isSimplePrimitive &&
        !node.expression.isTemporaryIdentifier && !node.isConstVar) =
          ((others.any fun other => !other.prereqs.isEmpty) && node.unsettled) := by
      simp only [length_map] at later
      rw [Node.unsettled, Bool.eq_iff_iff, isLast]
      simp only [Bool.and_eq_true, decide_eq_true_eq, later, and_assoc]
    rw [map_cons, zip_cons_cons, orderLoop, emit, isKept]
    simp only [test]
    cases (others.any fun other => !other.prereqs.isEmpty) && node.unsettled with
    | true =>
      change (orderLoop last (front.length + 1) _
        ⟨(top ++ node.statements ++ [.declareExp front.length node.expression]) :: rest⟩).bind
          _ = _
      rw [append_assoc, rest', append_assoc, append_assoc]
      rfl
    | false =>
      change (orderLoop last (front.length + 1) _ ⟨(top ++ node.statements) :: rest⟩).bind
        _ = _
      rw [rest', append_assoc]
      rfl

lemma ensureTransformOrder_run (nodes : List (Node E W T V)) (top : List (Statement E W T V))
    (rest : List (List (Statement E W T V))) :
    ensureTransformOrder nodes ⟨top :: rest⟩ =
      some ((emit 0 nodes).2, ⟨(top ++ (emit 0 nodes).1) :: rest⟩) := by
  change (nodes.mapM captureInfo ⟨top :: rest⟩).bind _ = _
  rw [mapM_captureInfo]
  exact orderLoop_run nodes [] (by simp) top rest

/-! ### Running the code -/

def Expression.evaluate : Expression E W T V → EStateM E (Memory W T V) V
  | .simplePrimitive value => pure value
  | .temporaryIdentifier id => inspect fun memory => memory.temporaries id
  | .other run => fun memory =>
    match run memory with
    | .ok value world => .ok value { memory with world }
    | .error error world => .error error { memory with world }

abbrev Store (W T V : Type) := Memory W T V × (Nat → V)

def assignExp (index : Nat) (value : V) : EStateM E (Store W T V) PUnit :=
  fun store => .ok ⟨⟩ (store.1, update store.2 index value)

def Statement.execute : Statement E W T V → EStateM E (Store W T V) PUnit
  | .prereq run => onFirst run
  | .declareExp index expression => onFirst expression.evaluate >>= assignExp index

def Operand.evaluate : Operand E W T V → EStateM E (Store W T V) V
  | .inPlace expression => onFirst expression.evaluate
  | .exp index => inspect fun store => store.2 index

def evaluateAll : List (Operand E W T V) → EStateM E (Store W T V) (List V)
  | [] => pure []
  | operand :: operands => do
    let value ← operand.evaluate
    return value :: (← evaluateAll operands)

def runEmitted (statements : List (Statement E W T V)) (operands : List (Operand E W T V)) :
    EStateM E (Store W T V) (List V) := do
  runAll (statements.map Statement.execute)
  evaluateAll operands

def inOrder : List (Node E W T V) → EStateM E (Memory W T V) (List V)
  | [] => pure []
  | node :: others => do
    runAll node.prereqs
    let value ← node.expression.evaluate
    return value :: (← inOrder others)

/-- No prerequisite statement of one sibling assigns the temporary that another one is. -/
def TemporariesKept (nodes : List (Node E W T V)) : Prop :=
  nodes.Pairwise fun node other => ∀ id, node.expression = .temporaryIdentifier id →
    ∀ run ∈ other.prereqs, Keeps (fun memory => memory.temporaries id) run

/-- The expression of a constant identifier reads a variable that nothing changes. -/
def ConstantsKept (nodes : List (Node E W T V)) : Prop :=
  ∀ node ∈ nodes, node.isConstVar = true → ∃ read, node.expression.evaluate = inspect read ∧
    ∀ other ∈ nodes, (∀ run ∈ other.prereqs, Keeps read run) ∧ Keeps read other.expression.evaluate

lemma keeps_temporaries (expr : Expression E W T V) (id : T) :
    Keeps (fun memory => memory.temporaries id) expr.evaluate := by
  cases expr with
  | simplePrimitive val => exact Keeps.pure _ val
  | temporaryIdentifier other =>
    rintro memory _ _ ⟨⟩
    rfl
  | other run =>
    intro memory val next ran
    rw [Expression.evaluate] at ran
    cases done : run memory with
    | ok res world =>
      simp only [done] at ran
      cases ran
      rfl
    | error error world =>
      simp only [done] at ran
      nomatch ran

variable {nodes : List (Node E W T V)}

lemma mem_emit {idx : Nat} {stmt : Statement E W T V} (mem : stmt ∈ (emit idx nodes).1) :
    ∃ node ∈ nodes, (∃ run ∈ node.prereqs, stmt = .prereq run) ∨
      ∃ place, idx ≤ place ∧ stmt = .declareExp place node.expression := by
  induction nodes generalizing idx with
  | nil => nomatch mem
  | cons node others ih =>
    have own : stmt ∈ node.statements → ∃ run ∈ node.prereqs, stmt = .prereq run := by
      intro found
      obtain ⟨run, pushed, rfl⟩ := mem_map.mp found
      exact ⟨run, pushed, rfl⟩
    have rest : stmt ∈ (emit (idx + 1) others).1 → ∃ other ∈ node :: others,
        (∃ run ∈ other.prereqs, stmt = .prereq run) ∨
          ∃ place, idx ≤ place ∧ stmt = .declareExp place other.expression := by
      intro found
      obtain ⟨other, among, prereq | ⟨place, behind, same⟩⟩ := ih found
      · exact ⟨other, mem_cons_of_mem _ among, .inl prereq⟩
      · exact ⟨other, mem_cons_of_mem _ among, .inr ⟨place, by omega, same⟩⟩
    rw [emit] at mem
    split at mem
    · rcases mem_append.mp mem with found | found
      · exact ⟨node, mem_cons_self, .inl (own found)⟩
      · rcases mem_cons.mp found with same | found
        · exact ⟨node, mem_cons_self, .inr ⟨idx, Nat.le_refl _, same⟩⟩
        · exact rest found
    · rcases mem_append.mp mem with found | found
      · exact ⟨node, mem_cons_self, .inl (own found)⟩
      · exact rest found

/-- Neither the statements of the node nor its expression change what is read. -/
def Node.Preserves (read : Memory W T V → V) (node : Node E W T V) : Prop :=
  (∀ run ∈ node.prereqs, Keeps read run) ∧ Keeps read node.expression.evaluate

lemma keeps_emit {read : Memory W T V → V} (kept : ∀ node ∈ nodes, node.Preserves read)
    (idx : Nat) :
    Keeps (fun store => read store.1) (runAll ((emit idx nodes).1.map Statement.execute)) := by
  refine Keeps.runAll fun p mem => ?_
  obtain ⟨stmt, emitted, rfl⟩ := mem_map.mp mem
  obtain ⟨node, among, ⟨run, pushed, rfl⟩ | ⟨place, _, rfl⟩⟩ := mem_emit emitted
  · exact ((kept node among).1 run pushed).onFirst
  · refine (kept node among).2.onFirst.bind fun val => ?_
    rintro store _ _ ⟨⟩
    rfl

lemma keeps_emit_exps {idx before : Nat} (front : before < idx) :
    Keeps (fun store => store.2 before) (runAll ((emit idx nodes).1.map Statement.execute)) := by
  refine Keeps.runAll fun p mem => ?_
  obtain ⟨stmt, emitted, rfl⟩ := mem_map.mp mem
  obtain ⟨node, among, ⟨run, pushed, rfl⟩ | ⟨place, behind, rfl⟩⟩ := mem_emit emitted
  · exact keeps_onFirst (fun exps : Nat → V => exps before) run
  · refine (keeps_onFirst (fun exps : Nat → V => exps before) _).bind fun val => ?_
    rintro store _ _ ⟨⟩
    exact update_of_ne (by omega) _ _

lemma emit_quiet (quiet : (nodes.any fun node => !node.prereqs.isEmpty) = false) (idx : Nat) :
    (emit idx nodes).1 = [] := by
  induction nodes generalizing idx with
  | nil => rfl
  | cons node others ih =>
    rw [any_cons, Bool.or_eq_false_iff, Bool.not_eq_false', List.isEmpty_iff] at quiet
    rw [emit, isKept, quiet.2]
    simp [Node.statements, quiet.1, ih quiet.2]

/-- An expression that is left in place in front of later statements is a read that those keep. -/
theorem settled_read {node : Node E W T V}
    {others : List (Node E W T V)} (temps : TemporariesKept (node :: others))
    (constants : ConstantsKept (node :: others)) (settled : node.unsettled = false) :
    ∃ read, node.expression.evaluate = inspect read ∧ ∀ other ∈ others, other.Preserves read := by
  cases constant : node.isConstVar with
  | true =>
    obtain ⟨read, same, kept⟩ := constants node mem_cons_self constant
    exact ⟨read, same, fun other mem => kept other (mem_cons_of_mem _ mem)⟩
  | false =>
    cases expr : node.expression with
    | simplePrimitive val =>
      exact ⟨fun _ => val, rfl, fun _ _ => ⟨fun _ _ _ _ _ _ => rfl, fun _ _ _ _ => rfl⟩⟩
    | temporaryIdentifier id =>
      refine ⟨fun memory => memory.temporaries id, rfl, fun other mem => ⟨?_, ?_⟩⟩
      · exact (pairwise_cons.mp temps).1 other mem id expr
      · exact keeps_temporaries other.expression id
    | other run =>
      rw [Node.unsettled, expr, constant] at settled
      nomatch settled

/-- What is left in place is a read that no later sibling changes. -/
def SettledKept : List (Node E W T V) → Prop
  | [] => True
  | node :: others => (node.unsettled = false → ∃ read, node.expression.evaluate = inspect read ∧
      ∀ other ∈ others, other.Preserves read) ∧ SettledKept others

lemma settledKept (temps : TemporariesKept nodes) (constants : ConstantsKept nodes) :
    SettledKept nodes := by
  induction nodes with
  | nil => trivial
  | cons node others ih =>
    refine ⟨settled_read temps constants, ih (pairwise_cons.mp temps).2 ?_⟩
    intro other mem constant
    obtain ⟨read, same, steps⟩ := constants other (mem_cons_of_mem _ mem) constant
    exact ⟨read, same, fun another among => steps another (mem_cons_of_mem _ among)⟩

lemma hides_assignExp {α : Type} (idx : Nat) (val : V)
    {p : EStateM E (Store W T V) α} {q : EStateM E (Memory W T V) α}
    (hides : Hides p q) : Hides (assignExp idx val >>= fun _ => p) q :=
  fun store => hides (store.1, update store.2 idx val)

lemma assignExp_inspect {α : Type} (idx : Nat) (val : V) (f : V → EStateM E (Store W T V) α) :
    (assignExp idx val >>= fun _ => inspect (fun store => store.2 idx) >>= f) =
      assignExp idx val >>= fun _ => f val := by
  funext store
  change f (update store.2 idx val idx) _ = f val _
  rw [update_self]

lemma runEmitted_cons {node : Node E W T V}
    {others : List (Node E W T V)} (settled : SettledKept (node :: others)) (idx : Nat) :
    ∃ keep : V → EStateM E (Store W T V) PUnit,
      (∀ val, keep val = pure ⟨⟩ ∨ keep val = assignExp idx val) ∧
      runEmitted (emit idx (node :: others)).1 (emit idx (node :: others)).2 =
        runAll (node.prereqs.map onFirst) >>= fun _ => onFirst node.expression.evaluate >>=
          fun val => keep val >>= fun _ =>
            runEmitted (emit (idx + 1) others).1 (emit (idx + 1) others).2 >>= fun values =>
              pure (val :: values) := by
  have own : node.statements.map Statement.execute = node.prereqs.map onFirst := by
    rw [Node.statements, map_map]
    rfl
  rw [emit]
  split
  · refine ⟨assignExp idx, fun _ => .inr rfl, ?_⟩
    have kept := @keeps_emit_exps _ _ _ _ others _ _ (Nat.lt_succ_self idx)
    simp only [runEmitted, map_append, map_cons, own, runAll_append, runAll,
      evaluateAll, Operand.evaluate, Statement.execute, bind_assoc, bind_inspect_comm kept,
      assignExp_inspect]
  · rename_i inPlace
    refine ⟨fun _ => pure ⟨⟩, fun _ => .inl rfl, ?_⟩
    simp only [runEmitted, map_append, own, runAll_append, evaluateAll, Operand.evaluate,
      bind_assoc, pure_bind]
    cases quiet : others.any fun other => !other.prereqs.isEmpty with
    | false => simp only [emit_quiet quiet, map_nil, runAll, pure_bind]
    | true =>
      rw [isKept, quiet, Bool.true_and, Bool.not_eq_true] at inPlace
      obtain ⟨read, same, kept⟩ := settled.1 inPlace
      have lifted : (onFirst node.expression.evaluate : EStateM E (Store W T V) _) =
          inspect fun store => read store.1 := by
        rw [same]
        rfl
      simp only [lifted, bind_inspect_comm (keeps_emit kept (idx + 1))]

lemma hides_emit (settled : SettledKept nodes) (idx : Nat) :
    Hides (runEmitted (emit idx nodes).1 (emit idx nodes).2) (inOrder nodes) := by
  induction nodes generalizing idx with
  | nil => exact Hides.pure []
  | cons node others ih =>
    obtain ⟨keep, kept, runs⟩ := runEmitted_cons settled idx
    have collected := fun val =>
      (ih settled.2 (idx + 1)).bind fun values => Hides.pure (val :: values)
    rw [runs, inOrder, runAll_onFirst]
    refine (Hides.onFirst _).bind fun _ => (Hides.onFirst _).bind fun val => ?_
    rcases kept val with none | assigned
    · rw [none, pure_bind]
      exact collected val
    · rw [assigned]
      exact hides_assignExp idx val (collected val)

/-! ### The order of the siblings -/

/-- Running the emitted statements and then the operands from left to right is running each
sibling in turn. -/
theorem ensureTransformOrder_inOrder (nodes : List (Node E W T V))
    (temporaries : TemporariesKept nodes) (constants : ConstantsKept nodes)
    (top : List (Statement E W T V))
    (rest : List (List (Statement E W T V))) :
    ∃ statements operands, ensureTransformOrder nodes ⟨top :: rest⟩ =
        some (operands, ⟨(top ++ statements) :: rest⟩) ∧
      Hides (runEmitted statements operands) (inOrder nodes) :=
  ⟨_, _, ensureTransformOrder_run nodes top rest, hides_emit (settledKept temporaries constants) 0⟩

end Transform

/-- The elements of `[x, c, x++]` for a variable `x` and a constant `c`. -/
def incrementedRead : List (Node Empty Nat Unit Nat) :=
  [⟨some ⟨some ⟨false, some true⟩⟩, [], .other fun memory => .ok memory.world memory.world⟩,
    ⟨some ⟨some ⟨false, some false⟩⟩, [], .other fun memory => .ok 7 memory.world⟩,
    ⟨none, [fun memory => .ok ⟨⟩ ⟨memory.world + 1, fun _ => memory.world⟩],
      .temporaryIdentifier ()⟩]

theorem incrementedRead_inOrder : ∃ statements operands,
      ensureTransformOrder incrementedRead ⟨[[]]⟩ = some (operands, ⟨[statements]⟩) ∧
      Hides (runEmitted statements operands) (inOrder incrementedRead) := by
  refine ensureTransformOrder_inOrder incrementedRead ?_ ?_ [] []
  · simp [TemporariesKept, incrementedRead]
  · intro node member constant
    obtain rfl | rfl | rfl : _ ∨ _ ∨ _ := by simpa [incrementedRead] using member
    · nomatch constant
    · refine ⟨fun _ => 7, rfl, fun other _ => ⟨?_, ?_⟩⟩
      · exact fun _ _ _ _ _ _ => rfl
      · exact fun _ _ _ _ => rfl
    · nomatch constant

end Rotor.Transformer.EnsureOrder
