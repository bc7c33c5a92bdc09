import Rotor.Transformer.Offset

/-!
The fast path for counting loops (`transformForStatementOptimized` in `loops.go`).

A C-style loop that looks like counting is emitted as a numeric `for`, whose start, end and step are
evaluated once.  The gates look at the syntax only; the operand on the left of the condition and the
target of `-=` are not among what they look at.
-/

namespace Rotor.Transformer.CountingLoop

open Lib Offset

/-- What expressions read and assignments write. -/
inductive Cell where
  | value (symbol : Nat)
  | size (symbol : Nat)
  | property (index : Nat)
  deriving DecidableEq

abbrev State := Cell → Float64

def State.set (state : State) (cell : Cell) (value : Float64) : State :=
  Function.update state cell value

@[simp] lemma State.set_self (state : State) (cell : Cell) (val : Float64) :
    state.set cell val cell = val := Function.update_self ..

inductive BinaryOperator where
  | plus | minus | asterisk | asteriskAsterisk
  | plusEquals | minusEquals
  | lessThan | lessThanEquals | greaterThan | greaterThanEquals
  | other
  deriving DecidableEq

inductive UnaryOperator where
  | plus | minus | plusPlus | minusMinus | other
  deriving DecidableEq

/-- Expressions with what the checker says about the type of those that are looked up there: whether
it is an integer literal type. A numeric literal is one within the range of numbers. -/
inductive Expression where
  | numericLiteral (value : ℚ)
  | identifier (symbol : Nat) (isInteger : Bool)
  | sizeMacro (symbol : Nat)
  | binary (left : Expression) (operator : BinaryOperator) (right : Expression)
  | prefixUnary (operator : UnaryOperator) (operand : Expression)
  | postfixUnary (operator : UnaryOperator) (operand : Expression)
  | other (isInteger : Bool) (place : Option Cell) (evaluate : State → Float64 × State)

inductive Role where
  | read | assigned | updated | destructured
  deriving DecidableEq

/-- An occurrence of an identifier in the body of a loop. -/
structure Reference where
  symbol : Nat
  role : Role

structure Declaration where
  name : Option Nat
  initializer : Option Expression

structure ForStatement where
  declarations : Option (List Declaration)
  condition : Option Expression
  incrementor : Option Expression
  references : List Reference
  /-- The body, which may leave the loop. -/
  body : State → Option State
  /-- A variable of the loop is only changed where the body refers to it. -/
  kept : ∀ list, declarations = some list → ∀ id, some id ∈ list.map Declaration.name →
    (∀ ref ∈ references, ref.symbol = id → ref.role = .read) →
      ∀ state state', body state = some state' → state' (.value id) = state (.value id)

/-! ### The gates -/

def isProbablyInteger : Expression → Bool
  | .numericLiteral value => value.isInt
  | .binary left operator right =>
    match operator with
    | .plus | .minus | .asterisk | .asteriskAsterisk =>
      isProbablyInteger left && isProbablyInteger right
    | _ => false
  | .prefixUnary operator operand =>
    match operator with
    | .plus | .minus => isProbablyInteger operand
    | _ => false
  | .sizeMacro _ => true
  | .identifier _ isInteger | .other isInteger _ _ => isInteger
  | .postfixUnary _ _ => false

def isIdentifier (symbol : Nat) : Expression → Bool
  | .identifier other _ => other = symbol
  | _ => false

def literalStep : Expression → Option ℤ
  | .numericLiteral value =>
    if isProbablyInteger (.numericLiteral value) then some value.num else none
  | _ => none

def unitStep : UnaryOperator → Option ℤ
  | .plusPlus => some 1
  | .minusMinus => some (-1)
  | _ => none

def getOptimizedIncrementorStepValue (idSymbol : Nat) : Expression → Option ℤ
  | .binary left operator right =>
    match operator with
    | .plusEquals => if isIdentifier idSymbol left then literalStep right else none
    | .minusEquals => (literalStep right).map (-·)
    | _ => none
  | .prefixUnary operator operand | .postfixUnary operator operand =>
    if isIdentifier idSymbol operand then unitStep operator else none
  | _ => none

def isMutatedInBody (references : List Reference) (id : Nat) : Bool :=
  references.any fun ref =>
    ref.symbol = id && (ref.role = .assigned || ref.role = .updated)

/-! ### The emitted loop -/

abbrev LuauExpression := Offset.Expression Expression

def transformExpression : Expression → LuauExpression
  | .numericLiteral value => .numberLiteral (.finite value)
  | .binary left .plus right => .binary (transformExpression left) .plus (transformExpression right)
  | .binary left .minus right =>
    .binary (transformExpression left) .minus (transformExpression right)
  | .prefixUnary .minus operand => .unaryMinus (transformExpression operand)
  | expression => .other expression

structure NumericFor where
  id : Nat
  start : LuauExpression
  stop : LuauExpression
  step : ℤ

/-- By how much the end is moved, for the operators that go with the step. -/
def endOffset (operator : BinaryOperator) (stepValue : ℤ) : Option ℤ :=
  match operator with
  | .lessThan => if stepValue < 0 then none else some (-1)
  | .lessThanEquals => if stepValue < 0 then none else some 0
  | .greaterThan => if stepValue > 0 then none else some 1
  | .greaterThanEquals => if stepValue > 0 then none else some 0
  | _ => none

def transformForStatementOptimized (node : ForStatement) : Option NumericFor :=
  match node.declarations with
  | some [⟨some id, some decInit⟩] =>
    if !isProbablyInteger decInit then none
    else do
      let incrementor ← node.incrementor
      let stepValue ← getOptimizedIncrementorStepValue id incrementor
      match node.condition with
      | some (.binary _ operator right) =>
        let offset ← endOffset operator stepValue
        if !isProbablyInteger right || isMutatedInBody node.references id then none
        else some ⟨id, transformExpression decInit,
          offsetExpr (transformExpression right) offset, stepValue⟩
      | _ => none
  | _ => none

/-! ### Running loops -/

/-- An integer as a number. -/
def Whole (value : Float64) : Prop := ∃ integer : ℤ, value = .finite integer

def Infinite (value : Float64) : Prop := ∃ negative, value = .infinite negative

/-- The operations besides sums and products; a power of integers is an integer or out of range. -/
structure Arithmetic where
  power : Float64 → Float64 → Float64
  operate : Float64 → Float64 → Float64
  power_whole : ∀ (base : ℤ) (exponent : ℕ), Whole (power (.finite base) (.finite exponent)) ∨
    Infinite (power (.finite base) (.finite exponent))

def Expression.place : Expression → Option Cell
  | .identifier symbol _ => some (.value symbol)
  | .other _ place _ => place
  | _ => none

def Expression.assign (target : Expression) (value : Float64) (state : State) : State :=
  match target.place with
  | some cell => state.set cell value
  | none => state

def truth (condition : Bool) : Float64 := .finite (if condition then 1 else 0)

def isFalsy (value : Float64) : Bool := value == .finite 0 || value == .nan

section Run

variable (arith : Arithmetic)

def BinaryOperator.apply (operator : BinaryOperator) (left right : Float64) : Float64 :=
  match operator with
  | .plus | .plusEquals => left.add right
  | .minus | .minusEquals => left.add right.neg
  | .asterisk => left.mul right
  | .asteriskAsterisk => arith.power left right
  | .lessThan => truth (left.lt right)
  | .lessThanEquals => truth (left.le right)
  | .greaterThan => truth (right.lt left)
  | .greaterThanEquals => truth (right.le left)
  | .other => arith.operate left right

def BinaryOperator.isAssignment : BinaryOperator → Bool
  | .plusEquals | .minusEquals => true
  | _ => false

def UnaryOperator.written (operator : UnaryOperator) (value : Float64) : Option Float64 :=
  match operator with
  | .plusPlus => some (value.add (.finite 1))
  | .minusMinus => some (value.add (.finite (-1)))
  | _ => none

def UnaryOperator.apply (operator : UnaryOperator) (value : Float64) : Float64 :=
  match operator with
  | .plus => value
  | .minus => value.neg
  | .plusPlus => value.add (.finite 1)
  | .minusMinus => value.add (.finite (-1))
  | .other => arith.operate value value

def Expression.evaluate : Expression → State → Float64 × State
  | .numericLiteral value, state => (.finite value, state)
  | .identifier symbol _, state => (state (.value symbol), state)
  | .sizeMacro symbol, state => (state (.size symbol), state)
  | .binary left operator right, state =>
    let (leftValue, state) := left.evaluate state
    let (rightValue, state) := right.evaluate state
    let value := operator.apply arith leftValue rightValue
    (value, if operator.isAssignment then left.assign value state else state)
  | .prefixUnary operator operand, state =>
    let (value, state) := operand.evaluate state
    (operator.apply arith value, ((operator.written value).map (operand.assign · state)).getD state)
  | .postfixUnary operator operand, state =>
    let (value, state) := operand.evaluate state
    (value, ((operator.written value).map (operand.assign · state)).getD state)
  | .other _ _ evaluate, state => evaluate state

/-- A literal out of range is written `Infinity`, which names no variable. -/
def LuauExpression.evaluate : LuauExpression → State → Float64 × State
  | .numberLiteral (.finite value), state => (.finite value, state)
  | .numberLiteral _, state => (.nan, state)
  | .unaryMinus expression, state =>
    let (value, state) := evaluate expression state
    (value.neg, state)
  | .binary left operator right, state =>
    let (leftValue, state) := evaluate left state
    let (rightValue, state) := evaluate right state
    (leftValue.add (if operator = .plus then rightValue else rightValue.neg), state)
  | .other expression, state => expression.evaluate arith state

/-- The values of a variable in the first iterations of a loop: the condition is evaluated before
each of them, the incrementor after it. -/
def iterations (id : Nat) (condition incrementor : Expression) (body : State → Option State) :
    Nat → State → List Float64
  | 0, _ => []
  | count + 1, state =>
    let (holds, state) := condition.evaluate arith state
    if isFalsy holds then []
    else state (.value id) :: match body state with
      | none => []
      | some state =>
        iterations id condition incrementor body count (incrementor.evaluate arith state).2

/-- The same for the emitted loop, in which each iteration has a variable of its own. -/
def NumericFor.iterations (id : Nat) (stop : Float64) (step : ℤ) (body : State → Option State) :
    Nat → Float64 → State → List Float64
  | 0, _, _ => []
  | count + 1, value, state =>
    if if 0 < step then value.le stop else stop.le value then
      value :: match body (state.set (.value id) value) with
        | none => []
        | some state => iterations id stop step body count (value.add (.finite step)) state
    else []

def NumericFor.values (loop : NumericFor) (body : State → Option State) (count : Nat)
    (state : State) : List Float64 :=
  let (start, state) := LuauExpression.evaluate arith loop.start state
  let (stop, state) := LuauExpression.evaluate arith loop.stop state
  NumericFor.iterations loop.id stop loop.step body count start state

def sourceValues (id : Nat) (decInit condition incrementor : Expression)
    (body : State → Option State) (count : Nat) (state : State) : List Float64 :=
  let (start, state) := decInit.evaluate arith state
  iterations arith id condition incrementor body count (state.set (.value id) start)

def ForStatement.values (node : ForStatement) (count : Nat) (state : State) :
    Option (List Float64) :=
  match node.declarations, node.condition, node.incrementor with
  | some [⟨some id, some decInit⟩], some condition, some incrementor =>
    some (sourceValues arith id decInit condition incrementor node.body count state)
  | _, _, _ => none

/-! ### Emitted expressions -/

lemma transformExpression_evaluate (expr : Expression) (state : State) :
    LuauExpression.evaluate arith (transformExpression expr) state =
      expr.evaluate arith state := by
  induction expr using transformExpression.induct generalizing state with
  | case1 val => rfl
  | case2 left right ihLeft ihRight | case3 left right ihLeft ihRight =>
    simp [transformExpression, LuauExpression.evaluate, Expression.evaluate, ihLeft, ihRight,
      BinaryOperator.apply, BinaryOperator.isAssignment]
  | case4 operand ih =>
    simp [transformExpression, LuauExpression.evaluate, Expression.evaluate, ih,
      UnaryOperator.apply, UnaryOperator.written]
  | case5 expr => rw [transformExpression, LuauExpression.evaluate] <;> assumption

lemma literal_value {expr : LuauExpression} {val : ℚ}
    (literal : getLiteralNumberValue expr = some (.finite val)) (state : State) :
    LuauExpression.evaluate arith expr state = (.finite val, state) := by
  induction expr generalizing val with
  | numberLiteral value =>
    cases literal
    rfl
  | unaryMinus expr ih =>
    obtain ⟨inner, found, isValue⟩ := Option.map_eq_some_iff.mp literal
    cases inner <;> cases isValue
    rw [LuauExpression.evaluate, ih found]
    rfl
  | binary _ _ _ | other _ => nomatch literal

lemma num_value (val : ℚ) (state : State) :
    LuauExpression.evaluate arith (num (.finite val)) state = (.finite val, state) := by
  rw [num]
  split <;> simp [LuauExpression.evaluate, Float64.neg]

lemma binary_value {left right : LuauExpression} {op : Offset.BinaryOperator} {val : ℚ}
    {state : State} (isRight : ∀ state, LuauExpression.evaluate arith right state =
      (.finite val, state)) :
    LuauExpression.evaluate arith (.binary left op right) state =
      ((LuauExpression.evaluate arith left state).1.add (.finite (op.sign * val)),
        (LuauExpression.evaluate arith left state).2) := by
  cases op <;> simp [LuauExpression.evaluate, isRight, Float64.neg, Offset.BinaryOperator.sign]

/-- Nothing is rounded when a bound is moved: neither the bound itself, nor the literal at its end
that takes the offset, nor the sum with this literal. -/
structure MovesExactly (expr : LuauExpression) (offset : ℤ) (state : State) : Prop where
  shifts : ∀ bound, (LuauExpression.evaluate arith expr state).1 = .finite bound →
    Float64.round (bound + offset) = .finite (bound + offset)
  folds : ∀ sum ∈ folded expr offset, IsExact sum
  sums : ∀ left op right first second, expr = .binary left op right →
    (LuauExpression.evaluate arith left state).1 = .finite first →
    getLiteralNumberValue right = some (.finite second) →
    Float64.round (first + op.sign * second) = .finite (first + op.sign * second)

variable {arith} in
lemma MovesExactly.offsetWhole_value {expr : LuauExpression} {offset : ℤ} {state : State}
    {bound : ℚ} (moves : MovesExactly arith expr offset state)
    (literals : ∀ lit ∈ getLiteralNumberValue expr, IsExact (lit, offset))
    (isBound : (LuauExpression.evaluate arith expr state).1 = .finite bound) :
    LuauExpression.evaluate arith (offsetWhole expr offset) state =
      (.finite (bound + offset), (LuauExpression.evaluate arith expr state).2) := by
  unfold offsetWhole
  split
  · next lit found =>
    obtain ⟨val, rfl, exact'⟩ := literals lit found
    have same := literal_value arith found state
    rw [same] at isBound
    cases isBound
    rw [same, show Float64.add (.finite bound) (.finite offset) = _ from exact', num_value]
  · have signed : ((if offset < 0 then Offset.BinaryOperator.minus else .plus).sign : ℚ) *
        |(offset : ℚ)| = offset := by
      split
      · next negative =>
        rw [abs_of_neg (Int.cast_lt_zero.mpr negative)]
        simp [Offset.BinaryOperator.sign]
      · next positive =>
        rw [abs_of_nonneg (Int.cast_nonneg (not_lt.mp positive))]
        simp [Offset.BinaryOperator.sign]
    rw [binary_value arith (num_value arith _), isBound, signed]
    exact Prod.ext (moves.shifts bound isBound) rfl

variable {arith} in
/-- The emitted bound is the bound, moved. -/
lemma MovesExactly.offsetExpr_value {expr : LuauExpression} {offset : ℤ} {state : State}
    {bound : ℚ} (moves : MovesExactly arith expr offset state)
    (isBound : (LuauExpression.evaluate arith expr state).1 = .finite bound) :
    LuauExpression.evaluate arith (offsetExpr expr offset) state =
      (.finite (bound + offset), (LuauExpression.evaluate arith expr state).2) := by
  unfold offsetExpr
  by_cases zero : offset = 0
  · rw [if_pos zero, zero, Int.cast_zero, add_zero, ← isBound]
  rw [if_neg zero]
  cases expr with
  | binary left op right =>
    dsimp only
    split
    · next lit found =>
      obtain ⟨second, isSecond, exact'⟩ :=
        moves.folds (lit, offset * op.sign) (by simp [folded, found])
      obtain rfl : lit = .finite second := isSecond
      have moved : Float64.add (.finite second) (.finite (offset * op.sign : ℤ)) =
        .finite (second + (offset * op.sign : ℤ)) := exact'
      rw [binary_value arith (literal_value arith found)] at isBound ⊢
      obtain ⟨first, isFirst⟩ : ∃ first,
          (LuauExpression.evaluate arith left state).1 = .finite first := by
        cases value : (LuauExpression.evaluate arith left state).1 with
        | finite first => exact ⟨first, rfl⟩
        | infinite negative | nan => simp [value, Float64.add] at isBound
      have sum := moves.sums left op right first second rfl isFirst found
      rw [isFirst, show Float64.add (.finite first) (.finite (op.sign * second)) = _ from sum]
        at isBound
      obtain rfl := Float64.finite.inj isBound
      have total : first + op.sign * (second + (offset * op.sign : ℤ)) =
          first + op.sign * second + offset := by
        cases op <;> simp [Offset.BinaryOperator.sign] <;> ring
      rw [moved]
      split
      · next gone =>
        rw [Float64.finite.inj gone, mul_zero, add_zero] at total
        rw [← total, ← isFirst]
      · have shifted := moves.shifts (first + op.sign * second)
          (by rw [binary_value arith (literal_value arith found), isFirst]; exact sum)
        rw [binary_value arith (num_value arith _), isFirst]
        rw [← total] at shifted
        exact Prod.ext (shifted.trans (by rw [total])) rfl
    · exact moves.offsetWhole_value (by simp [getLiteralNumberValue]) isBound
  | numberLiteral _ | unaryMinus _ | other _ =>
    refine moves.offsetWhole_value (fun lit found => moves.folds (lit, offset) ?_) isBound
    simp [folded, show _ = some lit from found]

/-! ### Integers -/

def Integral (state : State) : Prop := ∀ cell, Whole (state cell)

/-- In a state, no power has a negative exponent, nothing is out of range, and what the checker
takes for an integer is one. -/
def Expression.Natural : Expression → State → Prop
  | .binary left operator right, state =>
    left.Natural state ∧ right.Natural (left.evaluate arith state).2 ∧
      (operator = .asteriskAsterisk →
        (Float64.finite 0).le (right.evaluate arith (left.evaluate arith state).2).1) ∧
      ¬ Infinite ((Expression.binary left operator right).evaluate arith state).1
  | .prefixUnary _ operand, state => operand.Natural state
  | .other isInteger _ evaluate, state =>
    isInteger = true → Whole (evaluate state).1 ∧ Integral (evaluate state).2
  | _, _ => True

lemma round_whole (integer : ℤ) :
    Whole (Float64.round integer) ∨ Infinite (Float64.round integer) :=
  Float64.round_intCast integer

lemma whole_power {base exponent : Float64} (whole : Whole base) (whole' : Whole exponent)
    (natural : (Float64.finite 0).le exponent) :
    Whole (arith.power base exponent) ∨ Infinite (arith.power base exponent) := by
  obtain ⟨base, rfl⟩ := whole
  obtain ⟨exponent, rfl⟩ := whole'
  rw [Float64.le_finite, decide_eq_true_iff] at natural
  obtain ⟨count, rfl⟩ := Int.eq_ofNat_of_zero_le (Int.cast_nonneg_iff.mp natural)
  exact_mod_cast arith.power_whole base count

variable {expr incrementor : Expression} {id : Nat} {step : ℤ} {op : BinaryOperator}

/-- What the gates take for an integer is one, in an integral state. -/
theorem whole_of_isProbablyInteger {state : State} (integer : isProbablyInteger expr)
    (natural : expr.Natural arith state) (integral : Integral state) :
    Whole (expr.evaluate arith state).1 ∧ Integral (expr.evaluate arith state).2 := by
  induction expr generalizing state with
  | numericLiteral val =>
    exact ⟨⟨val.num, congrArg Float64.finite (Rat.eq_num_of_isInt integer)⟩, integral⟩
  | identifier sym isInteger => exact ⟨integral _, integral⟩
  | sizeMacro sym => exact ⟨integral _, integral⟩
  | binary left op right ihLeft ihRight =>
    obtain ⟨naturalLeft, naturalRight, exponents, inRange⟩ := natural
    have both : (isProbablyInteger left && isProbablyInteger right) ∧ op.isAssignment = false := by
      cases op <;> first | exact ⟨integer, rfl⟩ | cases integer
    obtain ⟨integerLeft, integerRight⟩ := Bool.and_eq_true_iff.mp both.1
    obtain ⟨wholeLeft, middle⟩ := ihLeft integerLeft naturalLeft integral
    obtain ⟨wholeRight, last⟩ := ihRight integerRight naturalRight middle
    simp only [Expression.evaluate, both.2, Bool.false_eq_true, if_false] at inRange exponents ⊢
    refine ⟨Or.resolve_right ?_ inRange, last⟩
    obtain ⟨first, isFirst⟩ := wholeLeft
    obtain ⟨second, isSecond⟩ := wholeRight
    rw [isFirst, isSecond]
    cases op with
    | plus =>
      rw [BinaryOperator.apply, Float64.add]
      exact_mod_cast round_whole (first + second)
    | minus =>
      rw [BinaryOperator.apply, Float64.neg, Float64.add]
      exact_mod_cast round_whole (first + -second)
    | asterisk =>
      rw [BinaryOperator.apply, Float64.mul]
      exact_mod_cast round_whole (first * second)
    | asteriskAsterisk =>
      refine whole_power arith ⟨first, rfl⟩ ⟨second, rfl⟩ ?_
      rw [← isSecond]
      exact exponents rfl
    | _ => cases integer
  | prefixUnary op operand ih =>
    have inner : isProbablyInteger operand ∧ ∀ val, op.written val = none := by
      cases op <;> first | exact ⟨integer, fun _ => rfl⟩ | cases integer
    obtain ⟨⟨val, isValue⟩, last⟩ := ih inner.1 natural integral
    simp only [Expression.evaluate, inner.2, Option.map_none, Option.getD_none]
    refine ⟨?_, last⟩
    rw [isValue]
    cases op with
    | plus => exact ⟨val, rfl⟩
    | minus => exact ⟨-val, by rw [Int.cast_neg]; rfl⟩
    | _ => cases integer
  | postfixUnary op operand _ => cases integer
  | other isInteger place evaluate => exact natural integer

/-! ### Counting -/

/-- The loop counts, from a state on: the condition compares the declared variable, the incrementor
moves it, neither the body nor the variable itself changes the bound, and moving the bound does not
round. -/
structure Counts (node : ForStatement) (id : Nat) (decInit left : Expression)
    (operator : BinaryOperator) (right incrementor : Expression) (state : State) : Prop where
  compared : ∀ state, left.evaluate arith state = (state (.value id), state)
  moved : ∀ state step, getOptimizedIncrementorStepValue id incrementor = some step →
    (incrementor.evaluate arith state).2 =
      state.set (.value id) ((state (.value id)).add (.finite step))
  moves : getOptimizedIncrementorStepValue id incrementor ≠ some 0
  start : decInit.Natural arith state
  bound : right.Natural arith (decInit.evaluate arith state).2
  unrounded : ∀ step offset, getOptimizedIncrementorStepValue id incrementor = some step →
    endOffset operator step = some offset → offset ≠ 0 →
      MovesExactly arith (transformExpression right) offset (decInit.evaluate arith state).2
  silent : ∀ state, (right.evaluate arith state).2 = state
  apart : ∀ state value, (right.evaluate arith (state.set (.value id) value)).1 =
    (right.evaluate arith state).1
  fixed : ∀ state state', node.body state = some state' →
    (right.evaluate arith state').1 = (right.evaluate arith state).1
  written : ∀ ref ∈ node.references, ref.symbol = id → ref.role ≠ .destructured

def ForStatement.Counts (node : ForStatement) (state : State) : Prop :=
  match node.declarations, node.condition, node.incrementor with
  | some [⟨some id, some decInit⟩], some (.binary left operator right), some incrementor =>
    CountingLoop.Counts arith node id decInit left operator right incrementor state
  | _, _, _ => False

/-- The emitted test agrees with the condition, also when the variable has left the range. -/
lemma endOffset_iff {offset bound : ℤ} {val : Float64} (found : endOffset op step = some offset)
    (moves : step ≠ 0) (counted : Whole val ∨ Infinite val) :
    (if 0 < step then val.le (.finite (bound + offset)) else
        (Float64.finite (bound + offset)).le val) =
      !isFalsy (op.apply arith val (.finite bound)) := by
  have truthful : ∀ cond : Bool, isFalsy (truth cond) = !cond := by decide +kernel
  cases op <;> simp only [endOffset, Option.ite_none_left_eq_some, not_lt, gt_iff_lt,
    Option.some.injEq, reduceCtorEq] at found
  case lessThan =>
    obtain ⟨up, rfl⟩ := found
    rw [if_pos (lt_of_le_of_ne up moves.symm), BinaryOperator.apply, truthful, Bool.not_not]
    obtain ⟨n, rfl⟩ | ⟨negative, rfl⟩ := counted
    · rw [Float64.le_finite, Float64.lt, decide_eq_decide]
      norm_cast
      omega
    · exact Float64.infinite_le_finite ..
  case lessThanEquals =>
    obtain ⟨up, rfl⟩ := found
    rw [if_pos (lt_of_le_of_ne up moves.symm), BinaryOperator.apply, truthful, Bool.not_not,
      Int.cast_zero, add_zero]
  case greaterThan =>
    obtain ⟨down, rfl⟩ := found
    rw [if_neg (not_lt.mpr down), BinaryOperator.apply, truthful, Bool.not_not]
    obtain ⟨n, rfl⟩ | ⟨negative, rfl⟩ := counted
    · rw [Float64.le_finite, Float64.lt, decide_eq_decide]
      norm_cast
    · exact Float64.finite_le_infinite ..
  case greaterThanEquals =>
    obtain ⟨down, rfl⟩ := found
    rw [if_neg (not_lt.mpr down), BinaryOperator.apply, truthful, Bool.not_not, Int.cast_zero,
      add_zero]

lemma counted_add {val : Float64} (counted : Whole val ∨ Infinite val) (step : ℤ) :
    Whole (val.add (.finite step)) ∨ Infinite (val.add (.finite step)) := by
  obtain ⟨n, rfl⟩ | ⟨negative, rfl⟩ := counted
  · rw [Float64.add]
    exact_mod_cast round_whole (n + step)
  · exact .inr ⟨negative, rfl⟩

lemma role_eq_read {references : List Reference} (unmutated : isMutatedInBody references id = false)
    (written : ∀ ref ∈ references, ref.symbol = id → ref.role ≠ .destructured) :
    ∀ ref ∈ references, ref.symbol = id → ref.role = .read := by
  intro ref mem same
  have unwritten := List.any_eq_false.mp unmutated ref mem
  cases role : ref.role <;> simp_all

lemma condition_evaluate {node : ForStatement} {decInit left right : Expression} {first : State}
    (counts : Counts arith node id decInit left op right incrementor first)
    (pure' : op.isAssignment = false) (state : State) (val : Float64) :
    (Expression.binary left op right).evaluate arith (state.set (.value id) val) =
      (op.apply arith val (right.evaluate arith state).1,
        state.set (.value id) val) := by
  have bound : right.evaluate arith (state.set (.value id) val) =
      ((right.evaluate arith state).1, state.set (.value id) val) :=
    Prod.ext (counts.apart state val) (counts.silent _)
  simp [Expression.evaluate, counts.compared, bound, pure']

lemma iterations_eq {node : ForStatement} {decInit left right : Expression} {first : State}
    {bound offset : ℤ} (counts : Counts arith node id decInit left op right incrementor first)
    (stepped : getOptimizedIncrementorStepValue id incrementor = some step)
    (moved : endOffset op step = some offset)
    (kept : ∀ state state', node.body state = some state' → state' (.value id) = state (.value id))
    (count : Nat) (val : Float64) (state : State) (counted : Whole val ∨ Infinite val)
    (same : (right.evaluate arith state).1 = .finite bound) :
    iterations arith id (.binary left op right) incrementor node.body count
        (state.set (.value id) val) =
      NumericFor.iterations id (.finite (bound + offset)) step node.body count val state := by
  have moves : step ≠ 0 := fun zero => counts.moves (zero ▸ stepped)
  have pure' : op.isAssignment = false := by
    cases op <;> first | rfl | nomatch moved
  induction count generalizing val state with
  | zero => rfl
  | succ count ih =>
    have agrees := @endOffset_iff arith step op offset bound val moved moves counted
    rw [iterations, NumericFor.iterations, condition_evaluate arith counts pure', same, agrees]
    dsimp only
    cases isFalsy (op.apply arith val (.finite bound)) with
    | true => rfl
    | false =>
      simp only [Bool.false_eq_true, if_false, Bool.not_false, if_true, State.set_self]
      cases run : node.body (state.set (.value id) val) with
      | none => rfl
      | some state' =>
        have still : state' (.value id) = val := by rw [kept _ _ run, State.set_self]
        have same' : (right.evaluate arith state').1 = .finite bound := by
          rw [counts.fixed _ _ run, ← same]
          exact counts.apart state val
        dsimp only
        rw [counts.moved _ _ stepped, still, ih _ _ (counted_add counted step) same']

end Run

def wholePowers : Arithmetic where
  power base exponent :=
    match base, exponent with
    | .finite base, .finite exponent => .round (base ^ exponent.num)
    | _, _ => .nan
  operate left _ := left
  power_whole base exponent := by
    have power := round_whole (base ^ exponent)
    simpa using power

/-- `for (let i = 0; compared < 1; i++) {}` -/
def belowOne (compared : Nat) : ForStatement where
  declarations := some [⟨some 0, some (.numericLiteral 0)⟩]
  condition := some (.binary (.identifier compared false) .lessThan (.numericLiteral 1))
  incrementor := some (.postfixUnary .plusPlus (.identifier 0 false))
  references := []
  body := some
  kept _ _ _ _ _ _ _ ran := by rw [Option.some.inj ran]

/-- `n - 1` -/
def belowBound : Expression := .binary (.identifier 1 true) .minus (.numericLiteral 1)

/-- `for (let i = 0; (i) < n - 1; i += 2) {}` -/
def evenNumbers : ForStatement where
  declarations := some [⟨some 0, some (.numericLiteral 0)⟩]
  condition := some (.binary (.other false none fun state => (state (.value 0), state)) .lessThan
    belowBound)
  incrementor := some (.binary (.identifier 0 false) .plusEquals (.numericLiteral 2))
  references := []
  body := some
  kept _ _ _ _ _ _ _ ran := by rw [Option.some.inj ran]

def fives : State := fun _ => .finite 5

lemma belowBound_movesExactly :
    MovesExactly wholePowers (transformExpression belowBound) (-1) fives where
  shifts bound isBound := by
    have four : LuauExpression.evaluate wholePowers (transformExpression belowBound) fives =
      (.finite 4, fives) := Prod.ext (by decide +kernel) rfl
    rw [four] at isBound
    cases isBound
    decide +kernel
  folds sum isSum := by
    cases isSum
    exact ⟨1, rfl, by decide +kernel⟩
  sums left op right first second same isFirst isSecond := by
    cases same
    cases isFirst
    cases isSecond
    decide +kernel

end Rotor.Transformer.CountingLoop
