import Rotor.Lib.Float64
import Mathlib.Algebra.Order.Group.Unbundled.Abs
import Mathlib.Tactic.Linarith

/-!
Offsets of indices and bounds (`offsetExpr` in `access.go`).

Constants are folded in `float64`, so that a sum is rounded and may become infinite. An infinite
literal is written `Infinity`, which Luau reads as the name of a variable.
-/

namespace Rotor.Transformer.Offset

open Lib

inductive BinaryOperator where
  | plus | minus
  deriving DecidableEq

/-- Luau expressions, as far as offsets look into them; a literal has the `float64` that its text
is read as. -/
inductive Expression (A : Type) where
  | numberLiteral (value : Float64)
  | unaryMinus (expression : Expression A)
  | binary (left : Expression A) (operator : BinaryOperator) (right : Expression A)
  | other (leaf : A)

variable {A : Type}

/-- `luau.Num`. -/
def num : Float64 → Expression A
  | .finite value => if 0 ≤ value then .numberLiteral (.finite value)
    else .unaryMinus (.numberLiteral (.finite (-value)))
  | .infinite negative => if negative then .unaryMinus (.numberLiteral (.infinite false))
    else .numberLiteral (.infinite false)
  | .nan => .numberLiteral .nan

def getLiteralNumberValue : Expression A → Option Float64
  | .numberLiteral value => some value
  | .unaryMinus expression => (getLiteralNumberValue expression).map Float64.neg
  | _ => none

def BinaryOperator.sign : BinaryOperator → ℤ
  | .plus => 1
  | .minus => -1

/-- What `offsetExpr` does behind its special case. -/
def offsetWhole (expression : Expression A) (value : ℤ) : Expression A :=
  match getLiteralNumberValue expression with
  | some literalValue => num (literalValue.add (.finite value))
  | none => .binary expression (if value < 0 then .minus else .plus) (num (.finite |(value : ℚ)|))

def offsetExpr (expression : Expression A) (value : ℤ) : Expression A :=
  if value = 0 then expression
  else match expression with
    | .binary left operator right =>
      match getLiteralNumberValue right with
      | some rightValue =>
        let newRightValue := rightValue.add (.finite (value * operator.sign : ℤ))
        if newRightValue = .finite 0 then left else .binary left operator (num newRightValue)
      | none => offsetWhole expression value
    | _ => offsetWhole expression value

/-- The literal that an offset is folded into, and the summand. -/
def folded (expression : Expression A) (value : ℤ) : Option (Float64 × ℤ) :=
  match expression with
  | .binary _ operator right => (getLiteralNumberValue right).map (·, value * operator.sign)
  | _ => (getLiteralNumberValue expression).map (·, value)

/-- The sum is a `float64`. -/
def IsExact (sum : Float64 × ℤ) : Prop :=
  ∃ literal, sum.1 = .finite literal ∧ Float64.round (literal + sum.2) = .finite (literal + sum.2)

/-! ### Sums -/

/-- The value in exact arithmetic; the leaves are variables. No literal is a NaN. -/
def Expression.evaluate (env : String → ℤ) : Expression String → ℚ
  | .numberLiteral (.finite value) => value
  | .numberLiteral (.infinite negative) => if negative then -env "Infinity" else env "Infinity"
  | .numberLiteral .nan => 0
  | .other name => env name
  | .unaryMinus expression => -expression.evaluate env
  | .binary left .plus right => left.evaluate env + right.evaluate env
  | .binary left .minus right => left.evaluate env - right.evaluate env

/-- What a number is as a literal. -/
def literalEvaluate (env : String → ℤ) (value : Float64) : ℚ :=
  (Expression.numberLiteral value).evaluate env

variable {env : String → ℤ} {expr left right : Expression String} {op : BinaryOperator} {val : ℤ}
  {lit : Float64}

lemma num_evaluate : (num lit).evaluate env = literalEvaluate env lit := by
  cases lit with
  | finite value =>
    rw [num]
    split <;> simp [Expression.evaluate, literalEvaluate]
  | infinite negative => cases negative <;> simp [num, Expression.evaluate, literalEvaluate]
  | nan => rfl

lemma literal_evaluate (literal : getLiteralNumberValue expr = some lit) :
    expr.evaluate env = literalEvaluate env lit := by
  induction expr generalizing lit with
  | numberLiteral value =>
    cases literal
    rfl
  | unaryMinus expr ih =>
    obtain ⟨inner, found, rfl⟩ := Option.map_eq_some_iff.mp literal
    rw [Expression.evaluate, ih found]
    cases inner with
    | finite value => rfl
    | infinite negative =>
      cases negative <;> simp [literalEvaluate, Expression.evaluate, Float64.neg]
    | nan => simp [literalEvaluate, Expression.evaluate, Float64.neg]
  | other _ | binary _ _ _ => nomatch literal

lemma binary_evaluate : (Expression.binary left op right).evaluate env =
    left.evaluate env + op.sign * right.evaluate env := by
  cases op with
  | plus => simp [Expression.evaluate, BinaryOperator.sign]
  | minus => simp [Expression.evaluate, BinaryOperator.sign, sub_eq_add_neg]

/-- A folded sum has its value exactly when it is a `float64`. -/
lemma literalEvaluate_add_iff (nonzero : val ≠ 0) :
    (∀ env, literalEvaluate env (lit.add (.finite val)) = literalEvaluate env lit + val) ↔
      IsExact (lit, val) := by
  constructor
  · intro adds
    cases lit with
    | finite literal =>
      refine ⟨literal, rfl, ?_⟩
      have summed (env : String → ℤ) :
          literalEvaluate env (.round (literal + val)) = literal + val :=
        adds env
      cases rounded : Float64.round (literal + val) with
      | finite value =>
        rw [rounded] at summed
        rw [show value = literal + val from summed fun _ => 0]
      | infinite negative =>
        have zero := summed fun _ => 0
        have one := summed fun _ => 1
        rw [rounded] at zero one
        cases negative <;> simp [literalEvaluate, Expression.evaluate] at zero one <;> linarith
      | nan =>
        rw [Float64.round] at rounded
        split at rounded <;> cases rounded
    | infinite negative =>
      have moved : literalEvaluate (fun _ => 0) (.infinite negative) = _ := adds fun _ => 0
      simp [nonzero] at moved
    | nan =>
      have moved : literalEvaluate (fun _ => 0) .nan = _ := adds fun _ => 0
      simp [nonzero] at moved
  · rintro ⟨literal, rfl, exact'⟩ env
    simp only [Float64.add, exact']
    rfl

lemma offsetWhole_adds_iff (nonzero : val ≠ 0) :
    (∀ env, (offsetWhole expr val).evaluate env = expr.evaluate env + val) ↔
      ∀ lit ∈ getLiteralNumberValue expr, IsExact (lit, val) := by
  rw [offsetWhole]
  cases found : getLiteralNumberValue expr with
  | none =>
    refine iff_of_true (fun env => ?_) (by simp)
    dsimp only
    rw [binary_evaluate, num_evaluate]
    by_cases negative : val < 0
    · simp [literalEvaluate, Expression.evaluate, negative, BinaryOperator.sign, abs_of_neg]
    · simp [literalEvaluate, Expression.evaluate, negative, BinaryOperator.sign,
        abs_of_nonneg (Int.cast_nonneg (not_lt.mp negative))]
  | some lit =>
    simp only [num_evaluate, literal_evaluate found, Option.mem_some_iff, forall_eq']
    exact literalEvaluate_add_iff nonzero

/-- The literal on the right of a sum or a difference takes the offset with the operator's sign. -/
lemma offsetRight_adds_iff (nonzero : val ≠ 0) (found : getLiteralNumberValue right = some lit) :
    (∀ env, (offsetExpr (.binary left op right) val).evaluate env =
      (Expression.binary left op right).evaluate env + val) ↔ IsExact (lit, val * op.sign) := by
  have unsigned : val * op.sign ≠ 0 := mul_ne_zero nonzero (by cases op <;> decide)
  have evaluated (env : String → ℤ) : (offsetExpr (.binary left op right) val).evaluate env =
      left.evaluate env + op.sign *
        literalEvaluate env (lit.add (.finite (val * op.sign : ℤ))) := by
    simp only [offsetExpr, nonzero, found, if_false]
    split
    next gone => rw [gone, literalEvaluate, Expression.evaluate, mul_zero, add_zero]
    · rw [binary_evaluate, num_evaluate]
  simp only [evaluated, binary_evaluate, literal_evaluate found,
    ← literalEvaluate_add_iff unsigned, add_assoc, add_right_inj]
  refine forall_congr' fun env => ?_
  cases op with
  | plus => simp [BinaryOperator.sign]
  | minus =>
    simp only [BinaryOperator.sign, Int.cast_neg, Int.cast_one, neg_one_mul, mul_neg_one]
    constructor <;> intro same <;> linarith

/-- An offset adds up exactly when the sum that is folded, if any, is a `float64`. -/
theorem offsetExpr_adds_iff (expr : Expression String) (val : ℤ) :
    (∀ env, (offsetExpr expr val).evaluate env = expr.evaluate env + val) ↔
      val = 0 ∨ ∀ sum ∈ folded expr val, IsExact sum := by
  by_cases zero : val = 0
  · simp [offsetExpr, zero]
  rw [or_iff_right zero]
  cases expr with
  | binary left op right =>
    cases found : getLiteralNumberValue right with
    | none =>
      have whole : offsetExpr (.binary left op right) val =
          offsetWhole (.binary left op right) val := by
        simp [offsetExpr, zero, found]
      rw [whole, offsetWhole_adds_iff zero]
      simp [folded, found, getLiteralNumberValue]
    | some lit =>
      rw [offsetRight_adds_iff zero found]
      simp [folded, found]
  | numberLiteral _ | other _ | unaryMinus _ =>
    simp only [offsetExpr, zero, if_false, offsetWhole_adds_iff zero]
    simp [folded]

/-- The literal `9007199254740992` is its own offset by one. -/
theorem offsetExpr_fails :
    ¬ ∀ env, (offsetExpr (.numberLiteral (.finite 9007199254740992)) 1).evaluate env =
      (Expression.numberLiteral (.finite 9007199254740992)).evaluate env + (1 : ℤ) :=
  fun adds => absurd (adds fun _ => 0) (by decide +kernel)

end Rotor.Transformer.Offset
