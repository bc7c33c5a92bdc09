import Mathlib.Algebra.Order.Floor.Ring
import Mathlib.Data.Rat.Floor
import Mathlib.Tactic.FieldSimp

/-!
Double precision numbers.

A finite one is the fraction that it stands for; the two zeros are one. The result of an operation
is the nearest number to the exact result, the even one of two, and infinite from `2 ^ 1024` on.
-/

namespace Rotor.Lib

inductive Float64 where
  | finite (value : ℚ)
  | infinite (negative : Bool)
  | nan
  deriving DecidableEq

namespace Float64

/-- The nearest integer; of two, the even one. -/
def halfEven (value : ℚ) : ℤ :=
  let rest := value - ⌊value⌋
  if 1 / 2 < rest ∨ rest = 1 / 2 ∧ ⌊value⌋ % 2 = 1 then ⌊value⌋ + 1 else ⌊value⌋

def unit (exponent : ℤ) : ℚ :=
  if 0 ≤ exponent then ((2 ^ exponent.toNat : ℕ) : ℚ) else 1 / ((2 ^ (-exponent).toNat : ℕ) : ℚ)

/-- The exponent of the last of 53 significant bits, and not less than that of the subnormals. -/
def exponent (value : ℚ) : ℤ :=
  let guess : ℤ := (value.num.natAbs.log2 : ℤ) - value.den.log2 - 52
  max (if |value| < unit (guess + 52) then guess - 1 else guess) (-1074)

def round (value : ℚ) : Float64 :=
  let unit := unit (exponent value)
  let rounded := halfEven (value / unit) * unit
  if |rounded| < ((2 ^ 1024 : ℕ) : ℚ) then finite rounded else infinite (decide (rounded < 0))

def neg : Float64 → Float64
  | finite value => finite (-value)
  | infinite negative => infinite !negative
  | nan => nan

def add : Float64 → Float64 → Float64
  | finite left, finite right => round (left + right)
  | infinite negative, finite _ => infinite negative
  | finite _, infinite negative => infinite negative
  | infinite negative, infinite other => if negative = other then infinite negative else nan
  | _, _ => nan

def mul : Float64 → Float64 → Float64
  | finite left, finite right => round (left * right)
  | infinite negative, finite value =>
    if value = 0 then nan else infinite (negative != decide (value < 0))
  | finite value, infinite negative =>
    if value = 0 then nan else infinite (negative != decide (value < 0))
  | infinite negative, infinite other => infinite (negative != other)
  | _, _ => nan

def lt : Float64 → Float64 → Bool
  | finite left, finite right => left < right
  | infinite negative, finite _ => negative
  | finite _, infinite negative => !negative
  | infinite negative, infinite other => negative && !other
  | _, _ => false

def le (left right : Float64) : Bool := left.lt right || left != nan && left == right

lemma le_finite (left right : ℚ) : (finite left).le (finite right) = decide (left ≤ right) := by
  rw [Bool.eq_iff_iff]
  simp [le, lt, le_iff_lt_or_eq]

lemma infinite_le_finite (negative : Bool) (right : ℚ) :
    (infinite negative).le (finite right) = negative := by
  simp [le, lt]

lemma finite_le_infinite (left : ℚ) (negative : Bool) :
    (finite left).le (infinite negative) = !negative := by
  simp [le, lt]

lemma halfEven_intCast (n : ℤ) : halfEven n = n := by
  simp [halfEven]

/-- A rounded integer is an integer. -/
lemma round_intCast (n : ℤ) :
    (∃ m : ℤ, round n = finite m) ∨ ∃ negative, round n = infinite negative := by
  obtain ⟨m, whole⟩ : ∃ m : ℤ, (halfEven (n / unit (exponent n)) : ℚ) * unit (exponent n) = m := by
    generalize exponent n = e
    by_cases up : 0 ≤ e
    · refine ⟨halfEven (n / unit e) * (2 ^ e.toNat : ℕ), ?_⟩
      rw [Int.cast_mul, Int.cast_natCast, unit, if_pos up]
    · refine ⟨n, ?_⟩
      have scaled : (n : ℚ) / unit e = ((n * (2 ^ (-e).toNat : ℕ) : ℤ) : ℚ) := by
        rw [unit, if_neg up, div_div_eq_mul_div, div_one, Int.cast_mul, Int.cast_natCast]
      rw [scaled, halfEven_intCast, ← scaled]
      have positive : unit e ≠ 0 := by
        rw [unit, if_neg up]
        positivity
      field_simp
  rw [round, whole]
  split
  · exact .inl ⟨m, rfl⟩
  · exact .inr ⟨_, rfl⟩

end Float64

end Rotor.Lib
