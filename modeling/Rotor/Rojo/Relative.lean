import Rotor.Rojo.Resolver

/-!
Relative Roblox paths (`rojo/resolver.go`).

A relative path goes up to where its two ends part and down from there. A step of a walk changes the
distance to its end by one, so that no walk is shorter.
-/

namespace Rotor.Rojo

open List

inductive RelativeRbxPathSegment where
  | parent
  | name (name : Bytes)
  deriving DecidableEq

abbrev RelativeRbxPath := List RelativeRbxPathSegment

/-- The first index at which the paths differ. An index behind the end of one of them differs. -/
def diffIndex : RbxPath → RbxPath → Nat
  | a :: rbxFrom, b :: rbxTo => if a = b then diffIndex rbxFrom rbxTo + 1 else 0
  | _, _ => 0

def relative (rbxFrom rbxTo : RbxPath) : RelativeRbxPath :=
  List.replicate (rbxFrom.length - diffIndex rbxFrom rbxTo) .parent ++
    (rbxTo.drop (diffIndex rbxFrom rbxTo)).map .name

/-- Nothing is above the root. -/
def walk : RbxPath → RelativeRbxPath → Option RbxPath
  | rbxPath, [] => some rbxPath
  | rbxPath, .parent :: path => if rbxPath = [] then none else walk rbxPath.dropLast path
  | rbxPath, .name name :: path => walk (rbxPath ++ [name]) path

variable {start rbxFrom rbxTo : RbxPath}

lemma diffIndex_le (rbxFrom rbxTo : RbxPath) : diffIndex rbxFrom rbxTo ≤ rbxFrom.length ∧
    rbxFrom.take (diffIndex rbxFrom rbxTo) = rbxTo.take (diffIndex rbxFrom rbxTo) := by
  fun_induction diffIndex rbxFrom rbxTo with
  | case1 a rbxFrom rbxTo ih => simpa using ih
  | case2 => simp
  | case3 => simp

lemma diffIndex_concat (rbxFrom rbxTo : RbxPath) (name : Bytes) :
    diffIndex rbxFrom rbxTo ≤ diffIndex (rbxFrom ++ [name]) rbxTo ∧
      diffIndex (rbxFrom ++ [name]) rbxTo ≤ diffIndex rbxFrom rbxTo + 1 := by
  fun_induction diffIndex rbxFrom rbxTo with
  | case1 a rbxFrom rbxTo ih => simpa [diffIndex] using ih
  | case2 a rbxFrom b rbxTo differ => simp [diffIndex, differ]
  | case3 rbxFrom rbxTo ends =>
    refine ⟨Nat.zero_le _, ?_⟩
    cases rbxTo with
    | nil => cases rbxFrom <;> simp [diffIndex]
    | cons b rbxTo =>
      cases rbxFrom with
      | nil => simp only [nil_append, diffIndex]; split <;> omega
      | cons a rbxFrom => exact absurd rfl (ends a rbxFrom b rbxTo rfl)

lemma diffIndex_self (rbxPath : RbxPath) : diffIndex rbxPath rbxPath = rbxPath.length := by
  induction rbxPath with
  | nil => rfl
  | cons name names ih => simp [diffIndex, ih]

lemma length_relative : (relative rbxFrom rbxTo).length + 2 * diffIndex rbxFrom rbxTo =
    rbxFrom.length + rbxTo.length := by
  have ⟨le, same⟩ := diffIndex_le rbxFrom rbxTo
  have le' := congrArg List.length same
  simp only [length_take] at le'
  simp only [relative, length_append, length_replicate, length_map, length_drop]
  omega

lemma walk_parents {count : Nat} (below : count ≤ start.length) (path : RelativeRbxPath) :
    walk start (List.replicate count .parent ++ path) =
      walk (start.take (start.length - count)) path := by
  induction count generalizing start with
  | zero => simp
  | succ count ih =>
    have nonempty : start ≠ [] := by
      rintro rfl
      nomatch below
    have shorter : start.dropLast.length = start.length - 1 := length_dropLast
    rw [replicate_succ, cons_append, walk, if_neg nonempty, ih (by omega), shorter,
      dropLast_eq_take, take_take]
    congr 2
    omega

lemma walk_names (start names : RbxPath) :
    walk start (names.map .name) = some (start ++ names) := by
  induction names generalizing start with
  | nil => simp [walk]
  | cons name names ih => simp [walk, ih]

/-- No walk brings its start nearer to its end than by one with each step. -/
theorem length_relative_le {path : RelativeRbxPath} (arrives : walk start path = some rbxTo) :
    (relative start rbxTo).length ≤ path.length := by
  induction path generalizing start with
  | nil =>
    obtain rfl : start = rbxTo := Option.some.inj arrives
    have length := @length_relative start start
    rw [diffIndex_self] at length
    simp only [length_nil]
    omega
  | cons segment path ih =>
    have length := @length_relative start rbxTo
    cases segment with
    | parent =>
      rw [walk] at arrives
      split at arrives
      · nomatch arrives
      · next nonempty =>
        have near := ih arrives
        have length' := @length_relative start.dropLast rbxTo
        have step := (diffIndex_concat start.dropLast rbxTo (start.getLast nonempty)).1
        rw [dropLast_concat_getLast] at step
        rw [length_dropLast] at length'
        simp only [length_cons]
        omega
    | name name =>
      have near := ih arrives
      have length' := @length_relative (start ++ [name]) rbxTo
      have step := (diffIndex_concat start rbxTo name).2
      simp only [length_append, length_cons, length_nil] at length' ⊢
      omega

/-- A relative path leads to its target, and no shorter one does. -/
theorem walk_relative (rbxFrom rbxTo : RbxPath) :
    walk rbxFrom (relative rbxFrom rbxTo) = some rbxTo ∧
      ∀ path, walk rbxFrom path = some rbxTo → (relative rbxFrom rbxTo).length ≤ path.length := by
  refine ⟨?_, fun path => length_relative_le⟩
  have ⟨le, same⟩ := diffIndex_le rbxFrom rbxTo
  rw [relative, walk_parents (Nat.sub_le _ _), walk_names, Nat.sub_sub_self le, same,
    take_append_drop]

example : relative [str "a", str "b"] [str "a", str "c"] = [.parent, .name (str "c")] := by decide

end Rotor.Rojo
