import Mathlib.Tactic.Common

/-!
Total correctness of computations that pass a state and may fail.

`Returns p s post` says that `p`, started in `s`, does not fail and ends with a
value and a state that satisfy `post`.  A bounded loop fails when its bound is
used up; the loop rule discharges that with a measure on the state.
-/

namespace Rotor.Lib

universe u

variable {σ α β : Type u}

def Returns (p : StateT σ Option α) (s : σ) (post : α → σ → Prop) : Prop :=
  ∃ value next, p s = some (value, next) ∧ post value next

variable {s : σ} {mid : α → σ → Prop} {p : StateT σ Option α} {post : β → σ → Prop}

lemma Returns.pure {val : α} {post : α → σ → Prop} (holds : post val s) :
    Returns (pure val) s post := ⟨val, s, rfl, holds⟩

lemma Returns.bind {f : α → StateT σ Option β} (first : Returns p s mid)
    (rest : ∀ val next, mid val next → Returns (f val) next post) : Returns (p >>= f) s post := by
  obtain ⟨val, next, ran, holds⟩ := first
  obtain ⟨res, final, finished, established⟩ := rest val next holds
  refine ⟨res, final, ?_, established⟩
  change (p s).bind (fun pair => f pair.1 pair.2) = _
  rw [ran]
  exact finished

lemma Returns.map {f : α → β} (first : Returns p s mid)
    (rest : ∀ val next, mid val next → post (f val) next) : Returns (f <$> p) s post := by
  obtain ⟨val, next, ran, holds⟩ := first
  refine ⟨f val, next, ?_, rest val next holds⟩
  change (p s).bind (fun pair => some (f pair.1, pair.2)) = _
  rw [ran]
  rfl

lemma Returns.mono {post : α → σ → Prop} (first : Returns p s mid)
    (weaker : ∀ val next, mid val next → post val next) : Returns p s post := by
  obtain ⟨val, next, ran, holds⟩ := first
  exact ⟨val, next, ran, weaker val next holds⟩

lemma Returns.get {f : σ → StateT σ Option β} (rest : Returns (f s) s post) :
    Returns (get >>= f) s post := rest

lemma Returns.ite {test : Bool} {q : StateT σ Option α} {post : α → σ → Prop}
    (yes : test → Returns p s post) (no : test = false → Returns q s post) :
    Returns (if test then p else q) s post := by
  cases test with
  | true => exact yes rfl
  | false => exact no rfl

def onlyIf (test : σ → Bool) (p : StateT σ Option α) : StateT σ Option (Option α) := do
  if test (← get) then some <$> p else return none

lemma Returns.onlyIf {test : σ → Bool} {post : Option α → σ → Prop}
    (taken : test s = true → Returns p s (fun val next => post (some val) next))
    (skipped : test s = false → post none s) : Returns (onlyIf test p) s post := by
  apply Returns.get
  cases tested : test s with
  | true => exact (taken tested).map fun _ _ holds => holds
  | false => exact Returns.pure (skipped tested)

lemma Returns.onlyIf_skip {test : σ → Bool} {f : Option α → StateT σ Option β}
    (skipped : test s = false) (rest : Returns (f none) s post) :
    Returns (Lib.onlyIf test p >>= f) s post := by
  have nothing : Returns (Lib.onlyIf test p) s fun val next => val = none ∧ next = s := by
    apply Returns.onlyIf
    · intro taken
      exact absurd (taken.symm.trans skipped) (by decide)
    · exact fun _ => ⟨rfl, rfl⟩
  refine nothing.bind ?_
  rintro _ _ ⟨rfl, rfl⟩
  exact rest

/-- A loop of at most so many turns: a turn ends with the next accumulator or
with the result. -/
def iterate (turn : α → StateT σ Option (α ⊕ β)) : Nat → α → StateT σ Option β
  | 0, _ => fun _ => none
  | bound + 1, acc => do
    match ← turn acc with
    | .inl acc => iterate turn bound acc
    | .inr result => return result

/-- The loop rule: an invariant that a turn keeps while it decreases a measure of
the state, or leaves for the postcondition. -/
theorem Returns.iterate {turn : α → StateT σ Option (α ⊕ β)} {inv : α → σ → Prop}
    (measure : σ → Nat)
    (step : ∀ acc s, inv acc s → Returns (turn acc) s fun res next =>
      match res with
      | .inl acc => inv acc next ∧ measure next < measure s
      | .inr res => post res next) :
    ∀ bound acc s, inv acc s → measure s < bound → Returns (iterate turn bound acc) s post := by
  intro bound
  induction bound with
  | zero =>
    intro acc s _ small
    exact absurd small (Nat.not_lt_zero _)
  | succ bound ih =>
    intro acc s holds small
    refine (step acc s holds).bind ?_
    intro res next after
    cases res with
    | inl acc => exact ih acc next after.1 (by omega)
    | inr res => exact Returns.pure after

end Rotor.Lib
