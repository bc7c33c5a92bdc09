import Mathlib.Tactic.Common

/-!
Computations that may fail, with or without a state that they hand on.

A relation between states that is reflexive and transitive holds between the first and the
last state of a computation when it holds for its parts.
-/

namespace Rotor.Lib.Action

variable {ε σ α β : Type}

variable {res : β} {first : ExceptT ε (StateM σ) α}

lemma bind_eq_ok {first : Except ε α} {next : α → Except ε β} :
    (first >>= next) = .ok res ↔ ∃ val, first = .ok val ∧ next val = .ok res := by
  cases first with
  | error error => simp [bind, Except.bind]
  | ok val => simp [bind, Except.bind]

lemma returned_bind_eq_ok {first : ExceptT ε Option α} {next : α → ExceptT ε Option β} :
    (first >>= next) = some (.ok res) ↔
      ∃ val, first = some (.ok val) ∧ next val = some (.ok res) := by
  have unfolded : (first >>= next) = Option.bind first (ExceptT.bindCont next) := rfl
  rw [unfolded, Option.bind_eq_some_iff]
  constructor
  · rintro ⟨error | val, returned, continued⟩
    · nomatch continued
    · exact ⟨val, returned, continued⟩
  · rintro ⟨val, returned, continued⟩
    exact ⟨.ok val, returned, continued⟩

lemma returned_bind {first : ExceptT ε Option α} {next : α → ExceptT ε Option β}
    (returns : first ≠ none) (later : ∀ val, first = some (.ok val) → next val ≠ none) :
    (first >>= next) ≠ none := by
  have unfolded : (first >>= next) = Option.bind first (ExceptT.bindCont next) := rfl
  rw [unfolded]
  match first, returns, later with
  | some (.error error), _, _ => exact fun stuck => nomatch stuck
  | some (.ok val), _, later => exact later val rfl

lemma run_bind_eq_ok {next : α → ExceptT ε (StateM σ) β} {s s' : σ} :
    (first >>= next) s = (.ok res, s') ↔
      ∃ val middle, first s = (.ok val, middle) ∧ next val middle = (.ok res, s') := by
  have unfolded : (first >>= next) s = ExceptT.bindCont next (first s).1 (first s).2 := rfl
  rw [unfolded]
  rcases first s with ⟨error | val, middle⟩
  · exact ⟨fun failed => (nomatch failed), fun ⟨_, _, failed, _⟩ => (nomatch failed)⟩
  · refine ⟨fun continued => ⟨val, middle, rfl, continued⟩, ?_⟩
    rintro ⟨_, _, ⟨⟩, continued⟩
    exact continued

/-- The relation holds between the state before and the state after, whether the
computation fails or not. -/
def Keeps (related : σ → σ → Prop) (action : ExceptT ε (StateM σ) α) : Prop :=
  ∀ s, related s (action s).2

variable {related : σ → σ → Prop}

lemma Keeps.pure [Std.Refl related] (val : α) :
    Keeps related (pure val : ExceptT ε (StateM σ) α) := fun s => refl s

lemma Keeps.throw [Std.Refl related] (error : ε) :
    Keeps related (throw error : ExceptT ε (StateM σ) α) := fun s => refl s

lemma Keeps.bind [IsTrans σ related] {next : α → ExceptT ε (StateM σ) β}
    (kept : Keeps related first) (later : ∀ val, Keeps related (next val)) :
    Keeps related (first >>= next) := by
  intro s
  have unfolded : (first >>= next) s = ExceptT.bindCont next (first s).1 (first s).2 := rfl
  rw [unfolded]
  have before := kept s
  revert before
  rcases first s with ⟨error | val, middle⟩
  · exact id
  · intro before
    exact trans_of related before (later val middle)

lemma Keeps.ite {cond : Prop} [Decidable cond] {second : ExceptT ε (StateM σ) α}
    (kept : Keeps related first) (kept' : Keeps related second) :
    Keeps related (if cond then first else second) := by
  split
  · exact kept
  · exact kept'

lemma Keeps.mapM [Std.Refl related] [IsTrans σ related] {make : α → ExceptT ε (StateM σ) β}
    (kept : ∀ elem, Keeps related (make elem)) (elements : List α) :
    Keeps related (elements.mapM make) := by
  induction elements with
  | nil => exact Keeps.pure []
  | cons elem elements ih =>
    rw [List.mapM_cons]
    exact (kept elem).bind fun _ => ih.bind fun _ => Keeps.pure _

end Rotor.Lib.Action
