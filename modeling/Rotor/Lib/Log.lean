import Mathlib.Data.List.Basic

/-!
Runs that append to a log.

Two logs have parted when they differ at a place both have. What is appended later cannot bring
them together again, so two runs of the same steps end with one log exactly when no step parts
them.
-/

namespace Rotor.Lib

variable {Event : Type}

/-- The logs agree up to a place and differ there. -/
def Parted (left right : List Event) : Prop :=
  ∃ before first second, first ≠ second ∧ before ++ [first] <+: left ∧ before ++ [second] <+: right

variable {left right : List Event}

lemma Parted.extend {longer further : List Event} (parted : Parted left right)
    (leftPrefix : left <+: longer) (rightPrefix : right <+: further) : Parted longer further := by
  obtain ⟨before, first, second, different, inLeft, inRight⟩ := parted
  exact ⟨before, first, second, different, inLeft.trans leftPrefix, inRight.trans rightPrefix⟩

lemma Parted.ne (parted : Parted left right) : left ≠ right := by
  rintro rfl
  obtain ⟨before, first, second, different, inLeft, inRight⟩ := parted
  have same := List.prefix_of_prefix_length_le inLeft inRight (by simp)
  have equal := same.eq_of_length (by simp)
  exact different (List.singleton_inj.mp (List.append_cancel_left equal))

/-- Steps that only append: the same where a condition holds, and parting where it does not. -/
structure Follows (condition : Prop) (run spec : List Event → List Event) : Prop where
  longer : ∀ log, log <+: run log
  specLonger : ∀ log, log <+: spec log
  same : condition → ∀ log, run log = spec log
  parts : ¬ condition → ∀ log, Parted (run log) (spec log)

namespace Follows

variable {cond later : Prop} {run spec next specNext : List Event → List Event}

lemma refl (longer : ∀ log, log <+: run log) : Follows True run run :=
  ⟨longer, longer, fun _ _ => rfl, fun absurdly => absurd trivial absurdly⟩

lemma congr (follows : Follows cond run spec) (same : cond ↔ later) : Follows later run spec := by
  rwa [← same]

lemma eq_iff (follows : Follows cond run spec) (log : List Event) : run log = spec log ↔ cond :=
  ⟨fun equal => by_contra fun fails => (follows.parts fails log).ne equal,
    fun holds => follows.same holds log⟩

/-- One step after the other. What follows has to be compared from one log only. -/
theorem bind (first : Follows cond run spec) (second : Follows later next specNext) :
    Follows (cond ∧ later) (fun log => next (run log)) fun log => specNext (spec log) where
  longer log := (first.longer log).trans (second.longer _)
  specLonger log := (first.specLonger log).trans (second.specLonger _)
  same both log := by rw [first.same both.1, second.same both.2]
  parts fails log := by
    by_cases holds : cond
    · rw [first.same holds]
      exact second.parts (fun last => fails ⟨holds, last⟩) _
    · exact (first.parts holds log).extend (second.longer _) (second.specLonger _)

/-- The steps may depend on what the log is. -/
theorem choose {Choice : Type} {runs specs : Choice → List Event → List Event}
    (follows : ∀ choice, Follows cond (runs choice) (specs choice)) (pick : List Event → Choice) :
    Follows cond (fun log => runs (pick log) log) fun log => specs (pick log) log where
  longer log := (follows _).longer log
  specLonger log := (follows _).specLonger log
  same holds log := (follows _).same holds log
  parts fails log := (follows _).parts fails log

lemma append (first second : Event) :
    Follows (first = second) (fun log => log ++ [first]) fun log => log ++ [second] where
  longer _ := List.prefix_append _ _
  specLonger _ := List.prefix_append _ _
  same equal _ := by rw [equal]
  parts different log := ⟨log, first, second, different, List.prefix_rfl, List.prefix_rfl⟩

end Follows

end Rotor.Lib
