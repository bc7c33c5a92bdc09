import Mathlib.Tactic.Common

/-!
Programs with effects and an auxiliary state.

A program passes a state and may stop early with a signal.  Code that is generated for it often
keeps variables of its own next to that state.  `Hides p q` says that `p`, its own variables left
aside, does what `q` does: it ends in the same way, with the same value and in the same state.
-/

namespace Rotor.Lib

universe u

variable {ε σ ρ α β γ : Type u}

def forget : EStateM.Result ε (σ × ρ) α → EStateM.Result ε σ α
  | .ok value state => .ok value state.1
  | .error signal state => .error signal state.1

/-- A program that does not know of the auxiliary state. -/
def onFirst (p : EStateM ε σ α) : EStateM ε (σ × ρ) α := fun state =>
  match p state.1 with
  | .ok value next => .ok value (next, state.2)
  | .error signal next => .error signal (next, state.2)

def Hides (p : EStateM ε (σ × ρ) α) (q : EStateM ε σ α) : Prop :=
  ∀ state, forget (p state) = q state.1

lemma Hides.pure (val : α) : Hides (pure val : EStateM ε (σ × ρ) α) (pure val) :=
  fun _ => rfl

lemma Hides.onFirst (p : EStateM ε σ α) : Hides (onFirst p : EStateM ε (σ × ρ) α) p := by
  intro state
  rw [Lib.onFirst]
  cases p state.1 with
  | ok val next => rfl
  | error signal next => rfl

lemma forget_bind {p : EStateM ε (σ × ρ) α} {q : EStateM ε σ α} {f : α → EStateM ε (σ × ρ) β}
    {g : α → EStateM ε σ β} {state : σ × ρ} (first : forget (p state) = q state.1)
    (rest : ∀ val next, p state = .ok val next → forget (f val next) = g val next.1) :
    forget ((p >>= f) state) = (q >>= g) state.1 := by
  change forget (EStateM.bind p f state) = EStateM.bind q g state.1
  rw [EStateM.bind, EStateM.bind, ← first]
  cases done : p state with
  | ok val next => exact rest val next done
  | error signal next => rfl

lemma Hides.bind {p : EStateM ε (σ × ρ) α} {q : EStateM ε σ α} {f : α → EStateM ε (σ × ρ) β}
    {g : α → EStateM ε σ β} (first : Hides p q) (rest : ∀ val, Hides (f val) (g val)) :
    Hides (p >>= f) (q >>= g) :=
  fun state => forget_bind (first state) fun val next _ => rest val next

variable {p : EStateM ε σ α} {read : σ → β}

lemma onFirst_ok {state next : σ × ρ} {val : α} (done : onFirst p state = .ok val next) :
    p state.1 = .ok val next.1 ∧ next.2 = state.2 := by
  rw [onFirst] at done
  cases ran : p state.1 with
  | ok res after =>
    rw [ran] at done
    cases done
    exact ⟨rfl, rfl⟩
  | error signal after =>
    rw [ran] at done
    nomatch done

lemma onFirst_bind (p : EStateM ε σ α) (f : α → EStateM ε σ β) :
    (onFirst (p >>= f) : EStateM ε (σ × ρ) β) = onFirst p >>= fun val => onFirst (f val) := by
  funext state
  change onFirst (EStateM.bind p f) state = EStateM.bind (onFirst p) _ state
  rw [onFirst, EStateM.bind, EStateM.bind, onFirst]
  cases p state.1 with
  | ok val next => rfl
  | error signal next => rfl

/-! ### Reads -/

def inspect (read : σ → β) : EStateM ε σ β := fun state => .ok (read state) state

def Keeps (read : σ → β) (p : EStateM ε σ α) : Prop :=
  ∀ state value next, p state = .ok value next → read next = read state

lemma Keeps.pure (read : σ → β) (val : α) : Keeps read (pure val : EStateM ε σ α) := by
  rintro state _ _ ⟨⟩
  rfl

lemma Keeps.bind {f : α → EStateM ε σ γ} (first : Keeps read p)
    (rest : ∀ val, Keeps read (f val)) : Keeps read (p >>= f) := by
  intro state val next ran
  change EStateM.bind p f state = _ at ran
  rw [EStateM.bind] at ran
  cases done : p state with
  | ok middle between =>
    rw [done] at ran
    exact (rest middle between val next ran).trans (first state middle between done)
  | error signal between =>
    rw [done] at ran
    nomatch ran

lemma Keeps.onFirst (keeps : Keeps read p) :
    Keeps (fun state => read state.1) (onFirst p : EStateM ε (σ × ρ) α) :=
  fun state val next done => keeps state.1 val next.1 (onFirst_ok done).1

lemma keeps_onFirst (read : ρ → β) (p : EStateM ε σ α) :
    Keeps (fun state => read state.2) (onFirst p : EStateM ε (σ × ρ) α) :=
  fun _ _ _ done => congrArg read (onFirst_ok done).2

def runAll : List (EStateM ε σ PUnit) → EStateM ε σ PUnit
  | [] => pure ⟨⟩
  | p :: others => p >>= fun _ => runAll others

lemma runAll_append (first others : List (EStateM ε σ PUnit)) :
    runAll (first ++ others) = runAll first >>= fun _ => runAll others := by
  induction first with
  | nil => rfl
  | cons p first ih =>
    rw [List.cons_append, runAll, runAll, ih, bind_assoc]

lemma Keeps.runAll {programs : List (EStateM ε σ PUnit)} (keep : ∀ p ∈ programs, Keeps read p) :
    Keeps read (runAll programs) := by
  induction programs with
  | nil => exact Keeps.pure read _
  | cons p programs ih =>
    refine (keep p List.mem_cons_self).bind fun _ => ih fun q mem => ?_
    exact keep q (List.mem_cons_of_mem _ mem)

lemma runAll_onFirst (programs : List (EStateM ε σ PUnit)) :
    runAll (programs.map onFirst) = (onFirst (runAll programs) : EStateM ε (σ × ρ) PUnit) := by
  induction programs with
  | nil => rfl
  | cons p programs ih =>
    rw [List.map_cons, runAll, runAll, ih, onFirst_bind]

lemma bind_inspect_comm {p : EStateM ε σ PUnit} (keeps : Keeps read p) (f : β → EStateM ε σ γ) :
    (p >>= fun _ => inspect read >>= f) = inspect read >>= fun val => p >>= fun _ => f val := by
  funext state
  change EStateM.bind p (fun _ => EStateM.bind (inspect read) f) state =
    EStateM.bind (inspect read) (fun val => EStateM.bind p fun _ => f val) state
  simp only [EStateM.bind, inspect]
  cases done : p state with
  | ok val next =>
    simp only
    rw [keeps state val next done]
  | error signal next => rfl

end Rotor.Lib
