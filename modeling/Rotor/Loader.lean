import Mathlib.Logic.Function.Basic
import Mathlib.Logic.Relation
import Mathlib.Tactic.Common

/-!
The loaders of emitted modules: `load_N` of a bundle (`writeLoader` in `bundle/bundle.go`) and
`rotorRequire` of a pack (`pack/luau.go`), which use two tables in the same way.
-/

namespace Rotor.Loader

open Function Relation

/-- What is left of a body. It goes on with the value of a load, and with none where the load
raised an error; a body that does not catch it raises it again. -/
inductive Body (V : Type) where
  | done (value : V)
  | raise
  | load (id : Nat) (next : Option V → Body V)

/-- The running body, the unfinished loads, each with how its caller goes on, and the tables. -/
structure State (V : Type) where
  body : Body V
  stack : List (Nat × (Option V → Body V))
  cache : Nat → Option V
  loading : Nat → Bool

variable {V : Type} (modules : Nat → Body V) (main : Body V)

def State.unfinished (s : State V) : List Nat := s.stack.map Prod.fst

/-- A load of the module raises "Requested module was required recursively". -/
def State.Recursive (s : State V) (id : Nat) : Prop := s.cache id = none ∧ s.loading id

/-- A body that has ended behind all loads stays as it is. -/
def step (s : State V) : State V :=
  match s.body, s.stack with
  | .load id next, stack =>
    match s.cache id with
    | some value => { s with body := next (some value) }
    | none =>
      if s.loading id then { s with body := next none }
      else ⟨modules id, (id, next) :: stack, s.cache, update s.loading id true⟩
  | .done value, (id, next) :: stack =>
    ⟨next (some value), stack, update s.cache id (some value), update s.loading id false⟩
  | .raise, (_, next) :: stack => ⟨next none, stack, s.cache, s.loading⟩
  | _, [] => s

def start : State V := ⟨main, [], fun _ => none, fun _ => false⟩

def Reaches : State V → State V → Prop := ReflTransGen fun s t => step modules s = t

/-- A module that has returned is not run again and keeps its value, and the error is raised for
the modules on the stack only. -/
structure Faithful : Prop where
  once : ∀ s t id value next, Reaches modules (start main) s → s.body = .done value →
    s.unfinished.head? = some id → Reaches modules s t → t.body = .load id next →
      step modules t = { t with body := next (some value) }
  cycles : ∀ s id next, Reaches modules (start main) s → s.body = .load id next →
    (s.Recursive id ↔ id ∈ s.unfinished)

def Raised (id : Nat) (t : State V) : Prop := ∃ s, Reaches modules (start main) s ∧
  s.body = .raise ∧ s.unfinished.head? = some id ∧ Reaches modules s t

/-- No module is loaded again after its body has raised an error. -/
def GivesUp : Prop := ∀ t id next, Raised modules main id t → t.body ≠ .load id next

attribute [local grind =] State.unfinished State.Recursive update_apply

variable {modules main} {s t : State V} {id : Nat} {value : V}

structure Valid (s : State V) : Prop where
  nodup : s.unfinished.Nodup
  recursive : ∀ id ∈ s.unfinished, s.Recursive id

lemma Valid.step (valid : Valid s) : Valid (step modules s) := by
  obtain ⟨nodup, recursive⟩ := valid
  unfold Loader.step
  repeat' split
  all_goals constructor <;> grind

lemma valid_of_reaches (reaches : Reaches modules (start main) s) : Valid s := by
  induction reaches with
  | refl => exact ⟨List.nodup_nil, by rintro _ ⟨⟩⟩
  | tail _ stepped ih => exact stepped ▸ ih.step

/-- Behind the end of its body, a module is off the stack and in the cache. -/
theorem returned_stays (valid : Valid s) (ends : s.body = .done value)
    (top : s.unfinished.head? = some id) (reaches : Reaches modules s t) :
    t = s ∨ t.cache id = some value ∧ id ∉ t.unfinished := by
  obtain ⟨nodup, -⟩ := valid
  induction reaches with
  | refl => exact .inl rfl
  | tail _ stepped ih =>
    subst stepped
    unfold step
    repeat' split
    all_goals grind

/-- Behind the error of its body, a module is off the stack and marked as loading. -/
theorem raised_stays (valid : Valid s) (ends : s.body = .raise)
    (top : s.unfinished.head? = some id) (reaches : Reaches modules s t) :
    t = s ∨ t.Recursive id ∧ id ∉ t.unfinished := by
  obtain ⟨nodup, recursive⟩ := valid
  induction reaches with
  | refl => exact .inl rfl
  | tail _ stepped ih =>
    subst stepped
    unfold step
    repeat' split
    all_goals grind

/-- A module that is marked as loading is on the stack, or its body has raised an error. -/
theorem loading_cases (reaches : Reaches modules (start main) s) :
    s.loading id → id ∈ s.unfinished ∨ Raised modules main id s := by
  induction reaches with
  | refl => rintro ⟨⟩
  | @tail s t before stepped ih =>
    have later : Raised modules main id s → Raised modules main id t := by
      rintro ⟨r, started, raise, top, reaches⟩
      exact ⟨r, started, raise, top, reaches.tail stepped⟩
    have now (raise : s.body = .raise) (top : s.unfinished.head? = some id) :
        Raised modules main id t := ⟨s, before, raise, top, .single stepped⟩
    generalize Raised modules main id t = raised at later now ⊢
    subst stepped
    unfold step
    repeat' split
    all_goals grind

/-- The loaders are right exactly when no module is loaded again behind an error of its body. -/
theorem faithful_iff (modules : Nat → Body V) (main : Body V) :
    Faithful modules main ↔ GivesUp modules main := by
  constructor
  · rintro faithful t id next ⟨s, started, raise, top, reaches⟩ loads
    obtain rfl | ⟨recursive, ended⟩ := raised_stays (valid_of_reaches started) raise top reaches
    · cases raise.symm.trans loads
    · exact ended ((faithful.cycles t id next (started.trans reaches) loads).mp recursive)
  · intro givesUp
    refine ⟨?_, ?_⟩
    · intro s t id value next started ends top reaches loads
      obtain rfl | ⟨cached, -⟩ := returned_stays (valid_of_reaches started) ends top reaches
      · cases ends.symm.trans loads
      · rw [step, loads]
        simp [cached]
    · intro s id next started loads
      refine ⟨fun recursive => ?_, (valid_of_reaches started).recursive id⟩
      refine (loading_cases started recursive.2).resolve_right fun raised => ?_
      exact givesUp s id next raised loads

/-- A body that raises an error is loaded twice; the second load is no cycle. -/
theorem faithful_fails :
    ¬ Faithful (fun _ => .raise) (.load 0 fun _ => .load 0 fun _ => .done ()) := by
  intro faithful
  have second := faithful.cycles _ 0 _ (.tail (.single rfl) rfl) rfl
  exact absurd (second.mp ⟨rfl, rfl⟩) List.not_mem_nil

end Rotor.Loader
