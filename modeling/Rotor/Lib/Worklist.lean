import Mathlib.Logic.Relation
import Mathlib.Tactic.Common

/-!
Breadth-first search with a queue that may hold a node more than once.

Within a finite list of nodes that the search does not leave, it ends, and it has then seen
the nodes that can be reached from the queue.
-/

namespace Rotor.Lib.Worklist

open List

variable {α : Type} [DecidableEq α]

def close (next : α → List α) : Nat → List α → List α → List α
  | _, [], seen => seen
  | 0, _ :: _, seen => seen
  | fuel + 1, node :: queue, seen =>
    if node ∈ seen then close next fuel queue seen
    else close next fuel (queue ++ next node) (node :: seen)

def pending (next : α → List α) (seen : List α) : List α → Nat
  | [] => 0
  | node :: nodes => (if node ∈ seen then 0 else (next node).length) + pending next seen nodes

variable {next : α → List α}

lemma pending_mono (nodes seen : List α) (node : α) :
    pending next (node :: seen) nodes ≤ pending next seen nodes := by
  induction nodes with
  | nil => exact Nat.le_refl _
  | cons first nodes ih =>
    simp only [pending, mem_cons]
    grind

variable {nodes seen : List α} {node : α}

/-- Looking at a node moves its successors from what is pending into the queue. -/
theorem pending_cons (mem : node ∈ nodes) (unseen : node ∉ seen) :
    pending next (node :: seen) nodes + (next node).length ≤ pending next seen nodes := by
  induction nodes with
  | nil => nomatch mem
  | cons first nodes ih =>
    have rest := @pending_mono _ _ next nodes seen node
    rcases mem_cons.mp mem with rfl | mem
    · simp only [pending, mem_cons, true_or, if_true, unseen, if_false]
      omega
    · have below := ih mem
      simp only [pending, mem_cons]
      grind

variable {queue : List α}

omit [DecidableEq α] in
lemma reached_of_followed
    (followed : ∀ node ∈ seen, ∀ successor ∈ next node, successor ∈ seen ∨ successor ∈ queue)
    {target : α} (mem : node ∈ seen)
    (reached : Relation.ReflTransGen (fun a b => b ∈ next a) node target) :
    target ∈ seen ∨ ∃ node ∈ queue, Relation.ReflTransGen (fun a b => b ∈ next a) node target := by
  induction reached using Relation.ReflTransGen.head_induction_on with
  | refl => exact Or.inl mem
  | head edge rest ih =>
    rcases followed _ mem _ edge with inSeen | inQueue
    · exact ih inSeen
    · exact Or.inr ⟨_, inQueue, rest⟩

/-- The search sees what it has seen and what can be reached from the queue. -/
theorem mem_close {fuel : Nat} (inside : ∀ node ∈ queue, node ∈ nodes)
    (closed : ∀ node ∈ nodes, ∀ successor ∈ next node, successor ∈ nodes)
    (followed : ∀ node ∈ seen, ∀ successor ∈ next node, successor ∈ seen ∨ successor ∈ queue)
    (enough : queue.length + pending next seen nodes ≤ fuel) (target : α) :
    target ∈ close next fuel queue seen ↔ target ∈ seen ∨
      ∃ node ∈ queue, Relation.ReflTransGen (fun a b => b ∈ next a) node target := by
  induction fuel generalizing queue seen with
  | zero =>
    obtain rfl : queue = [] := eq_nil_of_length_eq_zero (by omega)
    simp [close]
  | succ fuel ih =>
    cases queue with
    | nil => simp [close]
    | cons node queue =>
      rw [close]
      rw [length_cons] at enough
      split
      · rename_i met
        have followed' : ∀ node ∈ seen, ∀ successor ∈ next node,
            successor ∈ seen ∨ successor ∈ queue := by
          intro other mem successor edge
          rcases followed other mem successor edge with inSeen | inQueue
          · exact Or.inl inSeen
          · rcases mem_cons.mp inQueue with rfl | inQueue
            · exact Or.inl met
            · exact Or.inr inQueue
        rw [ih (fun other mem => inside other (by simp [mem])) followed' (by omega)]
        constructor
        · rintro (inSeen | ⟨other, mem, reached⟩)
          · exact Or.inl inSeen
          · exact Or.inr ⟨other, by simp [mem], reached⟩
        · rintro (inSeen | ⟨other, mem, reached⟩)
          · exact Or.inl inSeen
          · rcases mem_cons.mp mem with rfl | mem
            · exact reached_of_followed followed' met reached
            · exact Or.inr ⟨other, mem, reached⟩
      · rename_i unmet
        have mem := inside node (by simp)
        have fewer := @pending_cons _ _ next _ _ _ mem unmet
        rw [ih ?inside ?followed (by rw [length_append]; omega)]
        case inside =>
          intro other isQueued
          rcases mem_append.mp isQueued with isQueued | edge
          · exact inside other (by simp [isQueued])
          · exact closed node mem other edge
        case followed =>
          intro other isSeen successor edge
          rw [mem_cons, mem_append]
          rcases mem_cons.mp isSeen with rfl | isSeen
          · exact Or.inr (Or.inr edge)
          · rcases followed other isSeen successor edge with inSeen | inQueue
            · exact Or.inl (Or.inr inSeen)
            · rcases mem_cons.mp inQueue with rfl | inQueue
              · exact Or.inl (Or.inl rfl)
              · exact Or.inr (Or.inl inQueue)
        -- A node is reached from the one looked at when it is that one or is reached from one
        -- of its successors.
        simp only [mem_cons, mem_append, or_and_right, exists_or, exists_eq_left]
        rw [Relation.ReflTransGen.cases_head_iff]
        constructor
        · rintro ((rfl | inSeen) | reached | reached)
          · exact Or.inr (Or.inl (Or.inl rfl))
          · exact Or.inl inSeen
          · exact Or.inr (Or.inr reached)
          · exact Or.inr (Or.inl (Or.inr reached))
        · rintro (inSeen | (rfl | reached) | reached)
          · exact Or.inl (Or.inr inSeen)
          · exact Or.inl (Or.inl rfl)
          · exact Or.inr (Or.inr reached)
          · exact Or.inr (Or.inl reached)

/-! ### Nodes that are marked when they are put into the queue -/

def push (state : List α × List α) (node : α) : List α × List α :=
  if node ∈ state.2 then state else (state.1 ++ [node], node :: state.2)

/-- The nodes marked when the queue is empty; what the queue starts with need not be marked. -/
def spread (next : α → List α) : Nat → List α → List α → List α
  | _, [], marked => marked
  | 0, _ :: _, marked => marked
  | fuel + 1, node :: queue, marked =>
    let state := (next node).foldl push (queue, marked)
    spread next fuel state.1 state.2

lemma countP_lt_of_mem {marked : List α} (mem : node ∈ nodes) (new : node ∉ marked) :
    nodes.countP (· ∉ node :: marked) < nodes.countP (· ∉ marked) := by
  induction nodes with
  | nil => nomatch mem
  | cons first nodes ih =>
    have mono : nodes.countP (· ∉ node :: marked) ≤ nodes.countP (· ∉ marked) :=
      countP_mono_left (by simp)
    rw [countP_cons, countP_cons]
    grind

lemma foldl_push {added : List α} (inside : ∀ node ∈ added, node ∈ nodes) (queue marked : List α) :
    ∃ fresh marked', added.foldl push (queue, marked) = (queue ++ fresh, marked') ∧
      (∀ node, node ∈ marked' ↔ node ∈ marked ∨ node ∈ added) ∧
      (∀ node, node ∈ fresh ↔ node ∈ added ∧ node ∉ marked) ∧
      fresh.length + nodes.countP (· ∉ marked') ≤ nodes.countP (· ∉ marked) := by
  induction added generalizing queue marked with
  | nil => exact ⟨[], marked, by simp⟩
  | cons first added ih =>
    have inside' := fun node mem => inside node (mem_cons_of_mem first mem)
    rw [foldl_cons, push]
    split
    · obtain ⟨fresh, marked', res, marks, news, fewer⟩ := ih inside' queue marked
      exact ⟨fresh, marked', res, by grind, by grind, fewer⟩
    · next new =>
        have lost : nodes.countP (· ∉ first :: marked) < nodes.countP (· ∉ marked) :=
          countP_lt_of_mem (inside first (by simp)) new
        obtain ⟨fresh, marked', res, marks, news, fewer⟩ :=
          ih inside' (queue ++ [first]) (first :: marked)
        refine ⟨first :: fresh, marked', by simp [res], by grind, by grind, ?_⟩
        rw [length_cons]
        omega

/-- The search marks what is marked and what the queue leads to. -/
theorem mem_spread {marked : List α} {fuel : Nat}
    (inside : ∀ node, ∀ successor ∈ next node, successor ∈ nodes)
    (followed : ∀ node ∈ marked, node ∈ queue ∨ ∀ successor ∈ next node, successor ∈ marked)
    (enough : queue.length + nodes.countP (· ∉ marked) ≤ fuel) (target : α) :
    target ∈ spread next fuel queue marked ↔ target ∈ marked ∨
      ∃ node ∈ queue, Relation.TransGen (fun a b => b ∈ next a) node target := by
  induction fuel generalizing queue marked with
  | zero =>
    obtain rfl : queue = [] := eq_nil_of_length_eq_zero (by omega)
    simp [spread]
  | succ fuel ih =>
    cases queue with
    | nil => simp [spread]
    | cons node queue =>
      obtain ⟨fresh, marked', res, marks, news, fewer⟩ := foldl_push (inside node) queue marked
      have followed' : ∀ other ∈ marked', other ∈ queue ++ fresh ∨
          ∀ successor ∈ next other, successor ∈ marked' := by
        grind
      rw [spread, res, ih followed' (by grind)]
      constructor
      · rintro (isMarked | ⟨other, isQueued, reached⟩)
        · rcases (marks target).mp isMarked with old | edge
          · exact Or.inl old
          · exact Or.inr ⟨node, by simp, .single edge⟩
        · rcases mem_append.mp isQueued with old | isFresh
          · exact Or.inr ⟨other, by simp [old], reached⟩
          · exact Or.inr ⟨node, by simp, .head ((news other).mp isFresh).1 reached⟩
      · -- From a marked node the search can only leave through the queue.
        have leads {first : α} (isMarked : first ∈ marked')
            (reached : Relation.ReflTransGen (fun a b => b ∈ next a) first target) :
            target ∈ marked' ∨ ∃ other ∈ queue ++ fresh,
              Relation.TransGen (fun a b => b ∈ next a) other target := by
          induction reached using Relation.ReflTransGen.head_induction_on with
          | refl => exact Or.inl isMarked
          | head edge rest ih =>
            rcases followed' _ isMarked with isQueued | all
            · exact Or.inr ⟨_, isQueued, .head' edge rest⟩
            · exact ih (all _ edge)
        rintro (old | ⟨other, isQueued, reached⟩)
        · exact Or.inl ((marks target).mpr (Or.inl old))
        · rcases mem_cons.mp isQueued with rfl | isQueued
          · obtain ⟨successor, edge, rest⟩ := Relation.TransGen.head'_iff.mp reached
            exact leads ((marks successor).mpr (Or.inr edge)) rest
          · exact Or.inr ⟨other, by simp [isQueued], reached⟩

end Rotor.Lib.Worklist
