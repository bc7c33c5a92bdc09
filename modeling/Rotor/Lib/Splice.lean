import Mathlib.Data.List.TakeDrop

/-!
Replacing spans of a list.

An edit names a span by the number of elements before it and before its end. A list of edits is
applied from the left; the spans of a well-placed list do not overlap.
-/

namespace Rotor.Lib

variable {α : Type}

structure Edit (α : Type) where
  start : Nat
  stop : Nat
  text : List α

/-- The elements from a place on, with the spans of the edits replaced. -/
def splice (source : List α) (place : Nat) : List (Edit α) → List α
  | [] => source.drop place
  | edit :: edits =>
    (source.drop place).take (edit.start - place) ++ edit.text ++ splice source edit.stop edits

lemma drop_eq_take_append (source : List α) {place next : Nat} (before : place ≤ next) :
    source.drop place = (source.drop place).take (next - place) ++ source.drop next := by
  conv_lhs => rw [← List.take_append_drop (next - place) (source.drop place)]
  rw [List.drop_drop, Nat.add_sub_cancel' before]

lemma splice_advance (source : List α) {place next : Nat} {edits : List (Edit α)}
    (before : place ≤ next) (later : ∀ edit ∈ edits, next ≤ edit.start) :
    splice source place edits =
      (source.drop place).take (next - place) ++ splice source next edits := by
  cases edits with
  | nil => exact drop_eq_take_append source before
  | cons edit edits =>
    have after : next ≤ edit.start := later edit List.mem_cons_self
    have lengths : edit.start - place = (next - place) + (edit.start - next) := by omega
    rw [splice, splice, lengths, List.take_add, List.drop_drop, Nat.add_sub_cancel' before]
    simp only [List.append_assoc]

lemma splice_front {source front rest : List α} {place : Nat} {edits : List (Edit α)}
    (here : source.drop place = front ++ rest)
    (later : ∀ edit ∈ edits, place + front.length ≤ edit.start) :
    splice source place edits = front ++ splice source (place + front.length) edits := by
  rw [splice_advance source (Nat.le_add_right place front.length) later, here,
    Nat.add_sub_cancel_left, List.take_left]

end Rotor.Lib
