import Mathlib.Algebra.GroupWithZero.Nat
import Mathlib.Data.List.Basic

/-!
Characters in a text of bytes.

A text is read one character after the other; a byte that starts no well-formed character is a
replacement character by itself, so every text is a sequence of characters.  Where a text is cut
between two of them, its characters are those of the two parts.
-/

namespace Rotor.Lib.Utf8

open List

/-- What may stand behind a first byte: the range of the second byte, and the width of the
character. -/
def accept (first : Nat) : Option (Nat × Nat × Nat) :=
  if first < 0xC2 then none
  else if first < 0xE0 then some (0x80, 0xBF, 2)
  else if first = 0xE0 then some (0xA0, 0xBF, 3)
  else if first = 0xED then some (0x80, 0x9F, 3)
  else if first < 0xF0 then some (0x80, 0xBF, 3)
  else if first = 0xF0 then some (0x90, 0xBF, 4)
  else if first < 0xF4 then some (0x80, 0xBF, 4)
  else if first = 0xF4 then some (0x80, 0x8F, 4)
  else none

/-- The bytes behind a first one that complete a character. -/
def completes (low high width : Nat) (behind : List UInt8) : Prop :=
  behind.length + 1 = width ∧ (∀ byte ∈ behind, 0x80 ≤ byte.toNat ∧ byte.toNat ≤ 0xBF) ∧
    ∀ second ∈ behind.head?, low ≤ second.toNat ∧ second.toNat ≤ high

instance (low high width : Nat) (behind : List UInt8) :
    Decidable (completes low high width behind) :=
  @instDecidableAnd _ _ _
    (@instDecidableAnd _ _ (List.decidableBAll _ _) (Option.decidableForallMem _))

def decodeRune : List UInt8 → Nat × Nat
  | [] => (0xFFFD, 0)
  | first :: rest =>
    if first.toNat < 0x80 then (first.toNat, 1)
    else match accept first.toNat with
      | none => (0xFFFD, 1)
      | some (low, high, width) =>
        let behind := rest.take (width - 1)
        if completes low high width behind then
          (behind.foldl (fun code byte => code * 64 + byte.toNat % 64)
            (first.toNat % 2 ^ (7 - width)), width)
        else (0xFFFD, 1)

def runesBehind : Nat → List UInt8 → List (Nat × Nat)
  | _, [] => []
  | skip + 1, _ :: rest => runesBehind skip rest
  | 0, first :: rest =>
    let rune := decodeRune (first :: rest)
    rune :: runesBehind (rune.2 - 1) rest

def runes (text : List UInt8) : List (Nat × Nat) := runesBehind 0 text

/-- A text cut between two characters: reading the whole, a character ends where the first part
does. -/
inductive Between : List UInt8 → List UInt8 → Prop
  | start (back : List UInt8) : Between [] back
  | next {first : UInt8} {front back : List UInt8} {width : Nat} :
      width = (decodeRune (first :: front ++ back)).2 → width ≤ front.length + 1 →
      Between ((first :: front).drop width) back → Between (first :: front) back

variable {first : UInt8} {front back rest text : List UInt8}

lemma runesBehind_eq (skip : Nat) : runesBehind skip text = runes (text.drop skip) := by
  induction text generalizing skip with
  | nil => simp [runes, runesBehind]
  | cons first rest ih =>
    cases skip with
    | zero => rfl
    | succ skip => exact ih skip

@[simp] lemma runes_nil : runes [] = [] := rfl

lemma decodeRune_width (first : UInt8) (rest : List UInt8) : 1 ≤ (decodeRune (first :: rest)).2 ∧
      (decodeRune (first :: rest)).2 ≤ rest.length + 1 := by
  rw [decodeRune]
  split
  · simp
  · split
    · simp
    · dsimp only
      split
      · rename_i complete
        have lengthEq := complete.1
        rw [length_take] at lengthEq
        dsimp only
        omega
      · simp

lemma runes_cons (first : UInt8) (rest : List UInt8) :
    runes (first :: rest) = decodeRune (first :: rest) ::
      runes ((first :: rest).drop (decodeRune (first :: rest)).2) := by
  obtain ⟨pos, -⟩ := decodeRune_width first rest
  rw [runes, runesBehind, runesBehind_eq]
  obtain ⟨width, same⟩ := Nat.exists_eq_add_of_le' pos
  rw [same, Nat.add_sub_cancel, drop_succ_cons]

lemma decodeRune_append (inside : (decodeRune (first :: front ++ back)).2 ≤ front.length + 1) :
    decodeRune (first :: front ++ back) = decodeRune (first :: front) := by
  rw [cons_append] at inside ⊢
  rw [decodeRune] at inside ⊢
  rw [decodeRune]
  split
  · rfl
  · rename_i notAscii
    rw [if_neg notAscii] at inside
    split
    · rfl
    · rename_i low high width accepted
      rw [accepted] at inside
      dsimp only at inside ⊢
      by_cases enough : width - 1 ≤ front.length
      · rw [take_append_of_le_length enough]
      · have short : ¬ completes low high width (front.take (width - 1)) := by
          intro complete
          have lengthEq := complete.1
          rw [length_take] at lengthEq
          omega
        rw [if_neg short]
        split
        · rename_i complete
          rw [if_pos complete] at inside
          dsimp only at inside
          omega
        · rfl

lemma decodeRune_before_ascii {byte : UInt8} (ascii : byte.toNat < 0x80)
    (first : UInt8) (front back : List UInt8) :
    (decodeRune (first :: front ++ byte :: back)).2 ≤ front.length + 1 := by
  rw [cons_append, decodeRune]
  split
  · simp
  · split
    · simp
    · rename_i low high width accepted
      dsimp only
      split
      · rename_i complete
        by_contra tooWide
        have mem : byte ∈ (front ++ byte :: back).take (width - 1) := by
          rw [take_append, mem_append]
          obtain ⟨more, same⟩ : ∃ more, width - 1 - front.length = more + 1 :=
            ⟨width - 1 - front.length - 1, by dsimp only at tooWide; omega⟩
          rw [same]
          exact .inr (by simp)
        have := complete.2.1 byte mem
        omega
      · simp

lemma rune_induction {motive : List UInt8 → Prop} (nil : motive [])
    (cons : ∀ first rest, motive ((first :: rest).drop (decodeRune (first :: rest)).2) →
      motive (first :: rest)) (text : List UInt8) : motive text := by
  induction lengthIs : text.length using Nat.strongRecOn generalizing text with
  | ind len ih =>
    cases text with
    | nil => exact nil
    | cons first rest =>
      have pos := (decodeRune_width first rest).1
      refine cons first rest (ih _ ?_ _ rfl)
      rw [← lengthIs, length_drop, length_cons]
      omega

lemma sum_width (text : List UInt8) : ((runes text).map Prod.snd).sum = text.length := by
  induction text using rune_induction with
  | nil => rfl
  | cons first rest ih =>
    have inside := (decodeRune_width first rest).2
    rw [runes_cons, map_cons, sum_cons, ih, length_drop, length_cons]
    omega

lemma decodeRune_ascii (ascii : (decodeRune (first :: rest)).1 < 0x80) :
    (decodeRune (first :: rest)).1 = first.toNat := by
  rw [decodeRune] at ascii ⊢
  split
  · rfl
  · rename_i notAscii
    rw [if_neg notAscii] at ascii
    split at ascii
    · exact absurd ascii (by simp)
    · rename_i low high width accepted
      dsimp only at ascii
      split at ascii
      · rename_i complete
        obtain ⟨lengthEq, -, second⟩ := complete
        generalize rest.take (width - 1) = behind at *
        rw [accept] at accepted
        split_ifs at accepted <;> cases accepted <;>
          rcases behind with _ | ⟨b, _ | ⟨c, _ | ⟨d, _ | _⟩⟩⟩ <;>
          simp at lengthEq second ascii <;> omega
      · exact absurd ascii (by simp)

lemma runes_ne_ascii {byte : UInt8} (ascii : byte.toNat < 0x80) (notMem : byte ∉ text) :
    ∀ rune ∈ runes text, rune.1 ≠ byte.toNat := by
  induction text using rune_induction with
  | nil => simp
  | cons first rest ih =>
    rw [runes_cons, forall_mem_cons]
    refine ⟨fun same => notMem ?_, ih fun mem => notMem (mem_of_mem_drop mem)⟩
    rw [decodeRune_ascii (same ▸ ascii)] at same
    exact UInt8.toNat_inj.mp same ▸ mem_cons_self

lemma Between.runes_append (between : Between front back) :
    runes (front ++ back) = runes front ++ runes back := by
  induction between with
  | start => rfl
  | @next first front back _ isWidth inside _ ih =>
    subst isWidth
    have same := decodeRune_append inside
    rw [same] at inside ih
    rw [cons_append, runes_cons, ← cons_append, same,
      drop_append_of_le_length inside, ih, runes_cons first front, cons_append]

lemma between_ascii {byte : UInt8} (ascii : byte.toNat < 0x80) (front back : List UInt8) :
    Between front (byte :: back) := by
  induction front using rune_induction with
  | nil => exact .start _
  | cons first rest ih =>
    have inside := decodeRune_before_ascii ascii first rest back
    rw [← decodeRune_append inside] at ih
    exact .next rfl inside ih

lemma runes_append_ascii {byte : UInt8} (ascii : byte.toNat < 0x80) (front back : List UInt8) :
    runes (front ++ byte :: back) = runes front ++ (byte.toNat, 1) :: runes back := by
  rw [(between_ascii ascii front back).runes_append, runes_cons byte back, decodeRune, if_pos ascii]
  rfl

end Rotor.Lib.Utf8
