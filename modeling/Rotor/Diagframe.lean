import Rotor.Bytes

/-!
The caret under a source line (`diagframe/diagframe.go`).

The line is expanded by characters, the column of the caret and the room for the carets are
counted in bytes.
-/

namespace Rotor.Diagframe

open List

def tabWidth : Nat := 4

/-- The loop of `expandTabs` behind `col` columns. -/
@[grind =] def expandFrom (col : Nat) : List Char → List Char
  | [] => []
  | c :: rest =>
    if c = '\t' then
      let spaces := tabWidth - col % tabWidth
      replicate spaces ' ' ++ expandFrom (col + spaces) rest
    else c :: expandFrom (col + 1) rest

def expandTabs (s : List Char) : List Char := if '\t' ∉ s then s else expandFrom 0 s

def encode (s : List Char) : Bytes := s.flatMap String.utf8EncodeChar

def visualStep (visual : Nat) (byte : UInt8) : Nat :=
  if byte = 9 then visual + (tabWidth - visual % tabWidth) else visual + 1

def expandedCol (raw : Bytes) (byteCol : Nat) : Nat :=
  (raw.take (byteCol - 1)).foldl visualStep 0 + 1

/-- The blanks and the carets that `renderSpot` prints below a line. -/
def caretLine (line : List Char) (col len : Nat) : Nat × Nat :=
  let caretCol := expandedCol (encode line) col
  let n := if len < 1 then 1 else len
  let maxN := (encode (expandTabs line)).length - (caretCol - 1)
  (caretCol - 1, if maxN < 1 then 1 else if maxN < n then maxN else n)

/-- The caret stands under the character at a column, and the carets under characters. -/
def PointsAt (before after : List Char) : Prop := ∀ len,
  let printed := caretLine (before ++ after) ((encode before).length + 1) len
  printed.1 = (expandTabs before).length ∧
    printed.1 + printed.2 ≤ (expandTabs (before ++ after)).length

def isAscii (c : Char) : Prop := c.utf8Size = 1

lemma expandTabs_eq (s : List Char) : expandTabs s = expandFrom 0 s := by
  have plain (noTab : '\t' ∉ s) (col : Nat) : expandFrom col s = s := by
    induction s generalizing col with
    | nil => rfl
    | cons c s ih =>
      obtain ⟨other, rest⟩ := not_or.mp (mem_cons.not.mp noTab)
      rw [expandFrom, if_neg (Ne.symm other), ih rest]
  unfold expandTabs
  split
  · next noTab => exact (plain noTab 0).symm
  · rfl

lemma expandFrom_append (a b : List Char) (col : Nat) :
    expandFrom col (a ++ b) =
      expandFrom col a ++ expandFrom (col + (expandFrom col a).length) b := by
  induction a generalizing col with
  | nil => rfl
  | cons c a ih =>
    simp only [cons_append, expandFrom]
    split <;> simp [ih, Nat.add_assoc, Nat.add_comm]

lemma isAscii_expandFrom {s : List Char} {col : Nat} :
    (∀ c ∈ expandFrom col s, isAscii c) ↔ ∀ c ∈ s, isAscii c := by
  induction s generalizing col with
  | nil => rfl
  | cons c s ih =>
    have blank : isAscii ' ' := rfl
    have tab : isAscii '\t' := rfl
    rw [expandFrom]
    split <;> simp_all [or_imp, forall_and]

lemma length_encode {s : List Char} :
    s.length ≤ (encode s).length ∧ ((encode s).length ≤ s.length ↔ ∀ c ∈ s, isAscii c) := by
  induction s with
  | nil => exact ⟨Nat.le_refl _, by simp [encode]⟩
  | cons c s ih =>
    have size := c.utf8Size_pos
    have whole : (encode (c :: s)).length = c.utf8Size + (encode s).length := by simp [encode]
    rw [whole, length_cons, forall_mem_cons, ← ih.2, isAscii]
    omega

lemma foldl_visualStep {s : List Char} (ascii : ∀ c ∈ s, isAscii c) (col : Nat) :
    (encode s).foldl visualStep col = col + (expandFrom col s).length := by
  induction s generalizing col with
  | nil => rfl
  | cons c s ih =>
    obtain ⟨one, rest⟩ := forall_mem_cons.mp ascii
    have byte : String.utf8EncodeChar c = [c.val.toUInt8] := String.utf8EncodeChar_eq_singleton one
    have isTab : c.val.toUInt8 = 9 ↔ c = '\t' := by
      have small := Char.utf8Size_eq_one_iff.mp one
      rw [UInt32.le_iff_toNat_le] at small
      rw [← UInt8.toNat_inj, ← Char.val_inj, ← UInt32.toNat_inj, UInt32.toNat_toUInt8,
        Nat.mod_eq_of_lt (Nat.lt_of_le_of_lt small (by decide))]
      rfl
    rw [encode, flatMap_cons, byte, ← encode, singleton_append, foldl_cons, ih rest, visualStep,
      expandFrom]
    split <;> simp_all <;> omega

/-- The caret is right exactly in front of a character of an ASCII line. -/
theorem pointsAt_iff (before after : List Char) :
    PointsAt before after ↔ after ≠ [] ∧ ∀ c ∈ before ++ after, isAscii c := by
  have bytes := @length_encode (expandTabs (before ++ after))
  rw [expandTabs_eq, isAscii_expandFrom] at bytes
  have front : (encode (before ++ after)).take (encode before).length = encode before := by
    simp [encode]
  simp only [PointsAt, caretLine, expandedCol, Nat.add_sub_cancel, expandTabs_eq, front]
  constructor
  · intro points
    obtain ⟨same, fits⟩ := points ((encode (expandFrom 0 (before ++ after))).length + 1)
    refine ⟨?_, bytes.2.mp ?_⟩
    · rintro rfl
      rw [append_nil] at *
      split_ifs at fits <;> omega
    · split_ifs at fits <;> omega
  · rintro ⟨more, ascii⟩ len
    have blanks := foldl_visualStep (fun c mem => ascii c (mem_append_left _ mem)) 0
    have room (col : Nat) : 0 < (expandFrom col after).length := by
      obtain ⟨c, rest, rfl⟩ := exists_cons_of_ne_nil more
      have phase := Nat.mod_lt col (by decide : 0 < tabWidth)
      rw [expandFrom]
      split
      · rw [length_append, length_replicate]
        omega
      · exact Nat.succ_pos _
    have total := congrArg length (expandFrom_append before after 0)
    rw [length_append] at total
    have fits := bytes.2.mpr ascii
    have behind := room (0 + (expandFrom 0 before).length)
    refine ⟨by omega, ?_⟩
    split_ifs <;> omega

/-- Behind a character of two bytes the caret is one column too far to the right. -/
theorem pointsAt_fails : ¬ PointsAt ['é'] ['x'] := fun points => absurd (points 1).1 (by decide)

end Rotor.Diagframe
