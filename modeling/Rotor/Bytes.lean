import Mathlib.Data.List.TakeWhile
import Mathlib.Tactic.Common

/-!
Byte strings.  The source language's `string` is a sequence of bytes, so texts
are lists of bytes here; a literal text is written with `str`.
-/

namespace Rotor

abbrev Bytes := List UInt8

instance : LawfulBEq Bytes := inferInstance

def str (text : String) : Bytes := text.toList.map fun char => char.toNat.toUInt8

/-- `strings.Repeat` of a one-byte string. -/
def repeatByte (byte : UInt8) (count : Nat) : Bytes := List.replicate count byte

lemma forall_byte {property : UInt8 → Prop}
    (all : ∀ num < 256, property (UInt8.ofNat num)) (c : UInt8) : property c := by
  have holds := all c.toNat c.toNat_lt
  rwa [UInt8.ofNat_toNat] at holds

end Rotor
