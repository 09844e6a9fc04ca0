import UpgradeSafety.Layout.Basic
import UpgradeSafety.Text.Hex

/-! Slots that are derived by hashing. A dynamic array keeps its elements from the hash of its own
slot on, and a mapping keeps the value of a key at the hash of the key and its own slot, each
written as a word of thirty-two bytes. Only a number of at most 256 bits can be written so
(`word?_isSome_iff`). The hash is a parameter: nothing here depends on which one it is. -/
namespace UpgradeSafety

/-- A hash of byte strings to words. -/
abbrev Hash := Bytes → BitVec 256

namespace Slot

/-- How many values a word has. -/
def modulus : Int := (1 <<< 256 : Nat)

/-- The bytes of a number, most significant first; `width` counts them. -/
def bigEndian : Nat → Nat → Bytes
  | 0, _ => []
  | width + 1, n => bigEndian width (n / 256) ++ [UInt8.ofNat (n % 256)]

/-- A slot as a word. -/
def word? (slot : Int) : Option Bytes :=
  if 0 ≤ slot && slot < modulus then some (bigEndian wordSize slot.toNat) else none

/-- The slot of an element of a dynamic array; `index` counts slots, and is added without
wrapping. -/
def ofElement? (hash : Hash) (slot : Int) (index : Int) : Option Int :=
  (word? slot).map fun w => (hash w).toNat + index

/-- The slot of the value that a mapping has for a key. -/
def ofKey? (hash : Hash) (slot : Int) (key : Int) : Option Int :=
  match word? key, word? slot with
  | some k, some w => some (hash (k ++ w)).toNat
  | _, _ => none

theorem word?_isSome_iff (slot : Int) :
    (word? slot).isSome = true ↔ 0 ≤ slot ∧ slot < modulus := by
  unfold word?
  split <;> simp_all

end Slot

end UpgradeSafety
