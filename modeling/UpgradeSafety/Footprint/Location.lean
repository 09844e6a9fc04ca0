import UpgradeSafety.Layout.Basic

/-! Positions in storage. A byte has an absolute number; its `Location` is the slot and the offset
in the slot, by division with a remainder that is never negative. The order of locations, slot
first, is the order of the bytes (`le_ofByte_iff`). -/
namespace UpgradeSafety

structure Location where
  slot : Int
  offset : Int
  deriving DecidableEq, Repr

namespace Location

def ofByte (byte : Int) : Location := ⟨byte / wordSize, byte % wordSize⟩

/-- The absolute number of the byte at a location. -/
def toByte (l : Location) : Int := l.slot * wordSize + l.offset

/-- Whether a location comes no later than another. -/
def le (a b : Location) : Bool :=
  a.slot < b.slot || (a.slot == b.slot && a.offset ≤ b.offset)

theorem le_iff (a b : Location) :
    a.le b = true ↔ a.slot < b.slot ∨ a.slot = b.slot ∧ a.offset ≤ b.offset := by
  simp [le]

theorem toByte_ofByte (byte : Int) : (ofByte byte).toByte = byte := by
  simp only [ofByte, toByte, wordSize]
  omega

theorem offset_ofByte (byte : Int) : 0 ≤ (ofByte byte).offset ∧ (ofByte byte).offset < wordSize := by
  simp only [ofByte, wordSize]
  omega

theorem le_ofByte_iff (a b : Int) : (ofByte a).le (ofByte b) = true ↔ a ≤ b := by
  rw [le_iff]
  simp only [ofByte, wordSize]
  omega

theorem le_total (a b : Location) : (a.le b || b.le a) = true := by
  rw [Bool.or_eq_true, le_iff, le_iff]
  omega

theorem le_trans {a b c : Location} (hab : a.le b = true) (hbc : b.le c = true) :
    a.le c = true := by
  rw [le_iff] at *
  omega

theorem le_refl (a : Location) : a.le a = true := by
  rw [le_iff]
  omega

theorem le_antisymm {a b : Location} (hab : a.le b = true) (hba : b.le a = true) : a = b := by
  rw [le_iff] at hab hba
  have hslot : a.slot = b.slot := by omega
  have hoffset : a.offset = b.offset := by omega
  cases a
  cases b
  simp_all

theorem ofByte_injective {a b : Int} (h : ofByte a = ofByte b) : a = b := by
  rw [← toByte_ofByte a, h, toByte_ofByte]

/-- The strict order of locations. -/
instance : LT Location :=
  ⟨fun a b => a.slot < b.slot ∨ a.slot = b.slot ∧ a.offset < b.offset⟩

theorem lt_of_le_of_ne {a b : Location} (hle : a.le b = true) (hne : a ≠ b) : a < b := by
  rw [le_iff] at hle
  have hoffset : a.slot = b.slot → a.offset ≠ b.offset := by
    intro hslot hoffset
    cases a
    cases b
    simp_all
  show a.slot < b.slot ∨ a.slot = b.slot ∧ a.offset < b.offset
  omega

/-- Sorts by location and keeps the order of what shares one. -/
def sort (location : α → Location) (xs : List α) : List α :=
  xs.mergeSort fun a b => (location a).le (location b)

end Location

end UpgradeSafety
