import Mathlib.Algebra.Order.Field.Rat
import Mathlib.Tactic.FieldSimp
import Mathlib.Tactic.Ring
import UpgradeSafety.Data.Value
import UpgradeSafety.Number.Numeral
import UpgradeSafety.Text.Hex

/-! What numbers stand for, however they are written. The digits of a whole number in hexadecimal
have its value, so that what is written for it reads back (`Numeral.read?_ofInt`). A double is
compared by the fraction that it is (`Binary64.same_iff_of_fraction?`), so two values that are one
whole number are the same (`Value.same_of_same_int`). -/
namespace UpgradeSafety

/-! ### Hexadecimal digits -/

section Digits
open Text

private theorem digitChar_facts : ∀ d < 16,
    isBlank (Nat.digitChar d) = false ∧ hexValue? (Nat.digitChar d) = some d := by
  decide

/-- The digits of a number have its value. -/
theorem Hex.exists_digits (n : Nat) : ∃ ds, digits n = ds.map Nat.digitChar ∧ (∀ d ∈ ds, d < 16) ∧
    Numeral.value 16 ds = n := by
  induction n using Nat.strongRecOn with
  | ind n ih =>
    unfold digits at ih ⊢
    rcases Nat.lt_or_ge n 16 with hlt | hle
    · rw [Nat.toDigits_of_lt_base hlt]
      exact ⟨[n], rfl, List.forall_mem_singleton.mpr hlt, Nat.zero_add n⟩
    · obtain ⟨ds, hds, hsmall, hvalue⟩ := ih (n / 16) (by omega)
      have hlast : n % 16 < 16 := Nat.mod_lt n (by decide)
      refine ⟨ds ++ [n % 16], ?_, List.forall_mem_append.mpr
        ⟨hsmall, List.forall_mem_singleton.mpr hlast⟩, ?_⟩
      · rw [Nat.toDigits_of_base_le (by decide) hle, hds, List.map_append]
        rfl
      · rw [Numeral.value_append, hvalue]
        omega

theorem mapM_hexValue? {ds : List Nat} (h : ∀ d ∈ ds, d < 16) :
    (ds.map Nat.digitChar).mapM hexValue? = some ds := by
  induction ds with
  | nil => rfl
  | cons d rest ih =>
    obtain ⟨hd, hrest⟩ := List.forall_mem_cons.mp h
    rw [List.map_cons, List.mapM_cons, (digitChar_facts d hd).2, ih hrest]
    rfl

/-- What is written in hexadecimal for a number reads back as the number. -/
theorem Numeral.read?_ofInt {n : Int} (h : 0 ≤ n) : read? (Hex.ofInt n) = some n := by
  obtain ⟨ds, hds, hsmall, hvalue⟩ := Hex.exists_digits n.natAbs
  have htext : (Hex.ofInt n).toList = '0' :: 'x' :: Hex.digits n.natAbs := by
    simp [Hex.ofInt, Int.not_lt.mpr h]
  have hblank : ∀ c ∈ '0' :: 'x' :: Hex.digits n.natAbs, isBlank c = false := by
    refine List.forall_mem_cons.mpr ⟨rfl, List.forall_mem_cons.mpr ⟨rfl, fun c hc => ?_⟩⟩
    rw [hds] at hc
    obtain ⟨d, hd, rfl⟩ := List.mem_map.mp hc
    exact (digitChar_facts d (hsmall d hd)).1
  have htrim := trimChars_of_not_isBlank (fun c hc => hblank c (List.mem_of_mem_head? hc))
    (fun c hc => hblank c (List.mem_of_getLast? hc))
  have hplain : grouped? hexValue? (Hex.digits n.natAbs) = some ds :=
    grouped?_plain rfl (hds ▸ mapM_hexValue? hsmall) Nat.toDigits_ne_nil
  have hvalue' : hexadecimal? (Hex.digits n.natAbs) = some n.natAbs := by
    unfold hexadecimal?
    split
    · next rest hrest =>
      -- each of the digits has a value, which an underscore has not
      have hmem : '_' ∈ Hex.digits n.natAbs := hrest ▸ List.mem_cons_self
      rw [hds] at hmem
      obtain ⟨d, hd, heq⟩ := List.mem_map.mp hmem
      have hnone : hexValue? '_' = none := rfl
      rw [← heq, (digitChar_facts d (hsmall d hd)).2] at hnone
      cases hnone
    · rw [hplain, Option.map_some, hvalue]
  rw [read?_ofString, htext, htrim, ofChars?, hvalue']
  exact congrArg some (Int.natAbs_of_nonneg h)

end Digits

/-! ### Doubles -/

namespace Binary64

/-- The fraction that a double is. An infinity is none. -/
def fraction? : Binary64 → Option ℚ
  | .finite negative m q => some (((if negative then -m else m : ℤ) : ℚ) * 2 ^ q)
  | _ => none

/-- Mantissas are compared at the lower one of their exponents. -/
theorem eq_shift_iff (v v' : ℤ) {q q' : ℤ} (h : q ≤ q') :
    v = v' * (1 <<< (q' - q).toNat : ℕ) ↔ (v : ℚ) * 2 ^ q = v' * 2 ^ q' := by
  have htwo : (2 : ℚ) ≠ 0 := by norm_num
  have hsplit : (2 : ℚ) ^ q' = 2 ^ (q' - q).toNat * 2 ^ q := by
    rw [← zpow_natCast, ← zpow_add₀ htwo, Int.toNat_of_nonneg (by omega), sub_add_cancel]
  rw [hsplit, ← mul_assoc, mul_left_inj' (zpow_ne_zero q htwo), Nat.one_shiftLeft]
  norm_cast

theorem isInt_iff {x : Binary64} {n : ℤ} : x.isInt n = true ↔ x.fraction? = some (n : ℚ) := by
  cases x with
  | finite negative m q =>
    simp only [isInt, fraction?, Option.some.injEq]
    split
    · next h =>
      have hshift := eq_shift_iff (if negative then -m else m) n h.le
      rwa [zero_sub, zpow_zero, mul_one, ← beq_iff_eq] at hshift
    · next h =>
      have hshift := eq_shift_iff n (if negative then -m else m) (Int.not_lt.mp h)
      rwa [sub_zero, zpow_zero, mul_one, eq_comm, ← beq_iff_eq, eq_comm (a := (n : ℚ))] at hshift
  | _ => exact ⟨nofun, nofun⟩

/-- What is the same as a fraction is that fraction. -/
theorem same_iff_of_fraction? {x y : Binary64} {r : ℚ} (hx : x.fraction? = some r) :
    x.same y = true ↔ y.fraction? = some r := by
  cases x with
  | finite negative m q =>
    cases y with
    | finite negative' m' q' =>
      rw [← hx]
      simp only [same, fraction?, Option.some.injEq]
      split
      · next h => 
        rw [beq_iff_eq, eq_shift_iff _ _ h, eq_comm]
      · next h =>
        rw [beq_iff_eq, eq_comm, eq_shift_iff _ _ (Int.le_of_not_le h)]
    | _ => exact ⟨nofun, nofun⟩
  | _ => cases hx

end Binary64

namespace Value

/-- The fraction that a value stands for, if it is a number. -/
def fraction? : Value → Option ℚ
  | .bool b => some (if b then 1 else 0 : ℤ)
  | .int n => some n
  | .real x => x.fraction?
  | _ => none

/-- Numbers are compared as numbers, with whatever they are compared. -/
theorem same_of_number {v w : Value} {r : ℚ} (hv : v.fraction? = some r) :
    v.same w = v.sameNumber w := by
  cases v with
  | real x =>
    cases w with
    | real y => rfl
    | _ => cases x <;> rfl
  | bool b => cases w <;> rfl
  | int n => cases w <;> rfl
  | _ => cases hv

/-- What is the same as a number stands for the same fraction. -/
theorem same_iff_of_fraction? {v w : Value} {r : ℚ} (hv : v.fraction? = some r) :
    v.same w = true ↔ w.fraction? = some r := by
  rw [same_of_number hv]
  cases v with
  | real x =>
    cases w with
    | real y => exact Binary64.same_iff_of_fraction? hv
    | bool c =>
      rw [← hv, eq_comm (a := fraction? _)]
      exact Binary64.isInt_iff
    | int n =>
      rw [← hv, eq_comm (a := fraction? _)]
      exact Binary64.isInt_iff
    | _ => exact ⟨nofun, nofun⟩
  | bool b =>
    obtain rfl := Option.some.inj hv
    cases w with
    | bool c => cases b <;> cases c <;> simp [sameNumber, fraction?]
    | int n =>
      simp only [sameNumber, fraction?, beq_iff_eq, Option.some.injEq, Int.cast_inj]
      exact eq_comm
    | real y => exact Binary64.isInt_iff
    | _ => exact ⟨nofun, nofun⟩
  | int n =>
    obtain rfl := Option.some.inj hv
    cases w with
    | bool c => simp only [sameNumber, fraction?, beq_iff_eq, Option.some.injEq, Int.cast_inj]
    | int m =>
      simp only [sameNumber, fraction?, beq_iff_eq, Option.some.injEq, Int.cast_inj]
      exact eq_comm
    | real y => exact Binary64.isInt_iff
    | _ => exact ⟨nofun, nofun⟩
  | _ => cases hv

/-- What is the same as a whole number stands for it. -/
theorem fraction?_of_same_int {v : Value} {n : ℤ} (h : v.same (.int n) = true) :
    v.fraction? = some (n : ℚ) := by
  cases v with
  | bool b => exact congrArg _ (congrArg _ (eq_of_beq h))
  | int m => exact congrArg _ (congrArg _ (eq_of_beq h))
  | real x => exact Binary64.isInt_iff.mp (by cases x <;> exact h)
  | _ => cases h

/-- Values that are the same as one whole number are the same. -/
theorem same_of_same_int {v w : Value} {n : ℤ} (hv : v.same (.int n) = true)
    (hw : w.same (.int n) = true) : v.same w = true :=
  (same_iff_of_fraction? (fraction?_of_same_int hv)).mpr (fraction?_of_same_int hw)

end Value

end UpgradeSafety
