import UpgradeSafety.Text.Basic
import UpgradeSafety.Text.Blank
import UpgradeSafety.Text.Digit

/-! Whole numbers as people write them in reports. White space around the number is dropped.
What starts with `0x` is hexadecimal, and an underscore may follow the `0x`; anything else is
decimal with an optional sign and at most 4300 digits. Single underscores may stand between
digits, and digits may come from any script. `Numeral.value` is the positional value, and
`grouped?_plain` says that without underscores every digit is read where it stands.

The limit on decimal digits holds for writing as well: a number that is not `Short` has no decimal
text, and whatever message would hold it cannot be written (`Numeral.write`). Hexadecimal has no
limit, so such numbers do occur. -/
namespace UpgradeSafety

/-- A number with more digits than a decimal text may have. -/
structure LongNumber where
  number : Int
  deriving DecidableEq, Repr

namespace Numeral
open Text

/-- The positional value of digits in a base, the most significant first. -/
def value (base : Nat) (ds : List Nat) : Nat :=
  ds.foldl (fun n d => n * base + d) 0

/-- Digits with single underscores between them; there is at least one digit. -/
def grouped? (digit? : Char → Option Nat) : List Char → Option (List Nat)
  | [] => none
  | [c] => (digit? c).map fun d => [d]
  | c :: '_' :: rest => (digit? c).bind fun d => (grouped? digit? rest).map (d :: ·)
  | c :: next :: rest => (digit? c).bind fun d => (grouped? digit? (next :: rest)).map (d :: ·)

/-- The most digits that a decimal number may have. -/
def decimalLimit : Nat := 4300

/-- Whether a number has a decimal text. -/
def Short (n : Int) : Prop :=
  n.natAbs < Nat.pow 10 decimalLimit

instance (n : Int) : Decidable (Short n) :=
  inferInstanceAs (Decidable (_ < _))

/-- The decimal text of a number. -/
def write (n : Int) : Except LongNumber Text :=
  if Short n then .ok (toString n) else .error ⟨n⟩

def decimal? (cs : List Char) : Option Nat :=
  (grouped? decimalValue? cs).bind fun ds =>
    if ds.length ≤ decimalLimit then some (value 10 ds) else none

def hexadecimal? : List Char → Option Nat
  | '_' :: rest => (grouped? hexValue? rest).map (value 16)
  | cs => (grouped? hexValue? cs).map (value 16)

def signed? : List Char → Option Int
  | '-' :: rest => (decimal? rest).map fun (n : Nat) => -(n : Int)
  | '+' :: rest => (decimal? rest).map fun (n : Nat) => (n : Int)
  | cs => (decimal? cs).map fun (n : Nat) => (n : Int)

/-- The number that trimmed characters denote. -/
def ofChars? : List Char → Option Int
  | '0' :: 'x' :: rest => (hexadecimal? rest).map fun (n : Nat) => (n : Int)
  | '0' :: 'X' :: rest => (hexadecimal? rest).map fun (n : Nat) => (n : Int)
  | cs => signed? cs

/-- The number that a text denotes. -/
def read? (s : Text) : Option Int :=
  s.chars?.bind fun cs => ofChars? (trimChars cs)

theorem read?_ofString (s : String) : read? s = ofChars? (trimChars s.toList) := by
  rw [read?, chars?_ofString, Option.bind_some]

/-- Numbers of fewer digits are bounded by less. -/
theorem bound_le {digits : Nat} (h : digits ≤ decimalLimit) :
    Nat.pow 10 digits ≤ Nat.pow 10 decimalLimit := by
  generalize decimalLimit = limit at h ⊢
  exact Nat.pow_le_pow_right (by decide) h

theorem short_of_natAbs_lt {n : Int} (bound : Nat) (h : n.natAbs < bound)
    (hbound : bound ≤ Nat.pow 10 decimalLimit) : Short n :=
  Nat.lt_of_lt_of_le h hbound

theorem write_eq_ok_iff {n : Int} {s : Text} : write n = .ok s ↔ Short n ∧ s = toString n := by
  unfold write
  split <;> simp_all [eq_comm]

theorem write_of_short {n : Int} (h : Short n) : write n = .ok (toString n) :=
  if_pos h

theorem value_append (base : Nat) (ds : List Nat) (d : Nat) :
    value base (ds ++ [d]) = value base ds * base + d := by
  simp [value]

/-- Characters that all have a digit's value, none of them an underscore, are read one by one. -/
theorem grouped?_plain {digit? : Char → Option Nat} {cs : List Char} {ds : List Nat}
    (hunderscore : digit? '_' = none) (hds : cs.mapM digit? = some ds) (hne : cs ≠ []) :
    grouped? digit? cs = some ds := by
  induction cs generalizing ds with
  | nil => exact absurd rfl hne
  | cons c rest ih =>
    rw [List.mapM_cons] at hds
    simp only [Option.bind_eq_bind, Option.bind_eq_some_iff, Option.pure_def,
      Option.some.injEq] at hds
    obtain ⟨d, hc, ds', hrest, rfl⟩ := hds
    cases rest with
    | nil =>
      simp at hrest
      simp [grouped?, hc, ← hrest]
    | cons next rest =>
      have hnext : next ≠ '_' := by
        rintro rfl
        rw [List.mapM_cons, hunderscore] at hrest
        simp at hrest
      rw [grouped?]
      · simp [hc, ih hrest (by simp)]
      · exact hnext

end Numeral

end UpgradeSafety
