import UpgradeSafety.Footprint.Slot
import UpgradeSafety.Journal

/-! What a run takes from libraries. Which texts are addresses and how they are written with their
checksum, what a settings document says, how derived slots are hashed and how a pause is made is
decided there, and nothing in a check depends on how. -/
namespace UpgradeSafety

structure Libraries where
  hash : Hash
  isAddress : Text → Bool
  /-- The form of an address with its checksum. -/
  checksum? : Text → Option Text
  /-- The table that a TOML text writes. -/
  toml? : String → Option Value
  /-- Waits; the error says why it cannot. -/
  pause : Value → Except Text Unit

/-- No name stands twice in the table, nor in any table that names lead to from there. -/
inductive Value.Distinct : Value → Prop where
  | table {fields : List (Text × Value)} (hnames : (fields.map Prod.fst).Nodup)
      (hvalues : ∀ field ∈ fields, Distinct field.2) : Distinct (.record fields)
  | other {v : Value} (h : ∀ fields, v ≠ .record fields) : Distinct v

namespace Pause

/-- The longest pause in nanoseconds. -/
def limit : Nat := 9223372036854775807

/-- A second in nanoseconds. -/
def second : Nat := 1000000000

/-- Whether a number of seconds can be waited for. A double is multiplied as a double, so the
greatest one that is let through lies half a step of its grid below the limit. -/
def allowed : Value → Bool
  | .bool _ => true
  | .int n => 0 ≤ n && n * second ≤ limit
  | .real (.finite negative m q) =>
    m == 0 || !negative &&
      (if q < 0 then m * second < (limit - 511) <<< (-q).toNat
        else (m * second) <<< q.toNat < limit - 511)
  | _ => false

/-- Waits for as long as it takes. -/
def standard (delay : Value) : Except Text Unit :=
  if allowed delay then .ok () else .error unstatedReason

end Pause

end UpgradeSafety
