/-! Double-precision numbers as exact values. A finite one is `± m · 2^q` with `m < 2^53` and
`q ≥ -1074`, and `m ≥ 2^52` unless `q = -1074`, so each value is written once; both zeros are kept
apart by their sign. Reading a decimal rounds the exact quotient to the nearest such value, a tie
to the even `m` (`roundDiv`, `ofRatio`), so nothing here depends on the machine's own floats. -/
namespace UpgradeSafety

inductive Binary64 where
  | nan
  | infinite (negative : Bool)
  | finite (negative : Bool) (m : Nat) (q : Int)
  deriving DecidableEq, Repr

namespace Binary64

/-- `num / den` to the nearest natural number, a tie to the even one. -/
def roundDiv (num den : Nat) : Nat :=
  let below := num / den
  let twice := 2 * (num % den)
  if twice < den then below
  else if den < twice then below + 1
  else if below % 2 = 0 then below else below + 1

def zero (negative : Bool) : Binary64 :=
  .finite negative 0 (-1074)

/-- `num / den · 2^(-q)`, rounded. -/
def scaled (num den : Nat) (q : Int) : Nat :=
  if q < 0 then roundDiv (num <<< (-q).toNat) den else roundDiv num (den <<< q.toNat)

/-- The exponent at which `num / den` has fifty-three bits before the point, or the least one. -/
def exponentFor (num den : Nat) : Int :=
  let guess : Int := (Nat.log2 num : Int) - (Nat.log2 den : Int) - 53
  let below (q : Int) : Bool :=
    if q < 0 then num <<< (-q).toNat < den <<< 53 else num < den <<< (53 + q.toNat)
  max (-1074) (if below guess then guess else if below (guess + 1) then guess + 1 else guess + 2)

/-- The nearest value to `± num / den`. -/
def ofRatio (negative : Bool) (num den : Nat) : Binary64 :=
  if num = 0 then zero negative
  else
    let q := exponentFor num den
    let m := scaled num den q
    let (m, q) := if m = 1 <<< 53 then (1 <<< 52, q + 1) else (m, q)
    if m = 0 then zero negative
    else if 971 < q then .infinite negative
    else .finite negative m q

/-- The nearest value to `± significand · 10^exponent`. Beyond four hundred digits on either side
of the point the answer is an infinity or a zero, whatever the digits are. -/
def ofDecimal (negative : Bool) (significand : Nat) (exponent : Int) : Binary64 :=
  let magnitude : Int := (Nat.toDigits 10 significand).length + exponent
  if significand = 0 || magnitude < -400 then zero negative
  else if 400 < magnitude then .infinite negative
  else if exponent < 0 then ofRatio negative significand (Nat.pow 10 (-exponent).toNat)
  else ofRatio negative (significand * Nat.pow 10 exponent.toNat) 1

/-- Whether the value is the whole number `n`. -/
def isInt : Binary64 → Int → Bool
  | .finite negative m q, n =>
    let v : Int := if negative then -m else m
    if q < 0 then v == n * (1 <<< (-q).toNat : Nat) else v * (1 <<< q.toNat : Nat) == n
  | _, _ => false

/-- Equality of numbers: the exact values are compared, so both zeros are one number, and what is
not a number equals nothing. -/
def same : Binary64 → Binary64 → Bool
  | .finite negative m q, .finite negative' m' q' =>
    let v : Int := if negative then -m else m
    let v' : Int := if negative' then -m' else m'
    if q ≤ q' then v == v' * (1 <<< (q' - q).toNat : Nat)
    else v * (1 <<< (q - q').toNat : Nat) == v'
  | .infinite negative, .infinite negative' => negative == negative'
  | _, _ => false

def isZero : Binary64 → Bool
  | .finite _ 0 _ => true
  | _ => false

def neg : Binary64 → Binary64
  | .nan => .nan
  | .infinite negative => .infinite !negative
  | .finite negative m q => .finite (!negative) m q

end Binary64

end UpgradeSafety
