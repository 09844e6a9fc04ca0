import UpgradeSafety.Number.Binary64

/-! The shortest decimal text of a double: the fewest digits that round back to the value, and of
the texts with that many digits the one nearest to it. A value owns the interval of numbers that
round to it, ends included when its `m` is even. On each decimal grid, from one digit to
seventeen, only the two neighbours of the value can lie in that interval if any point does, so
testing those two in exact arithmetic finds the first grid with a hit. Where the point stands,
and when an exponent is written, is `Layout.number`. -/
namespace UpgradeSafety.Binary64

/-- An interval of positive numbers, with its midpoint's value, over one denominator. -/
structure Interval where
  low : Nat
  value : Nat
  high : Nat
  den : Nat
  closed : Bool

/-- The numbers that round to `m · 2^q`. Below a power of two the next value is half as far. -/
def interval (m : Nat) (q : Int) : Interval :=
  let low := if m = 1 <<< 52 && -1074 < q then 4 * m - 1 else 4 * m - 2
  let scale := if q < 2 then 1 else 1 <<< (q - 2).toNat
  let den := if q < 2 then 1 <<< (2 - q).toNat else 1
  ⟨low * scale, 4 * m * scale, (4 * m + 2) * scale, den, m % 2 == 0⟩

/-- Whether `d · 10^k` lies in the interval. -/
def Interval.contains (i : Interval) (d : Nat) (k : Int) : Bool :=
  let x := if k < 0 then d else d * Nat.pow 10 k.toNat
  let scale := if k < 0 then Nat.pow 10 (-k).toNat else 1
  let x := x * i.den
  if i.closed then i.low * scale ≤ x && x ≤ i.high * scale
  else i.low * scale < x && x < i.high * scale

/-- The value divided by `10^k`, rounded down, and whether the remainder is past the half. -/
def Interval.onGrid (i : Interval) (k : Int) : Nat × Bool :=
  let num := if k < 0 then i.value * Nat.pow 10 (-k).toNat else i.value
  let den := if k < 0 then i.den else i.den * Nat.pow 10 k.toNat
  let below := num / den
  let twice := 2 * (num % den)
  (below, den < twice || (twice == den && below % 2 == 1))

/-- How many digits the value has before the point; not positive for a value below a tenth. -/
def Interval.magnitude (i : Interval) : Int :=
  let n : Int := (Nat.toDigits 10 (i.value / i.den)).length
  if i.den ≤ i.value then n
  else
    let zeros := (Nat.toDigits 10 (i.den / i.value)).length
    if i.den ≤ i.value * Nat.pow 10 (zeros - 1) then 2 - (zeros : Int) else 1 - (zeros : Int)

/-- The first grid with a point in the interval, as `d · 10^k`; `left` grids remain. -/
def Interval.search (i : Interval) : Nat → Int → Nat × Int
  | 0, k => ((i.onGrid k).1, k)
  | left + 1, k =>
    let (below, up) := i.onGrid k
    let (near, far) := if up then (below + 1, below) else (below, below + 1)
    if i.contains near k then (near, k)
    else if i.contains far k then (far, k)
    else i.search left (k - 1)

/-- Digits `d` and exponent `k` with `d · 10^k` the shortest text of `m · 2^q`. -/
def shortest (m : Nat) (q : Int) : Nat × Int :=
  let i := interval m q
  i.search 17 (i.magnitude - 1)

/-- How the digits of a number are set out. -/
structure Layout where
  /-- The least power of ten of a leading digit that is written without an exponent. -/
  leastPlain : Int
  /-- The least power of ten of a leading digit beyond those. -/
  endPlain : Int
  /-- The least count of digits in an exponent. -/
  exponentDigits : Nat

/-- Numbers from a ten-thousandth up to ten to the sixteenth are written out; an exponent has two
digits or more. -/
def Layout.number : Layout := ⟨-4, 16, 2⟩

def withoutTrailingZeros (ds : List Char) : List Char :=
  match (ds.reverse.dropWhile (· == '0')).reverse with
  | [] => ['0']
  | ds => ds

/-- The text of `d · 10^k`. A whole number keeps `.0`. -/
def Layout.write (l : Layout) (d : Nat) (k : Int) : List Char :=
  let all := Nat.toDigits 10 d
  let ds := withoutTrailingZeros all
  let lead : Int := all.length - 1 + k
  if d = 0 then ['0', '.', '0']
  else if l.leastPlain ≤ lead && lead < l.endPlain then
    if lead < 0 then ['0', '.'] ++ List.replicate (-lead - 1).toNat '0' ++ ds
    else
      let whole := lead.toNat + 1
      if ds.length ≤ whole then ds ++ List.replicate (whole - ds.length) '0' ++ ['.', '0']
      else ds.take whole ++ ['.'] ++ ds.drop whole
  else
    let exponent := Nat.toDigits 10 lead.natAbs
    let fraction := if ds.length ≤ 1 then [] else '.' :: ds.drop 1
    ds.take 1 ++ fraction ++ ['e', if lead < 0 then '-' else '+'] ++
      List.replicate (l.exponentDigits - exponent.length) '0' ++ exponent

/-- The text of a number in messages. -/
def text : Binary64 → String
  | .nan => "nan"
  | .infinite false => "inf"
  | .infinite true => "-inf"
  | .finite negative m q =>
    let (d, k) := if m = 0 then (0, 0) else shortest m q
    String.ofList ((if negative then ['-'] else []) ++ Layout.number.write d k)

end UpgradeSafety.Binary64
