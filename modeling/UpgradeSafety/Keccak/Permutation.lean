/-! The permutation of the Keccak sponge on twenty-five lanes of sixty-four bits. Lane `(x, y)`
stands at index `x + 5 * y`. A round mixes the columns (`theta`), rotates and moves the lanes
(`rhoPi`), combines each row (`chi`) and adds a constant to the first lane. -/
namespace UpgradeSafety.Keccak

abbrev Lanes := Vector UInt64 25

def rotate (w : UInt64) (n : UInt64) : UInt64 :=
  if n == 0 then w else (w <<< n) ||| (w >>> (64 - n))

/-- The rotation of each lane. -/
def rotations : Vector UInt64 25 := #v[
  0, 1, 62, 28, 27,
  36, 44, 6, 55, 20,
  3, 10, 43, 25, 39,
  41, 45, 15, 21, 8,
  18, 2, 61, 56, 14]

/-- The constants of the twenty-four rounds. -/
def constants : List UInt64 := [
  0x0000000000000001, 0x0000000000008082, 0x800000000000808a, 0x8000000080008000,
  0x000000000000808b, 0x0000000080000001, 0x8000000080008081, 0x8000000000008009,
  0x000000000000008a, 0x0000000000000088, 0x0000000080008009, 0x000000008000000a,
  0x000000008000808b, 0x800000000000008b, 0x8000000000008089, 0x8000000000008003,
  0x8000000000008002, 0x8000000000000080, 0x000000000000800a, 0x800000008000000a,
  0x8000000080008081, 0x8000000000008080, 0x0000000080000001, 0x8000000080008008]

/-- Every lane takes up the parity of the column before its own and of the one after. -/
def theta (a : Lanes) : Lanes :=
  let parity : Vector UInt64 5 := Vector.ofFn fun x =>
    a[x.val] ^^^ a[x.val + 5] ^^^ a[x.val + 10] ^^^ a[x.val + 15] ^^^ a[x.val + 20]
  Vector.ofFn fun i =>
    have := i.isLt
    a[i] ^^^ parity[(i.val + 4) % 5] ^^^ rotate parity[(i.val + 1) % 5] 1

/-- Lane `(x, y)` comes, rotated, from lane `(x + 3 y, x)`. -/
def rhoPi (a : Lanes) : Lanes :=
  Vector.ofFn fun i =>
    let x := i.val % 5
    let y := i.val / 5
    let j := (x + 3 * y) % 5 + 5 * x
    have : j < 25 := by omega
    rotate a[j] rotations[j]

/-- Each lane takes up the next lane of its row, negated, and the one after that. -/
def chi (a : Lanes) : Lanes :=
  Vector.ofFn fun i =>
    have := i.isLt
    let row := 5 * (i.val / 5)
    a[i] ^^^ (~~~ a[row + (i.val + 1) % 5] &&& a[row + (i.val + 2) % 5])

def round (a : Lanes) (constant : UInt64) : Lanes :=
  let b := chi (rhoPi (theta a))
  b.set 0 (b[0] ^^^ constant)

def permute (a : Lanes) : Lanes :=
  constants.foldl round a

end UpgradeSafety.Keccak
