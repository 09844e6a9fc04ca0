import UpgradeSafety.Keccak.Digest
import UpgradeSafety.Text.Basic

/-! Addresses of contracts: forty hexadecimal digits in either case, with or without `0x`. The
checksummed form writes a letter as a capital where the hash of the lower-case digits has a digit
of eight or more, so it does not depend on the case of the address that it is made from. -/
namespace UpgradeSafety.Address

private def isHexDigit (c : Char) : Bool :=
  c.isDigit || ('a' ≤ c && c ≤ 'f') || ('A' ≤ c && c ≤ 'F')

/-- The digits of an address in lower case. -/
def digits? (s : Text) : Option (List Char) :=
  s.chars?.bind fun cs =>
    let ds := match cs with
      | '0' :: 'x' :: rest => rest
      | '0' :: 'X' :: rest => rest
      | cs => cs
    if ds.length = 40 && ds.all isHexDigit then some (ds.map Char.toLower) else none

def isValid (s : Text) : Bool :=
  (digits? s).isSome

/-- The digits of a byte string, as numbers. -/
private def nibbles (bs : Bytes) : List Nat :=
  bs.flatMap fun b => [b.toNat / 16, b.toNat % 16]

/-- The checksummed form of an address. -/
def checksum? (s : Text) : Option Text :=
  (digits? s).map fun ds =>
    let marks := nibbles (Keccak.digestBytes (ds.map fun c => UInt8.ofNat c.toNat))
    "0x" ++ String.ofList (List.zipWith (fun c n => if 8 ≤ n then c.toUpper else c) ds marks)

end UpgradeSafety.Address
