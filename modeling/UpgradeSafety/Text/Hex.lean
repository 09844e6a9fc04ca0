import UpgradeSafety.Text.Blank
import UpgradeSafety.Text.Digit

/-! Hexadecimal text: of numbers, with their sign in front of the `0x`, and of bytes, two digits
each. `byteList?` reads bytes back and tolerates ASCII white space between them, never inside
one. -/
namespace UpgradeSafety

/-- A sequence of octets. -/
abbrev Bytes := List UInt8

namespace Hex
open Text

/-- A lower-case digit. -/
def digit (n : Nat) : Char :=
  if n < 10 then Char.ofNat (n + 0x30) else Char.ofNat (n - 10 + 0x61)

/-- The digits of a number, most significant first. -/
def digits (n : Nat) : List Char :=
  Nat.toDigits 16 n

/-- A number as `0x` and digits, with the sign of a negative one in front. -/
def ofInt (n : Int) : String :=
  if n < 0 then "-0x" ++ String.ofList (digits n.natAbs) else "0x" ++ String.ofList (digits n.natAbs)

/-- The digits of a number filled up with zeros to a width that counts the sign. -/
def padded (width : Nat) (n : Int) : String :=
  let sign := if n < 0 then ['-'] else []
  let ds := digits n.natAbs
  String.ofList (sign ++ List.replicate (width - sign.length - ds.length) '0' ++ ds)

def ofByte (b : UInt8) : List Char :=
  [digit (b.toNat / 16), digit (b.toNat % 16)]

/-- Reads pairs of digits; ASCII white space may stand before a pair and at the end. -/
def byteList? : List Char → Option Bytes
  | [] => some []
  | c :: rest =>
    if isAsciiBlank c then byteList? rest
    else match rest with
      | [] => none
      | d :: rest =>
        match asciiHexValue? c, asciiHexValue? d with
        | some high, some low => (byteList? rest).map (UInt8.ofNat (high * 16 + low) :: ·)
        | _, _ => none

end Hex

end UpgradeSafety
