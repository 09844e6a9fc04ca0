import UpgradeSafety.Text.Basic
import UpgradeSafety.Text.Hex

/-! Bytes as text. Three encodings of code points are read: UTF-8, UTF-16 and UTF-32, the wide
ones in either byte order. `Encoding.guess` tells them apart by a byte order mark or, without one,
by where the zero bytes of an ASCII character fall. A code point that is half of a surrogate pair
is let through by the readers (`Encoding.decode?`), and `ofUtf8?` refuses it. -/
namespace UpgradeSafety.Text

/-- How code points are laid out in bytes. -/
inductive Encoding where
  | utf8
  | utf16 (bigEndian : Bool)
  | utf32 (bigEndian : Bool)
  deriving DecidableEq, Repr

/-- The payload of a continuation byte. -/
private def tail? (b : UInt8) : Option Nat :=
  if b &&& 0xc0 == 0x80 then some (b.toNat - 0x80) else none

/-- Code points of UTF-8 in shortest form. -/
def utf8? : Bytes → Option (List Nat)
  | [] => some []
  | a :: rest =>
    if a < 0x80 then (utf8? rest).map (a.toNat :: ·)
    else if a < 0xc2 then none
    else match rest with
      | [] => none
      | b :: rest =>
        match tail? b with
        | none => none
        | some y =>
          if a < 0xe0 then (utf8? rest).map (((a.toNat - 0xc0) * 0x40 + y) :: ·)
          else match rest with
            | [] => none
            | c :: rest =>
              match tail? c with
              | none => none
              | some z =>
                if a < 0xf0 then
                  let n := ((a.toNat - 0xe0) * 0x40 + y) * 0x40 + z
                  if n < 0x800 then none else (utf8? rest).map (n :: ·)
                else match rest with
                  | [] => none
                  | d :: rest =>
                    match tail? d with
                    | none => none
                    | some w =>
                      let n := (((a.toNat - 0xf0) * 0x40 + y) * 0x40 + z) * 0x40 + w
                      if n < 0x10000 || 0x10ffff < n then none else (utf8? rest).map (n :: ·)

/-- Sixteen-bit units; an odd byte at the end is refused. -/
def units16? (bigEndian : Bool) : Bytes → Option (List Nat)
  | [] => some []
  | [_] => none
  | a :: b :: rest =>
    let unit := if bigEndian then a.toNat * 0x100 + b.toNat else b.toNat * 0x100 + a.toNat
    (units16? bigEndian rest).map (unit :: ·)

/-- Joins each high half of a surrogate pair with the low half that follows it. -/
def joinHalves : Text → Text
  | high :: low :: rest =>
    if high.isHigh && low.isLow then high.joined low :: joinHalves rest
    else high :: joinHalves (low :: rest)
  | s => s

/-- Thirty-two-bit units up to the last code point; a remainder at the end is refused. -/
def units32? (bigEndian : Bool) : Bytes → Option (List Nat)
  | [] => some []
  | a :: b :: c :: d :: rest =>
    let n := if bigEndian
      then ((a.toNat * 0x100 + b.toNat) * 0x100 + c.toNat) * 0x100 + d.toNat
      else ((d.toNat * 0x100 + c.toNat) * 0x100 + b.toNat) * 0x100 + a.toNat
    if 0x10ffff < n then none else (units32? bigEndian rest).map (n :: ·)
  | _ => none

/-- The text that bytes stand for. -/
def Encoding.decode? (e : Encoding) (bs : Bytes) : Option Text :=
  match e with
  | .utf8 => (utf8? bs).map fun codes => codes.map Point.ofCode
  | .utf16 bigEndian => (units16? bigEndian bs).map fun units => joinHalves (units.map Point.ofCode)
  | .utf32 bigEndian => (units32? bigEndian bs).map fun codes => codes.map Point.ofCode

/-- The encoding of bytes, and the bytes after the byte order mark if there is one. -/
def Encoding.guess : Bytes → Encoding × Bytes
  | 0x00 :: 0x00 :: 0xfe :: 0xff :: rest => (.utf32 true, rest)
  | 0xff :: 0xfe :: 0x00 :: 0x00 :: rest => (.utf32 false, rest)
  | 0xfe :: 0xff :: rest => (.utf16 true, rest)
  | 0xff :: 0xfe :: rest => (.utf16 false, rest)
  | 0xef :: 0xbb :: 0xbf :: rest => (.utf8, rest)
  | bs@(0x00 :: b :: _ :: _ :: _) => (if b == 0 then .utf32 true else .utf16 true, bs)
  | bs@(_ :: 0x00 :: c :: d :: _) => (if c == 0 && d == 0 then .utf32 false else .utf16 false, bs)
  | bs@([0x00, _]) => (.utf16 true, bs)
  | bs@([_, 0x00]) => (.utf16 false, bs)
  | bs => (.utf8, bs)

/-- The text of UTF-8 bytes, if they are well formed and hold no half of a surrogate pair. -/
def ofUtf8? (bs : Bytes) : Option (List Char) :=
  (Encoding.utf8.decode? bs).bind chars?

/-- Every line end, of whatever kind, as a line feed. -/
def unixLines : List Char → List Char
  | '\r' :: '\n' :: rest => '\n' :: unixLines rest
  | '\r' :: rest => '\n' :: unixLines rest
  | c :: rest => c :: unixLines rest
  | [] => []

/-- The bytes of a text. -/
def toUtf8 (s : String) : Bytes :=
  s.toUTF8.data.toList

end UpgradeSafety.Text
