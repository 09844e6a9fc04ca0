import UpgradeSafety.Data.Value
import UpgradeSafety.Number.Numeral
import UpgradeSafety.Text.Encoding

/-! Values of TOML without parts. A bare word is a flag, a number, an infinity or what is not a
number; whole numbers and doubles are told apart by a point or an exponent, and the only digit in
front of others is not a zero. A negative number is its digits taken from zero, so there is one
zero. A text stands in double quotes, with escapes, or in single quotes, as it
is; neither goes over a line. -/
namespace UpgradeSafety.Toml
open Numeral

/-- A number taken from zero. -/
def negated : Value → Value
  | .int n => .int (-n)
  | .real x => .real (if x.isZero then .zero false else x.neg)
  | v => v

/-- The value of a digit of a base. -/
def digitBelow? (base : Nat) (c : Char) : Option Nat :=
  (Text.hexValue? c).filter (· < base)

/-- Digits in a base, with single underscores between them. -/
def digits? (base : Nat) (cs : List Char) : Option (List Nat) :=
  grouped? (digitBelow? base) cs

/-- The fraction and the exponent of a double, as digits and a power of ten. -/
def scale? (cs : List Char) : Option (List Nat × Int) :=
  let fraction := cs.takeWhile fun c => c != 'e' && c != 'E'
  let fs := match fraction with
    | [] => some []
    | '.' :: ds => digits? 10 ds
    | _ => none
  let e := match cs.dropWhile fun c => c != 'e' && c != 'E' with
    | [] => some (0 : Int)
    | _ :: '-' :: ds => (digits? 10 ds).map fun ds => -(value 10 ds : Int)
    | _ :: '+' :: ds => (digits? 10 ds).map fun ds => (value 10 ds : Int)
    | _ :: ds => (digits? 10 ds).map fun ds => (value 10 ds : Int)
  fs.bind fun fs => e.map fun e => (fs, e)

/-- A number without a sign, in ten's digits. -/
def decimal? (cs : List Char) : Option Value :=
  let isWhole (c : Char) := c != '.' && c != 'e' && c != 'E'
  let rest := cs.dropWhile isWhole
  (digits? 10 (cs.takeWhile isWhole)).bind fun ds =>
    if rest.isEmpty then
      if ds.length ≤ decimalLimit then some (.int (value 10 ds)) else none
    else (scale? rest).map fun (fs, e) =>
      .real (.ofDecimal false (value 10 (ds ++ fs)) (e - fs.length))

/-- A number without a sign; after a zero in front there is nothing, or a point. -/
def unsigned? (cs : List Char) : Option Value :=
  match cs.map Char.toLower with
  | ['i', 'n', 'f'] => some (.real (.infinite false))
  | ['n', 'a', 'n'] => some (.real .nan)
  | '0' :: c :: _ => if c == '.' then decimal? cs else none
  | _ => decimal? cs

/-- A number in another base than ten; it has no sign. -/
def based? : List Char → Option Value
  | '0' :: 'x' :: cs => (digits? 16 cs).map fun ds => .int (value 16 ds)
  | '0' :: 'o' :: cs => (digits? 8 cs).map fun ds => .int (value 8 ds)
  | '0' :: 'b' :: cs => (digits? 2 cs).map fun ds => .int (value 2 ds)
  | _ => none

/-- The value of a bare word. -/
def ofWord? (cs : List Char) : Option Value :=
  if cs = "true".toList then some (.bool true)
  else if cs = "false".toList then some (.bool false)
  else match cs with
    | '-' :: rest => (unsigned? rest).map negated
    | '+' :: rest => unsigned? rest
    | cs => (based? cs).or (unsigned? cs)

/-- The character that a one-letter escape stands for. -/
def unescape? : Char → Option Char
  | '0' => some '\x00'
  | 'b' => some '\x08'
  | 'f' => some '\x0c'
  | 'n' => some '\n'
  | 'r' => some '\r'
  | 't' => some '\t'
  | '\"' => some '\"'
  | '\\' => some '\\'
  | _ => none

/-- The character with a number in hexadecimal; half of a surrogate pair is none. -/
def scalar? (ds : List Char) : Option Char :=
  (ds.mapM Text.asciiHexValue?).bind fun ds =>
    let n := value 16 ds
    if n.isValidChar then some (Char.ofNat n) else none

/-- A text in double quotes after the first of them, and what follows the last one. -/
def basic? : List Char → Option (List Char × List Char)
  | [] => none
  | '\n' :: _ => none
  | '\"' :: rest => some ([], rest)
  | '\\' :: 'u' :: a :: b :: c :: d :: rest =>
    match scalar? [a, b, c, d], basic? rest with
    | some x, some (cs, rest) => some (x :: cs, rest)
    | _, _ => none
  | '\\' :: 'U' :: a :: b :: c :: d :: e :: f :: g :: h :: rest =>
    match scalar? [a, b, c, d, e, f, g, h], basic? rest with
    | some x, some (cs, rest) => some (x :: cs, rest)
    | _, _ => none
  | '\\' :: c :: rest =>
    match unescape? c, basic? rest with
    | some x, some (cs, rest) => some (x :: cs, rest)
    | _, _ => none
  | c :: rest => (basic? rest).map fun (cs, rest) => (c :: cs, rest)

/-- A text in single quotes after the first of them, and what follows the last one. -/
def literal? : List Char → Option (List Char × List Char)
  | [] => none
  | '\n' :: _ => none
  | '\'' :: rest => some ([], rest)
  | c :: rest => (literal? rest).map fun (cs, rest) => (c :: cs, rest)

end UpgradeSafety.Toml
