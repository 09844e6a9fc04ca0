import UpgradeSafety.Text.Basic
import UpgradeSafety.Text.Hex
import UpgradeSafety.Text.Printable

/-! Quoted text, as messages show it. Single quotes, unless the text holds a single quote and no
double one; the quote and the backslash are escaped, and so is whatever would not show itself. -/
namespace UpgradeSafety.Text

/-- `n` in hexadecimal, in at least `width` digits. -/
private def escapeDigits (width n : Nat) : List Char :=
  let ds := Hex.digits n
  List.replicate (width - ds.length) '0' ++ ds

/-- The escape of a code point that would not show itself. -/
def escapedCode (n : Nat) : List Char :=
  if n < 0x100 then '\\' :: 'x' :: escapeDigits 2 n
  else if n < 0x10000 then '\\' :: 'u' :: escapeDigits 4 n
  else '\\' :: 'U' :: escapeDigits 8 n

/-- A character inside quotes of the kind `quote`. -/
def escaped (quote c : Char) : List Char :=
  if c == quote || c == '\\' then ['\\', c]
  else if c == '\n' then ['\\', 'n']
  else if c == '\r' then ['\\', 'r']
  else if c == '\t' then ['\\', 't']
  else if isPrintable c then [c]
  else escapedCode c.toNat

/-- A code point inside quotes of the kind `quote`. -/
def escapedPoint (quote : Char) : Point → List Char
  | .char c => escaped quote c
  | .half n => escapedCode (Point.half n).code

/-- The quote that a text is put into. -/
def quoteFor (s : Text) : Char :=
  if .char '\'' ∈ s ∧ .char '\"' ∉ s then '\"' else '\''

def quoted (s : Text) : String :=
  let quote := quoteFor s
  String.ofList (quote :: s.flatMap (escapedPoint quote) ++ [quote])

end UpgradeSafety.Text
