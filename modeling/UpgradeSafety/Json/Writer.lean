import UpgradeSafety.Data.Value

/-! JSON text of a value, in ASCII. Everything outside the printable ASCII characters is escaped,
a character beyond the basic plane as a surrogate pair. JSON has no dates, so a moment is written
as a text. Every field and item stands on a line of its own, indented by two blanks a level. -/
namespace UpgradeSafety.Json

/-- Four hexadecimal digits of a code unit, escaped. -/
def escapeUnit (n : Nat) : Text :=
  .ofChars ['\\', 'u', Hex.digit (n / 0x1000), Hex.digit (n / 0x100 % 0x10),
    Hex.digit (n / 0x10 % 0x10), Hex.digit (n % 0x10)]

def escapeCode (n : Nat) : Text :=
  if n < 0x10000 then escapeUnit n
  else escapeUnit (0xd800 + (n - 0x10000) / 0x400) ++ escapeUnit (0xdc00 + (n - 0x10000) % 0x400)

def escape (p : Point) : Text :=
  if p = '\"' ∨ p = '\\' then ['\\', p]
  else if p = '\n' then ['\\', 'n']
  else if p = '\r' then ['\\', 'r']
  else if p = '\t' then ['\\', 't']
  else if p = '\x08' then ['\\', 'b']
  else if p = '\x0c' then ['\\', 'f']
  else if 0x20 ≤ p.code ∧ p.code < 0x7f then [p]
  else escapeCode p.code

def writeText (s : Text) : Text :=
  "\"" ++ s.flatMap escape ++ "\""

def writeNumber : Binary64 → Text
  | .nan => "NaN"
  | .infinite false => "Infinity"
  | .infinite true => "-Infinity"
  | x => x.text

/-- The start of a line that is indented by some levels. -/
def newline (depth : Nat) : Text :=
  .char '\n' :: List.replicate (2 * depth) (.char ' ')

mutual

/-- The text of a value whose parts are indented by one level more than `depth`. -/
def write (depth : Nat) : Value → Text
  | .null => "null"
  | .bool true => "true"
  | .bool false => "false"
  | .int n => toString n
  | .real x => writeNumber x
  | .moment t | .text t => writeText t
  | .list [] => "[]"
  | .list (v :: rest) =>
    "[" ++ newline (depth + 1) ++ write (depth + 1) v ++ writeItems (depth + 1) rest ++
      newline depth ++ "]"
  | .record [] => "\x7b\x7d"
  | .record ((key, v) :: rest) =>
    "\x7b" ++ newline (depth + 1) ++ writeText key ++ ": " ++ write (depth + 1) v ++
      writeFields (depth + 1) rest ++ newline depth ++ "\x7d"

/-- The items after the first one. -/
def writeItems (depth : Nat) : List Value → Text
  | [] => []
  | v :: rest => "," ++ newline depth ++ write depth v ++ writeItems depth rest

/-- The fields after the first one. -/
def writeFields (depth : Nat) : List (Text × Value) → Text
  | [] => []
  | (key, v) :: rest =>
    "," ++ newline depth ++ writeText key ++ ": " ++ write depth v ++ writeFields depth rest

end

/-- The value over as many lines as it has parts. -/
def indented (v : Value) : Text :=
  write 0 v

end UpgradeSafety.Json
