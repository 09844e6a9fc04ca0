import UpgradeSafety.Data.Value
import UpgradeSafety.Text.Encoding
import UpgradeSafety.Text.Replace

/-! The tokens of JSON text. A token is a bracket, a separator or a value without parts; `scan`
cuts a text into them and drops the blanks between. A number without a point and an exponent is
whole and exact, and has at most 4300 digits; any other number is a double. `NaN`, `Infinity` and
`-Infinity` are numbers too. Each token takes at least one code point (`next?_shorter`), which is
why `scan` ends. -/
namespace UpgradeSafety.Json

inductive Token where
  | openRecord
  | closeRecord
  | openList
  | closeList
  | colon
  | comma
  | atom (v : Value)

/-- The characters that may stand between tokens. -/
def isBlank (c : Char) : Bool :=
  c == ' ' || c == '\t' || c == '\n' || c == '\r'

/-- The character that a one-letter escape stands for. -/
def unescape? : Point → Option Char
  | .char '\"' => some '\"'
  | .char '\\' => some '\\'
  | .char '/' => some '/'
  | .char 'b' => some '\x08'
  | .char 'f' => some '\x0c'
  | .char 'n' => some '\n'
  | .char 'r' => some '\r'
  | .char 't' => some '\t'
  | _ => none

/-- The value of four hexadecimal digits. -/
def unit? (a b c d : Point) : Option Nat :=
  match a.char?.bind Text.asciiHexValue?, b.char?.bind Text.asciiHexValue?,
      c.char?.bind Text.asciiHexValue?, d.char?.bind Text.asciiHexValue? with
  | some a, some b, some c, some d => some (((a * 16 + b) * 16 + c) * 16 + d)
  | _, _, _, _ => none

/-- How a code point is spelt in a text. -/
inductive Spelling where
  /-- By itself, or by a one-letter escape. -/
  | plain (p : Point)
  /-- By its number. -/
  | coded (p : Point)
  deriving DecidableEq, Repr

/-- The code points that are spelt. Two numbers in a row may be those of a surrogate pair. -/
def Spelling.points : List Spelling → Text
  | .coded high :: .coded low :: rest =>
    if high.isHigh && low.isLow then high.joined low :: points rest
    else high :: points (.coded low :: rest)
  | .plain p :: rest | .coded p :: rest => p :: points rest
  | [] => []

/-- What is spelt in a text up to its closing quote, and what follows the quote. -/
def spellings? : Text → Option (List Spelling × Text)
  | [] => none
  | .char '\"' :: rest => some ([], rest)
  | .char '\\' :: .char 'u' :: a :: b :: c :: d :: rest =>
    match unit? a b c d, spellings? rest with
    | some n, some (ss, rest) => some (.coded (.ofCode n) :: ss, rest)
    | _, _ => none
  | .char '\\' :: p :: rest =>
    match unescape? p, spellings? rest with
    | some c, some (ss, rest) => some (.plain c :: ss, rest)
    | _, _ => none
  | p :: rest =>
    if p.code < 0x20 then none
    else match spellings? rest with
      | some (ss, rest) => some (.plain p :: ss, rest)
      | none => none

/-- The value of decimal digits. -/
def natOf (ds : Text) : Nat :=
  ds.foldl (fun n p => n * 10 + (p.code - 0x30)) 0

/-- The digits in front, and the rest. -/
def digits (s : Text) : Text × Text :=
  (s.takeWhile (Point.is Char.isDigit), s.dropWhile (Point.is Char.isDigit))

/-- The whole part of a number: a zero, or digits that start with another one. -/
def whole? : Text → Option (Text × Text)
  | .char '0' :: rest => some ([.char '0'], rest)
  | p :: rest => if p.is Char.isDigit then some (digits (p :: rest)) else none
  | [] => none

/-- The digits after a point; no point, or none with digits after it, is an empty fraction. -/
def fraction : Text → Text × Text
  | .char '.' :: rest => if (digits rest).1.isEmpty then ([], .char '.' :: rest) else digits rest
  | s => ([], s)

/-- The exponent of a number, if one is written. -/
def exponent (s : Text) : Option Int × Text :=
  match s with
  | e :: rest =>
    if e = 'e' ∨ e = 'E' then
      let (negative, rest) := match rest with
        | .char '-' :: rest => (true, rest)
        | .char '+' :: rest => (false, rest)
        | rest => (false, rest)
      let (ds, rest) := digits rest
      if ds.isEmpty then (none, s)
      else (some (if negative then -(natOf ds : Int) else natOf ds), rest)
    else (none, s)
  | [] => (none, s)

/-- A number without its sign. -/
def unsigned? (negative : Bool) (s : Text) : Option (Value × Text) :=
  (whole? s).bind fun (ds, rest) =>
    let (fs, rest) := fraction rest
    let (e, rest) := exponent rest
    if fs.isEmpty && e.isNone then
      if ds.length ≤ Numeral.decimalLimit then
        some (.int (if negative then -(natOf ds : Int) else natOf ds), rest)
      else none
    else some (.real (.ofDecimal negative (natOf (ds ++ fs)) (e.getD 0 - fs.length)), rest)

/-- The values that are written as words. -/
def words : List (Text × Value) := [
  ("null", .null), ("true", .bool true), ("false", .bool false), ("NaN", .real .nan),
  ("Infinity", .real (.infinite false)), ("-Infinity", .real (.infinite true))]

/-- The token in front, and what follows it. -/
def next? : Text → Option (Token × Text)
  | .char '{' :: rest => some (.openRecord, rest)
  | .char '}' :: rest => some (.closeRecord, rest)
  | .char '[' :: rest => some (.openList, rest)
  | .char ']' :: rest => some (.closeList, rest)
  | .char ':' :: rest => some (.colon, rest)
  | .char ',' :: rest => some (.comma, rest)
  | .char '\"' :: rest =>
    (spellings? rest).map fun (ss, rest) => (.atom (.text (Spelling.points ss)), rest)
  | s =>
    match words.find? fun (word, _) => Text.startsWith s word with
    | some (word, v) => some (.atom v, s.drop word.length)
    | none =>
      match s with
      | .char '-' :: rest => (unsigned? true rest).map fun (v, rest) => (.atom v, rest)
      | s => (unsigned? false s).map fun (v, rest) => (.atom v, rest)

/-! ### Every token takes a code point -/

theorem spellings?_shorter {s rest : Text} {ss : List Spelling}
    (h : spellings? s = some (ss, rest)) : rest.length < s.length := by
  fun_induction spellings? s generalizing ss rest <;> (try simp only [List.length_cons]) <;> grind

theorem digits_length (s : Text) : (digits s).2.length ≤ s.length :=
  (List.dropWhile_sublist _).length_le

theorem whole?_shorter {s ds rest : Text} (h : whole? s = some (ds, rest)) :
    rest.length < s.length := by
  unfold whole? at h
  split at h
  · simp at h; simp [h.2]
  · next p tail _ =>
    split at h
    · next hp =>
      have hrest : tail.dropWhile (Point.is Char.isDigit) = rest := by
        simpa [digits, hp] using congrArg Prod.snd (Option.some.inj h)
      have := digits_length tail
      simp only [digits, hrest] at this
      simp only [List.length_cons]
      omega
    · simp at h
  · simp at h

theorem fraction_length (s : Text) : (fraction s).2.length ≤ s.length := by
  unfold fraction
  split
  · next rest =>
    have := digits_length rest
    split
    · simp
    · simp only [List.length_cons]; omega
  · simp

theorem exponent_length (s : Text) : (exponent s).2.length ≤ s.length := by
  unfold exponent
  split
  · next e rest =>
    split
    · have hdrop (s : Text) : (digits s).2.length ≤ s.length := digits_length s
      grind
    · simp
  · simp

theorem unsigned?_shorter {negative : Bool} {s rest : Text} {v : Value}
    (h : unsigned? negative s = some (v, rest)) : rest.length < s.length := by
  unfold unsigned? at h
  rw [Option.bind_eq_some_iff] at h
  obtain ⟨⟨ds, after⟩, hw, h⟩ := h
  have hwhole := whole?_shorter hw
  have hfraction := fraction_length after
  have hexponent := exponent_length (fraction after).2
  grind

theorem word_shorter {s word : Text} {v : Value}
    (h : words.find? (fun entry => Text.startsWith s entry.1) = some (word, v)) :
    (s.drop word.length).length < s.length := by
  have hword : 0 < word.length := by
    have hwords : ∀ entry ∈ words, 0 < entry.1.length := by decide
    exact hwords _ (List.mem_of_find?_eq_some h)
  have hstart : Text.startsWith s word = true := by simpa using List.find?_some h
  have hle : word.length ≤ s.length := (List.isPrefixOf_iff_prefix.mp hstart).length_le
  rw [List.length_drop]
  omega

theorem next?_shorter {s rest : Text} {t : Token} (h : next? s = some (t, rest)) :
    rest.length < s.length := by
  unfold next? at h
  split at h
  case h_7 =>
    obtain ⟨⟨ss, after⟩, hspellings, h⟩ := Option.map_eq_some_iff.mp h
    have := spellings?_shorter hspellings
    grind
  case h_8 =>
    split at h
    · next hword =>
      have := word_shorter hword
      grind
    · split at h
      all_goals
        obtain ⟨⟨v, after⟩, hunsigned, h⟩ := Option.map_eq_some_iff.mp h
        have := unsigned?_shorter hunsigned
        grind
  all_goals
    simp only [Option.some.injEq, Prod.mk.injEq] at h
    simp [← h.2]

/-- The tokens of a text, or nothing if some part of it is no token. -/
def scan (s : Text) : Option (List Token) :=
  match s with
  | [] => some []
  | p :: rest =>
    if p.is isBlank then scan rest
    else match _h : next? (p :: rest) with
      | none => none
      | some (t, after) => (scan after).map (t :: ·)
termination_by s.length
decreasing_by
  · simp
  · exact next?_shorter (by assumption)

end UpgradeSafety.Json
