/-! Texts. A text is a sequence of code points, and a code point is a character or half of a
surrogate pair: data may spell such a half without the other one, and what is read then is no
string of characters. A half belongs to no class of characters, is equal to itself only, and cannot
be encoded. A string is a text without halves (`Text.chars?_ofString`). -/
namespace UpgradeSafety

/-- A code point. -/
inductive Point where
  | char (c : Char)
  /-- Half of a surrogate pair, by its number among the halves. -/
  | half (n : Fin 0x800)
  deriving DecidableEq, Repr

namespace Point

instance : Coe Char Point := ⟨.char⟩

/-- The number of a code point. -/
def code : Point → Nat
  | .char c => c.toNat
  | .half n => 0xd800 + n

/-- The code point with a number. -/
def ofCode (n : Nat) : Point :=
  if h : 0xd800 ≤ n ∧ n < 0xe000 then .half ⟨n - 0xd800, by omega⟩ else .char (Char.ofNat n)

/-- Whether a code point is the first half of a surrogate pair. -/
def isHigh (p : Point) : Bool :=
  0xd800 ≤ p.code && p.code < 0xdc00

/-- Whether a code point is the second half of a surrogate pair. -/
def isLow (p : Point) : Bool :=
  0xdc00 ≤ p.code && p.code < 0xe000

/-- The character that two halves of a surrogate pair stand for. -/
def joined (high low : Point) : Point :=
  .ofCode (0x10000 + (high.code - 0xd800) * 0x400 + (low.code - 0xdc00))

/-- Whether a code point is a character of a class. -/
def is (p : Char → Bool) : Point → Bool
  | .char c => p c
  | .half _ => false

/-- The character that a code point is, unless it is a half. -/
def char? : Point → Option Char
  | .char c => some c
  | .half _ => none

theorem ofCode_code (p : Point) : ofCode p.code = p := by
  cases p with
  | char c =>
    have hvalid : c.toNat < 0xd800 ∨ 0xdfff < c.toNat ∧ c.toNat < 0x110000 := c.valid
    have hhalf : ¬(0xd800 ≤ c.toNat ∧ c.toNat < 0xe000) := by omega
    rw [code, ofCode, dif_neg hhalf, Char.ofNat_toNat]
  | half n =>
    have hhalf : 0xd800 ≤ 0xd800 + n.val ∧ 0xd800 + n.val < 0xe000 := by omega
    rw [code, ofCode, dif_pos hhalf]
    simp

theorem code_ofCode {n : Nat} (h : n < 0x110000) : (ofCode n).code = n := by
  unfold ofCode
  split
  · next hhalf =>
    change 0xd800 + (n - 0xd800) = n
    omega
  · next hhalf =>
    have hvalid : n.isValidChar := by
      change n < 0xd800 ∨ 0xdfff < n ∧ n < 0x110000
      omega
    rw [code, Char.ofNat, dif_pos hvalid]
    rfl

theorem code_lt (p : Point) : p.code < 0x110000 := by
  cases p with
  | char c =>
    have hvalid : c.toNat < 0xd800 ∨ 0xdfff < c.toNat ∧ c.toNat < 0x110000 := c.valid
    rw [code]
    omega
  | half n =>
    rw [code]
    omega

end Point

abbrev Text := List Point

namespace Text

def ofChars (cs : List Char) : Text :=
  cs.map .char

def ofString (s : String) : Text :=
  ofChars s.toList

instance : Coe String Text := ⟨ofString⟩

/-- The characters of a text, if it has no halves. -/
def chars? (s : Text) : Option (List Char) :=
  s.mapM Point.char?

/-- Texts one after another, with a separator between them. -/
def intercalate (separator : Text) (parts : List Text) : Text :=
  List.intercalate separator parts

theorem chars?_ofChars (cs : List Char) : chars? (ofChars cs) = some cs := by
  induction cs with
  | nil => rfl
  | cons c rest ih =>
    rw [chars?, ofChars] at ih
    simp [chars?, ofChars, Point.char?, ih]

theorem chars?_ofString (s : String) : chars? s = some s.toList :=
  chars?_ofChars s.toList

theorem ofString_injective {a b : String} (h : ofString a = ofString b) : a = b := by
  have hchars := congrArg chars? h
  rw [chars?_ofString, chars?_ofString] at hchars
  exact String.toList_inj.mp (Option.some.inj hchars)

@[simp] theorem ofString_inj {a b : String} : ofString a = ofString b ↔ a = b :=
  ⟨ofString_injective, congrArg ofString⟩

end Text

end UpgradeSafety
