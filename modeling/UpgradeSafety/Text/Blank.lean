/-! White space in the sense of the Unicode standard, with the four information separators counted
in, and the trimming of a text at both ends. A text without white space at its ends is left as it
is (`trimChars_of_not_isBlank`). -/
namespace UpgradeSafety.Text

/-- White space: tabs, line ends, the information separators and every width of space. -/
def isBlank (c : Char) : Bool :=
  (0x09 ≤ c.toNat && c.toNat ≤ 0x0d) || (0x1c ≤ c.toNat && c.toNat ≤ 0x20) || c.toNat == 0x85 ||
    c.toNat == 0xa0 || c.toNat == 0x1680 || (0x2000 ≤ c.toNat && c.toNat ≤ 0x200a) ||
    c.toNat == 0x2028 || c.toNat == 0x2029 || c.toNat == 0x202f || c.toNat == 0x205f ||
    c.toNat == 0x3000

/-- The white space of ASCII: space, tab, line feed, vertical tab, form feed, carriage return. -/
def isAsciiBlank (c : Char) : Bool :=
  (0x09 ≤ c.toNat && c.toNat ≤ 0x0d) || c.toNat == 0x20

/-- Without the white space at the end. -/
def trimEnd (cs : List Char) : List Char :=
  (cs.reverse.dropWhile isBlank).reverse

/-- Without the white space at both ends. -/
def trimChars (cs : List Char) : List Char :=
  trimEnd (cs.dropWhile isBlank)

def trim (s : String) : String :=
  String.ofList (trimChars s.toList)

theorem trimEnd_of_not_isBlank {cs : List Char} (h : ∀ c ∈ cs.getLast?, isBlank c = false) :
    trimEnd cs = cs := by
  unfold trimEnd
  cases hr : cs.reverse with
  | nil => simp_all
  | cons c rest =>
    have hl : cs = rest.reverse ++ [c] := by
      have := congrArg List.reverse hr
      simpa using this
    subst hl
    have hc : isBlank c = false := h c (by simp)
    simp [hc]

/-- A text without white space at its ends is left as it is. -/
theorem trimChars_of_not_isBlank {cs : List Char} (hh : ∀ c ∈ cs.head?, isBlank c = false)
    (hl : ∀ c ∈ cs.getLast?, isBlank c = false) : trimChars cs = cs := by
  unfold trimChars
  cases cs with
  | nil => rfl
  | cons c rest =>
    have hc : isBlank c = false := hh c rfl
    rw [List.dropWhile_cons_of_neg (by simp [hc])]
    exact trimEnd_of_not_isBlank hl

end UpgradeSafety.Text
