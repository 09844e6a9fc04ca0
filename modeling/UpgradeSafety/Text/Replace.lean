import UpgradeSafety.Text.Basic

/-! Finding a piece of text in another, and replacing its first occurrence. A text without the
piece is left as it is (`replaceFirst_of_not_isInfix`). -/
namespace UpgradeSafety.Text

/-- Whether a text starts with a piece. -/
def startsWith (s piece : Text) : Bool :=
  piece.isPrefixOf s

/-- Whether a piece stands somewhere in a text. -/
def contains (s piece : Text) : Bool :=
  match s with
  | [] => piece.isEmpty
  | p :: rest => piece.isPrefixOf (p :: rest) || contains rest piece

/-- The text with the first occurrence of a piece replaced. -/
def replaceFirst (s piece other : Text) : Text :=
  match s with
  | [] => []
  | p :: rest =>
    if piece.isPrefixOf (p :: rest) then other ++ (p :: rest).drop piece.length
    else p :: replaceFirst rest piece other

theorem contains_iff {s piece : Text} : contains s piece = true ↔ piece <:+: s := by
  induction s with
  | nil => simp [contains]
  | cons p rest ih =>
    rw [contains, Bool.or_eq_true, ih, List.isPrefixOf_iff_prefix, List.infix_cons_iff]

theorem replaceFirst_of_not_isInfix {s piece other : Text} (h : ¬ piece <:+: s) :
    replaceFirst s piece other = s := by
  induction s with
  | nil => rfl
  | cons p rest ih =>
    have hstart : piece.isPrefixOf (p :: rest) = false := by
      cases hp : piece.isPrefixOf (p :: rest)
      · rfl
      · exact absurd (List.isPrefixOf_iff_prefix.mp hp).isInfix h
    have hrest : ¬ piece <:+: rest := fun hr =>
      h (hr.trans (List.suffix_cons p rest).isInfix)
    simp [replaceFirst, hstart, ih hrest]

end UpgradeSafety.Text
