import UpgradeSafety.Text.Encoding

/-! Solidity source without its comments and strings. Both are blanked out character by character,
line ends kept, so that every position stays what it was (`mask_length`), and a character is
either kept or becomes a blank (`mask_kept_or_blank`). A comment or a string that does not close
is none, and its first character stands for itself. -/
namespace UpgradeSafety.Source

/-- How many characters remain of a line. -/
def lineLength : List Char → Nat
  | [] => 0
  | '\n' :: _ => 0
  | _ :: rest => lineLength rest + 1

/-- How many characters there are up to the end of a comment in brackets. -/
def blockLength? : List Char → Option Nat
  | [] => none
  | '*' :: '/' :: _ => some 2
  | _ :: rest => (blockLength? rest).map (· + 1)

/-- How many characters there are up to the closing quote of a string. A backslash takes the next
character with it, even a line end. -/
def stringLength? (quote : Char) : List Char → Option Nat
  | [] => none
  | '\\' :: _ :: rest => (stringLength? quote rest).map (· + 2)
  | c :: rest =>
    if c == quote then some 1
    else if c == '\\' || c == '\n' then none
    else (stringLength? quote rest).map (· + 1)

/-- How many characters the comment or string at the start of a text has, or zero. -/
def hiddenLength : List Char → Nat
  | '/' :: '/' :: rest => lineLength rest + 2
  | '/' :: '*' :: rest => ((blockLength? rest).map (· + 2)).getD 0
  | '\"' :: rest => ((stringLength? '\"' rest).map (· + 1)).getD 0
  | '\'' :: rest => ((stringLength? '\'' rest).map (· + 1)).getD 0
  | _ => 0

def blank (c : Char) : Char :=
  if c == '\n' then '\n' else ' '

/-- The text without its comments and strings; the next `hidden` characters belong to one. -/
def maskFrom : Nat → List Char → List Char
  | _, [] => []
  | 0, c :: rest =>
    match hiddenLength (c :: rest) with
    | 0 => c :: maskFrom 0 rest
    | n + 1 => blank c :: maskFrom n rest
  | hidden + 1, c :: rest => blank c :: maskFrom hidden rest

def mask (cs : List Char) : List Char :=
  maskFrom 0 cs

theorem maskFrom_length (hidden : Nat) (cs : List Char) :
    (maskFrom hidden cs).length = cs.length := by
  fun_induction maskFrom hidden cs <;> simp_all

theorem mask_length (cs : List Char) : (mask cs).length = cs.length :=
  maskFrom_length 0 cs

theorem maskFrom_kept_or_blank (hidden : Nat) (cs : List Char) (i : Nat) :
    (maskFrom hidden cs)[i]? = cs[i]? ∨ (maskFrom hidden cs)[i]? = cs[i]?.map blank := by
  fun_induction maskFrom hidden cs generalizing i with
  | case1 => exact Or.inl rfl
  | case2 _ _ _ ih => cases i <;> simp [ih]
  | case3 _ _ _ _ ih => cases i <;> simp [ih]
  | case4 _ _ _ ih => cases i <;> simp [ih]

/-- Each character is kept or blanked out. -/
theorem mask_kept_or_blank (cs : List Char) (i : Nat) :
    (mask cs)[i]? = cs[i]? ∨ (mask cs)[i]? = cs[i]?.map blank :=
  maskFrom_kept_or_blank 0 cs i

end UpgradeSafety.Source
