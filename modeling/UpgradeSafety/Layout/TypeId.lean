import UpgradeSafety.Text.Digit
import UpgradeSafety.Text.Replace
import UpgradeSafety.Text.WordChar

/-! Ids of types. The compiler numbers what a program declares, as in `t_struct(Pool)1234_storage`,
and numbers it anew on every run, so ids are compared without those numbers. An id is cut into
pieces, each what is kept and the digits that follow it (`pieces`); a number counts only after a
kind and a capitalised name in brackets. Nothing is lost in the cut (`flatMap_pieces`), and
`strip` keeps the first parts. -/
namespace UpgradeSafety.TypeId

/-- A part of an id with the number that follows it, if it has one. -/
structure Piece where
  kept : Text
  digits : Text
  deriving DecidableEq

/-- Characters of a kind, such as `struct` or `contract`. -/
def isKindChar : Point → Bool :=
  Point.is fun c => c.isLower || c.isDigit || c == '_'

def isWordChar : Point → Bool :=
  Point.is Text.isWordChar

def isDecimal : Point → Bool :=
  Point.is Text.isDecimal

def isUpper : Point → Bool :=
  Point.is Char.isUpper

/-- The digits in front and what follows them, after a kind and a name that have been read. -/
def numbered (kept rest : Text) : Option (Piece × Text) :=
  let ds := rest.takeWhile isDecimal
  if ds.isEmpty then none else some (⟨kept, ds⟩, rest.dropWhile isDecimal)

/-- A numbered declaration at the start of a text: its piece, and what follows. -/
def declaration? : Text → Option (Piece × Text)
  | .char 't' :: .char '_' :: rest =>
    let kind := rest.takeWhile isKindChar
    match kind, rest.dropWhile isKindChar with
    | [], _ => none
    | _, .char '(' :: p :: rest =>
      if isUpper p then
        let name := rest.takeWhile isWordChar
        match rest.dropWhile isWordChar with
        | .char ')' :: rest =>
          numbered (.char 't' :: .char '_' :: kind ++ .char '(' :: p :: name ++ [.char ')']) rest
        | _ => none
      else none
    | _, _ => none
  | _ => none

theorem numbered_append {kept rest after : Text} {p : Piece}
    (h : numbered kept rest = some (p, after)) : p.kept ++ p.digits ++ after = kept ++ rest := by
  unfold numbered at h
  dsimp only at h
  split at h
  · simp at h
  · obtain ⟨rfl, rfl⟩ := Prod.mk.inj (Option.some.inj h)
    simp [List.takeWhile_append_dropWhile]

theorem declaration?_append {s after : Text} {p : Piece}
    (h : declaration? s = some (p, after)) : p.kept ++ p.digits ++ after = s := by
  unfold declaration? at h
  split at h
  · next rest =>
    dsimp only at h
    split at h
    · simp at h
    · next c tail hdrop _ =>
      split at h
      · split at h
        · next _ last hname =>
          have hkind := List.takeWhile_append_dropWhile (p := isKindChar) (l := rest)
          have hword := List.takeWhile_append_dropWhile (p := isWordChar) (l := tail)
          rw [hdrop] at hkind
          rw [hname] at hword
          rw [numbered_append h]
          conv => rhs; rw [← hkind, ← hword]
          simp
        · simp at h
      · simp at h
    · simp at h
  · simp at h

theorem kept_ne_nil_of_declaration? {s after : Text} {p : Piece}
    (h : declaration? s = some (p, after)) : p.kept ≠ [] := by
  unfold declaration? numbered at h
  grind

theorem declaration?_shorter {s after : Text} {p : Piece}
    (h : declaration? s = some (p, after)) : after.length < s.length := by
  have hlength := congrArg List.length (declaration?_append h)
  have hkept := List.length_pos_iff.mpr (kept_ne_nil_of_declaration? h)
  simp only [List.length_append] at hlength
  omega

/-- An id cut before and after each number. -/
def pieces (s : Text) : List Piece :=
  match s with
  | [] => []
  | c :: rest =>
    match _h : declaration? (c :: rest) with
    | some (p, after) => p :: pieces after
    | none => ⟨[c], []⟩ :: pieces rest
termination_by s.length
decreasing_by
  · exact declaration?_shorter (by assumption)
  · simp

/-- The pieces put together again are the id. -/
theorem flatMap_pieces (s : Text) :
    (pieces s).flatMap (fun p => p.kept ++ p.digits) = s := by
  fun_induction pieces s with
  | case1 => rfl
  | case2 c rest p after h ih => rw [List.flatMap_cons, ih, declaration?_append h]
  | case3 c rest _ ih => rw [List.flatMap_cons, ih]; rfl

/-- An id without the numbers of declarations. -/
def strip (id : Text) : Text :=
  (pieces id).flatMap (·.kept)

/-- Whether values of the type are addresses: an address, or a reference to a contract. -/
def isAddressLike (id : Text) : Bool :=
  Text.startsWith id "t_contract" || id == "t_address"

end UpgradeSafety.TypeId
