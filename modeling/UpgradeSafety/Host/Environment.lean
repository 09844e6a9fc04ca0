import UpgradeSafety.Text.Basic

/-! Variables of the environment, and their use in texts. A variable is written with a dollar sign
in front of its name, or in front of braces around it; a name without braces is made of ASCII
letters, digits and underscores. Values are put in as they are and not looked through again, and a
variable that is not set stays as it is written. -/
namespace UpgradeSafety

structure Environment where
  values : List (Text × Text)

namespace Environment

def get? (e : Environment) (name : Text) : Option Text :=
  e.values.lookup name

/-- The value of a variable that is set to something. -/
def nonempty? (e : Environment) (name : Text) : Option Text :=
  (e.get? name).filter (!·.isEmpty)

def isNameChar (c : Char) : Bool :=
  c.isAlphanum || c == '_'

/-- A text made of pieces: code points that stand for themselves, and variables. -/
inductive Piece where
  | plain (p : Point)
  /-- A variable: its name, and how it is written. -/
  | variable (name written : Text)

/-- The pieces of a text. -/
def pieces (s : Text) : List Piece :=
  match s with
  | [] => []
  | .char '$' :: .char '{' :: rest =>
    let name := rest.takeWhile (· != .char '}')
    match _h : rest.dropWhile (· != .char '}') with
    | [] => .plain '$' :: pieces (.char '{' :: rest)
    | _ :: after => .variable name ("$\x7b" ++ name ++ "\x7d") :: pieces after
  | .char '$' :: rest =>
    match rest.takeWhile (Point.is isNameChar) with
    | [] => .plain '$' :: pieces rest
    | name => .variable name ("$" ++ name) :: pieces (rest.dropWhile (Point.is isNameChar))
  | p :: rest => .plain p :: pieces rest
termination_by s.length
decreasing_by
  · simp
  · have hdrop := (List.dropWhile_suffix (· != .char '}') (l := rest)).length_le
    have hafter := congrArg List.length _h
    simp only [List.length_cons] at *
    omega
  · simp
  · have hdrop := (List.dropWhile_suffix (Point.is isNameChar) (l := rest)).length_le
    simp only [List.length_cons]
    omega
  · simp

def Piece.value (e : Environment) : Piece → Text
  | .plain p => [p]
  | .variable name written => (e.get? name).getD written

/-- The names of the variables in a text. -/
def mentioned (s : Text) : List Text :=
  (pieces s).filterMap fun
    | .plain _ => none
    | .variable name _ => some name

/-- A text with its variables replaced by their values. -/
def expand (e : Environment) (s : Text) : Text :=
  (pieces s).flatMap (Piece.value e)

end Environment

end UpgradeSafety
