import UpgradeSafety.Diagnostic.Locate
import UpgradeSafety.Diff.Basic
import UpgradeSafety.Json.Writer

/-! Differences as messages. A rename is a warning and everything else an error. The message of a
kind tells the place of the difference and names the variables that this kind has. A difference
that lacks them (`DiffKind.needs`), or whose place has a number that is too long, cannot be told,
and `Diff.message` refuses it. -/
namespace UpgradeSafety

inductive Level where
  | warning
  | error
  deriving DecidableEq, Repr

def Level.name : Level → String
  | .warning => "warning"
  | .error => "error"

namespace DiffKind

def level : DiffKind → Level
  | .label => .warning
  | _ => .error

def title : DiffKind → String
  | .label => "Label diff"
  | .variable => "Variable diff"
  | .variableType => "Variable type diff"
  | .variableRemoved => "Variable removal"
  | .nonZeroAddedSlot => "Non-zero added slot"

/-- Whether the message of a kind names the old variable, and whether it names the new one. -/
def needs : DiffKind → Bool × Bool
  | .label | .variable | .variableType => (true, true)
  | .variableRemoved => (true, false)
  | .nonZeroAddedSlot => (false, true)

end DiffKind

/-- Why a difference cannot be told. -/
inductive MessageFault where
  /-- Its place cannot be written down. -/
  | longNumber (fault : LongNumber)
  /-- A message of this kind needs a variable that the difference does not have. -/
  | variableMissing (kind : DiffKind)

namespace Diff

/-- The place of a difference in a message. -/
def place (d : Diff) : Except LongNumber Text := do
  let slot ← match d.parent.filter (!·.isEmpty) with
    | none => pure ("storage slot 0x" ++ Hex.padded 64 d.location.slot : Text)
    | some parent => pure (parent ++ " slot #" ++ (← Numeral.write d.location.slot))
  return slot ++ ", byte #" ++ (← Numeral.write d.location.offset)

private def inQuotes (s : Text) : Text := "\"" ++ s ++ "\""

private def named (v : Detail) : Text := "variable " ++ inQuotes v.fullLabel

private def typed (v : Detail) : Text := named v ++ " of type " ++ inQuotes v.typeLabel

/-- What a difference says. -/
def message (d : Diff) : Except MessageFault Text := do
  let place ← d.place.mapError .longNumber
  match d.kind, d.reference, d.candidate with
  | .label, some s, some c =>
    .ok (named s ++ " was renamed to " ++ inQuotes c.fullLabel ++ ". Is it intentional? (" ++
      place ++ ")")
  | .variableType, some s, some c =>
    .ok (named s ++ " was of type " ++ inQuotes s.typeLabel ++ " but is now " ++
      inQuotes c.typeLabel ++ " (" ++ place ++ ")")
  | .variableRemoved, some s, _ => .ok (typed s ++ " was removed (" ++ place ++ ")")
  | .variable, some s, some c =>
    .ok (typed s ++ " was replaced by " ++ typed c ++ " (" ++ place ++ ")")
  | .nonZeroAddedSlot, _, some c =>
    .ok (typed c ++ " was added at a non-zero storage byte (" ++ place ++ ": 0x" ++
      d.value.getD "None" ++ ")")
  | kind, _, _ => .error (.variableMissing kind)

/-- The fields of a difference in a document. -/
def fields (d : Diff) : List (Text × Value) :=
  [("type", .text d.kind.name),
    ("slot", .text (Hex.ofInt d.location.slot)),
    ("offset", .int d.location.offset),
    ("parent", .ofText? d.parent),
    ("src", .ofText? (d.reference.map (·.fullLabel))),
    ("src_type", .ofText? (d.reference.map (·.typeLabel))),
    ("cmp", .ofText? (d.candidate.map (·.fullLabel))),
    ("cmp_type", .ofText? (d.candidate.map (·.typeLabel))),
    ("value", .ofText? d.value)]

end Diff

/-- A difference ready to be shown. -/
structure Diagnostic where
  kind : DiffKind
  message : Text
  range : Source.Range
  deriving DecidableEq, Repr

namespace Diagnostic

/-- The message of a difference, and where the new variable is declared, or else the old one. -/
def ofDiff (locator : Option Source.Locator) (d : Diff) : Except MessageFault Diagnostic :=
  let range := match locator, d.candidate.or d.reference with
    | some l, some v => l.locate v.label
    | _, _ => .none
  d.message.map fun message => ⟨d.kind, message, range⟩

private def positionValue (p : Source.Position) : Value :=
  .record [("line", .int p.line), ("column", .int p.column)]

/-- The fields of a diagnostic in a document. -/
def fields (d : Diagnostic) : List (Text × Value) :=
  [("type", .text d.kind.name),
    ("level", .text d.kind.level.name),
    ("title", .text d.kind.title),
    ("message", .text d.message),
    ("loc", .record [("start", positionValue d.range.start), ("end", positionValue d.range.stop)])]

/-- A diagnostic on one line, with its position if the path of the source is given. -/
def line (path : Option String) (d : Diagnostic) : Text :=
  let position := match path with
    | none => ""
    | some path => " (" ++ path ++ ":" ++ toString d.range.start.line ++ ":" ++
        toString d.range.start.column ++ ")"
  "[" ++ d.kind.level.name ++ "] " ++ d.kind.title ++ ": " ++ d.message ++ position

end Diagnostic

/-- The message of a difference exists exactly when its place can be told and the variables that it
names exist. -/
theorem Diff.message_isOk_iff (d : Diff) :
    (∃ s, d.message = .ok s) ↔
      (∃ s, d.place = .ok s) ∧ (d.kind.needs.1 = true → d.reference.isSome = true) ∧
        (d.kind.needs.2 = true → d.candidate.isSome = true) := by
  unfold message
  cases d.place with
  | error fault =>
    have hstops : ∀ f : Text → Except MessageFault Text,
        ¬∃ s, (Except.error fault : Except LongNumber Text).mapError .longNumber >>= f = .ok s :=
      fun f ⟨_, h⟩ => nomatch h
    simp [hstops]
  | ok place =>
    have hgoes : ∀ f : Text → Except MessageFault Text,
        (Except.ok place : Except LongNumber Text).mapError .longNumber >>= f = f place :=
      fun f => rfl
    obtain ⟨kind, _, _, reference, candidate, _⟩ := d
    cases kind <;> cases reference <;> cases candidate <;> simp [DiffKind.needs, hgoes]

/-- A place in no struct can be told if its offset has a decimal text. -/
theorem Diff.exists_place {d : Diff} (hparent : d.parent = none)
    (hoffset : Numeral.Short d.location.offset) : ∃ s, d.place = .ok s := by
  rw [place, hparent, Numeral.write_of_short hoffset]
  exact ⟨_, rfl⟩

end UpgradeSafety
