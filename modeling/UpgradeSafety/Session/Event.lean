import UpgradeSafety.Chain.Reader
import UpgradeSafety.Host.Path

/-! What a run does that can be seen from outside: lines of the log, text on the two outputs,
commands that are run, files that are written, and whatever a reader does on the chain. A log line
is kept only if it matters enough (`passes`). -/
namespace UpgradeSafety

inductive SessionEvent where
  | log (line : LogLine)
  | check (e : CheckEvent)
  | printed (text : Text)
  /-- Text on the output for complaints. -/
  | complained (text : Text)
  | ran (command : List String) (cwd : String) (timeout : Int)
  /-- A connection to a node was made. -/
  | opened (url : Text) (block : Value) (timeout : Int)
  | wrote (path : Path) (text : String)

namespace SessionEvent

def logged (severity : Severity) (text : Text) : SessionEvent :=
  .log ⟨severity, text⟩

/-- The line that an event adds to the log. -/
def logLine? : SessionEvent → Option LogLine
  | .log line => some line
  | .check (.chain (.log line _)) => some line
  | _ => none

/-- Whether an event is kept where only lines of some rank and above are wanted. -/
def passes (threshold : Nat) (e : SessionEvent) : Bool :=
  e.logLine?.all fun line => threshold ≤ line.severity.rank

end SessionEvent

/-- A character in capitals, as far as these are ASCII. -/
def upperOf (c : Char) : List Char :=
  match c with
  | 'ı' => ['I']
  | 'ſ' => ['S']
  | 'ß' => ['S', 'S']
  | 'ﬀ' => ['F', 'F']
  | 'ﬁ' => ['F', 'I']
  | 'ﬂ' => ['F', 'L']
  | 'ﬃ' => ['F', 'F', 'I']
  | 'ﬄ' => ['F', 'F', 'L']
  | 'ﬅ' | 'ﬆ' => ['S', 'T']
  | c => [c.toUpper]

/-- A text in capitals, as far as these are ASCII. -/
def upper (s : Text) : Text :=
  s.flatMap fun
    | .char c => Text.ofChars (upperOf c)
    | p => [p]

/-- The least rank of the lines that a name asks for. -/
def levels : List (Text × Nat) := [
  ("CRITICAL", 50), ("FATAL", 50), ("ERROR", 40), ("WARNING", 30), ("WARN", 30), ("INFO", 20),
  ("DEBUG", 10), ("NOTSET", 0)]

/-- The least rank of the lines that a name in any case asks for; an unknown name asks for
information. Two names belong to what is no level, and asking for them fails. -/
def logThreshold? (name : Text) : Option Nat :=
  let name := upper name
  if name = "BASIC_FORMAT" ∨ name = "_STYLES" then none
  else some ((levels.lookup name).getD Severity.info.rank)

end UpgradeSafety
