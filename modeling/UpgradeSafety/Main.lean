import UpgradeSafety.Host.Standard
import UpgradeSafety.Session.Needs

/-! The command line. It gathers the files and the variables that a run may look at, lets the run
tell what is to be done, and does it: text goes to the outputs, and reports that are kept go to
their files. There is no compiler and no node here, so a contract's layout cannot be made and slots
cannot be read; both are told as such. -/
namespace UpgradeSafety.CommandLine

def usage : String :=
  "usage: layout-checker --src FILE (--cmp FILE | --contract NAME) [--cwd DIR] [--save-cmp FILE]\n" ++
  "  [--source FILE:NAME] [--config FILE] [--check-removals] [--address ADDRESS]\n" ++
  "  [--rpc-url URL] [--json] [--debug]\n"

/-- The entries on the way along some names, as far as it goes. -/
def entriesAlong (done : Path) : List String → IO (List (Path × FileEntry))
  | [] => return []
  | name :: rest => do
    let here := { done with names := done.names ++ [name] }
    match ← (IO.FS.readBinFile here.text).toBaseIO with
    | .ok bytes => return [(Files.placeOf here, .file bytes.toList)]
    | .error (.inappropriateType ..) =>
      return (Files.placeOf here, .directory) :: (← entriesAlong here rest)
    | .error _ => return []

def filesFor (a : Arguments) : IO Files := do
  let entries ← (Session.paths a).mapM fun p => entriesAlong ⟨p.start, []⟩ p.names
  return ⟨entries.flatten⟩

/-- The characters of a text; a half of a surrogate pair is shown by its number. -/
def shown (s : Text) : String :=
  String.ofList (s.flatMap fun
    | .char c => [c]
    | p => Text.escapedCode p.code)

def valuesOf (names : List Text) : IO (List (Text × Text)) := do
  let values ← (names.filterMap Text.chars?).mapM fun name =>
    return (Text.ofChars name, ← IO.getEnv (String.ofList name))
  return values.filterMap fun (name, value) => value.map fun value => (name, ↑value)

/-- The texts of files that are texts. -/
def textsOf (files : Files) : List Text :=
  files.entries.filterMap fun
    | (_, .file bytes) => (Text.ofUtf8? bytes).map Text.ofChars
    | _ => none

def environmentFor (a : Arguments) (files : Files) : IO Environment := do
  let settings ← valuesOf Session.settingVariables
  let texts := (a.rpcUrl.map Text.ofString).toList ++ settings.map Prod.snd ++ textsOf files
  return ⟨settings ++ (← valuesOf (Session.mentionedVariables texts))⟩

def perform : SessionEvent → IO Unit
  | .printed text => IO.print (shown text)
  | .complained text => IO.eprint (shown text)
  | .wrote path text => IO.FS.writeFile path.text text
  | e =>
    match e.logLine? with
    | some line => IO.eprintln (shown line.render)
    | none => return ()

end UpgradeSafety.CommandLine

open UpgradeSafety in
def main (argv : List String) : IO UInt32 := do
  match Arguments.read argv with
  | .refused =>
    IO.eprint CommandLine.usage
    return 2
  | .help =>
    IO.print CommandLine.usage
    return 0
  | .done a =>
    let files ← CommandLine.filesFor a
    let environment ← CommandLine.environmentFor a files
    let host : Host := {
      files, environment
      libraries := .standard
      forge := .notFound
      node := fun _ _ => .raised "no connection"
      shows := (·.char?.isSome) }
    let j := Session.perform host a
    j.notes.forM CommandLine.perform
    match j.result with
    | .ok (.status n) => return n.toUInt32
    | .ok .refused => return 2
    | .ok .help => return 0
    | .error _ =>
      IO.eprintln "the inputs are of a form that cannot be checked"
      return 1
