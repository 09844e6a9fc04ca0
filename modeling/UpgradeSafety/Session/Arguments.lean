import UpgradeSafety.Text.Digit
import UpgradeSafety.Text.Replace

/-! The words of a command line. First every word is told apart on its own: it is an option, which
may be cut short as long as it is the only one that starts so, or a plain word. Two dashes alone
end the options. Then the options take their values: the one after an equals sign, or the next
plain word. The last value of an option counts. The reading is refused when an option lacks its
value, when a flag has one, when a word is left over, and unless there is a layout in use and just
one layout to come. Asking for help ends the reading at once. -/
namespace UpgradeSafety

/-- Where the layout to come is taken from. -/
inductive Candidate where
  /-- A report in a file. -/
  | report (path : String)
  /-- A contract that a layout is made for. -/
  | contract (name : String)
  deriving DecidableEq, Repr

/-- What is asked for on the command line. -/
structure Arguments where
  src : String
  candidate : Candidate
  cwd : String
  /-- Where a layout that has been made is kept. -/
  saveCmp : Option String
  /-- The source in which variables are located. -/
  source : Option String
  config : Option String
  address : Option String
  rpcUrl : Option String
  checkRemovals : Bool
  json : Bool
  debug : Bool
  deriving DecidableEq, Repr

namespace Arguments

/-- Options with a value. -/
inductive Field where
  | src
  | cmp
  | contract
  | cwd
  | saveCmp
  | source
  | config
  | address
  | rpcUrl
  deriving DecidableEq, Repr

/-- Options without one. -/
inductive Flag where
  | checkRemovals
  | json
  | debug
  deriving DecidableEq, Repr

inductive Name where
  | help
  | field (f : Field)
  | flag (f : Flag)
  deriving DecidableEq, Repr

/-- The options by their full names. -/
def names : List (String × Name) := [
  ("--help", .help), ("--src", .field .src), ("--cmp", .field .cmp),
  ("--contract", .field .contract), ("--cwd", .field .cwd), ("--save-cmp", .field .saveCmp),
  ("--source", .field .source), ("--config", .field .config),
  ("--check-removals", .flag .checkRemovals), ("--address", .field .address),
  ("--rpc-url", .field .rpcUrl), ("--json", .flag .json), ("--debug", .flag .debug)]

inductive Word where
  | plain (s : String)
  /-- An option, with the value after its equals sign if it has one. -/
  | option (name : Name) (given : Option String)
  /-- What looks like an option but is none, or ends the options. -/
  | stray
  deriving DecidableEq, Repr

/-- What can be made of a word. -/
inductive Sense where
  | word (w : Word)
  /-- It is the start of more than one option. -/
  | ambiguous

/-- The word before its first equals sign, and what comes after it. -/
def cutAtEquals (cs : List Char) : String × Option String :=
  (String.ofList (cs.takeWhile (· != '=')),
    match cs.dropWhile (· != '=') with
    | [] => none
    | _ :: rest => some (String.ofList rest))

/-- Whether the characters after a dash are those of a negative number. -/
def isNumber (cs : List Char) : Bool :=
  match cs.dropWhile Text.isDecimal with
  | [] => !cs.isEmpty
  | '.' :: rest => !rest.isEmpty && rest.all Text.isDecimal
  | _ => false

/-- A word that starts with a dash and is no option. -/
def unnamed (cs : List Char) : Word :=
  if isNumber (cs.drop 1) || cs.contains ' ' then .plain (String.ofList cs) else .stray

/-- Letters after one dash, the first of which asks for help. A further dash or an equals sign
makes a value of the rest, which help does not take. -/
def helpLetters : List Char → Word
  | [] => .option .help none
  | '-' :: _ | '=' :: _ => .option .help (some "")
  | 'h' :: rest => helpLetters rest
  | _ => .option .help none

/-- A word that starts with two dashes. -/
def longOption (cs : List Char) : Sense :=
  let (name, given) := cutAtEquals cs
  match names.lookup (String.ofList cs), names.lookup name with
  | some exact, _ => .word (.option exact none)
  | none, some exact => .word (.option exact given)
  | none, none =>
    match names.filter fun (full, _) => Text.startsWith full name with
    | [] => .word (unnamed cs)
    | [(_, only)] => .word (.option only given)
    | _ => .ambiguous

/-- Tells what a word is. -/
def sense (s : String) : Sense :=
  match s.toList with
  | '-' :: '-' :: rest => longOption ('-' :: '-' :: rest)
  | '-' :: 'h' :: rest => .word (helpLetters rest)
  | ['-'] => .word (.plain s)
  | '-' :: rest => .word (unnamed ('-' :: rest))
  | _ => .word (.plain s)

/-- The words of a command line, unless one of them is ambiguous. -/
def words? : List String → Option (List Word)
  | [] => some []
  | "--" :: rest => some (.stray :: rest.map .plain)
  | s :: rest =>
    match sense s with
    | .ambiguous => none
    | .word w => (words? rest).map (w :: ·)

/-- What has been given so far; the last value of a field comes first. -/
structure Given where
  fields : List (Field × String)
  flags : List Flag
  leftover : Bool

def Given.none : Given := ⟨[], [], false⟩

def Given.field? (g : Given) (f : Field) : Option String :=
  g.fields.lookup f

/-- Whether a field excludes one that has been given. -/
def Given.conflicts (g : Given) : Field → Bool
  | .cmp => (g.field? .contract).isSome
  | .contract => (g.field? .cmp).isSome
  | _ => false

def Given.give (g : Given) (f : Field) (s : String) : Option Given :=
  if g.conflicts f then Option.none else some { g with fields := (f, s) :: g.fields }

/-- What comes of reading a command line. -/
inductive Reading (α : Type) where
  | refused
  | help
  | done (a : α)

/-- Hands the words out to the options. -/
def collect (g : Given) : List Word → Reading Given
  | [] => .done g
  | .option .help .none :: _ => .help
  | .option .help (.some _) :: _ => .refused
  | .option (.flag f) .none :: rest => collect { g with flags := f :: g.flags } rest
  | .option (.flag _) (.some _) :: _ => .refused
  | .option (.field f) (.some s) :: rest =>
    match g.give f s with
    | some g => collect g rest
    | Option.none => .refused
  | .option (.field f) .none :: .plain s :: rest =>
    match g.give f s with
    | some g => collect g rest
    | Option.none => .refused
  | .option (.field _) .none :: _ => .refused
  | .plain _ :: rest => collect { g with leftover := true } rest
  | .stray :: rest => collect { g with leftover := true } rest

/-- The one layout to come that has been given. -/
def Given.candidate? (g : Given) : Option Candidate :=
  ((g.field? .cmp).map .report).or ((g.field? .contract).map .contract)

/-- What is asked for, if all that is needed has been given and nothing else. -/
def Given.arguments? (g : Given) : Option Arguments :=
  if g.leftover then Option.none
  else
    match g.field? .src, g.candidate? with
    | some src, some candidate => some {
        src, candidate
        cwd := (g.field? .cwd).getD "."
        saveCmp := g.field? .saveCmp
        source := g.field? .source
        config := g.field? .config
        address := g.field? .address
        rpcUrl := g.field? .rpcUrl
        checkRemovals := g.flags.contains .checkRemovals
        json := g.flags.contains .json
        debug := g.flags.contains .debug }
    | _, _ => Option.none

/-- Reads a command line. -/
def read (argv : List String) : Reading Arguments :=
  match words? argv with
  | Option.none => .refused
  | some ws =>
    match collect .none ws with
    | .refused => .refused
    | .help => .help
    | .done g =>
      match g.arguments? with
      | Option.none => .refused
      | some a => .done a

end Arguments

end UpgradeSafety
