import UpgradeSafety.Text.WordChar
import UpgradeSafety.Toml.Scalar

/-! TOML documents: settings as `key = value`, one on a line, under headers that name the table
they belong to. A list holds values of one kind only. A name is given a value once, and a table is
opened by a header once, though it may have come into being before as part of a longer name. -/
namespace UpgradeSafety.Toml

/-- The fields of a table. -/
abbrev Fields := List (Text × Value)

/-- The kind that the values of a list share. -/
def kind : Value → Nat
  | .null => 0
  | .bool _ => 1
  | .int _ => 2
  | .real _ => 3
  | .text _ => 4
  | .list _ => 5
  | .record _ => 6
  | .moment _ => 7

def isHomogeneous : List Value → Bool
  | [] => true
  | v :: rest => rest.all fun w => kind w == kind v

/-- Gives a new name in a table a value; tables on the way to it are made as needed. -/
def insert? (key : Text) (v : Value) : List Text → Fields → Option Fields
  | [], fields => if (fields.lookup key).isSome then none else some (Value.put fields key v)
  | table :: path, fields =>
    match fields.lookup table with
    | none => (insert? key v path []).map fun inner => Value.put fields table (.record inner)
    | some (.record inner) =>
      (insert? key v path inner).map fun inner => Value.put fields table (.record inner)
    | some _ => none

/-- What a path of names leads to. -/
def find? : List Text → Value → Option Value
  | [], v => some v
  | name :: path, v => (v.field? name).bind (find? path)

/-! ### Names and values -/

def isSpace (c : Char) : Bool :=
  c == ' ' || c == '\t'

def skipSpaces (cs : List Char) : List Char :=
  cs.dropWhile isSpace

def isBare (c : Char) : Bool :=
  Text.isWordChar c || c == '-'

/-- One name, bare or in quotes. -/
def name? : List Char → Option (Text × List Char)
  | '\"' :: rest => (basic? rest).map fun (cs, rest) => (Text.ofChars cs, rest)
  | '\'' :: rest => (literal? rest).map fun (cs, rest) => (Text.ofChars cs, rest)
  | cs =>
    match cs.takeWhile isBare with
    | [] => none
    | name => some (Text.ofChars name, cs.dropWhile isBare)

/-- Names with points between them; `room` bounds their number. -/
def path? : Nat → List Char → Option (List Text × List Char)
  | 0, _ => none
  | room + 1, cs =>
    (name? (skipSpaces cs)).bind fun (name, rest) =>
      match skipSpaces rest with
      | '.' :: rest => (path? room rest).map fun (names, rest) => (name :: names, rest)
      | rest => some ([name], rest)

/-- Skips what may stand around the items of a list: blanks, line ends and comments. -/
def skipLayout : List Char → List Char
  | [] => []
  | '#' :: rest => skipComment rest
  | c :: rest => if isSpace c || c == '\n' then skipLayout rest else c :: rest
where
  skipComment : List Char → List Char
    | [] => []
    | c :: rest => if c == '\n' then skipLayout rest else skipComment rest

/-- Whether a bare word ends before the character. -/
def endsWord (c : Char) : Bool :=
  c == ',' || c == ']' || c == '}' || c == '#' || c == '\n'

mutual

/-- A value, and what follows it; `room` bounds the nesting and the number of parts. -/
def value? : Nat → List Char → Option (Value × List Char)
  | 0, _ => none
  | room + 1, cs =>
    match cs with
    | '\"' :: rest => (basic? rest).map fun (cs, rest) => (.text (Text.ofChars cs), rest)
    | '\'' :: rest => (literal? rest).map fun (cs, rest) => (.text (Text.ofChars cs), rest)
    | '[' :: rest =>
      (items? room rest).bind fun (vs, rest) =>
        if isHomogeneous vs then some (.list vs, rest) else none
    | '{' :: rest => (entries? room [] rest).map fun (fields, rest) => (.record fields, rest)
    | cs =>
      (ofWord? (Text.trimEnd (cs.takeWhile fun c => !endsWord c))).map fun v =>
        (v, cs.dropWhile fun c => !endsWord c)

/-- The items of a list up to its end; nothing between two commas is no item. -/
def items? : Nat → List Char → Option (List Value × List Char)
  | 0, _ => none
  | room + 1, cs =>
    match skipLayout cs with
    | ']' :: rest => some ([], rest)
    | ',' :: rest => items? room rest
    | cs =>
      (value? room cs).bind fun (v, rest) =>
        match skipLayout rest with
        | ']' :: rest => some ([v], rest)
        | ',' :: rest => (items? room rest).map fun (vs, rest) => (v :: vs, rest)
        | _ => none

/-- The fields of a table on one line up to its end. -/
def entries? : Nat → Fields → List Char → Option (Fields × List Char)
  | 0, _, _ => none
  | room + 1, fields, cs =>
    match skipSpaces cs with
    | '}' :: rest => some (fields, rest)
    | cs =>
      (setting? room cs).bind fun (path, v, rest) =>
        (insert? (path.getLastD "") v path.dropLast fields).bind fun fields =>
          match skipSpaces rest with
          | ',' :: rest => entries? room fields rest
          | '}' :: rest => some (fields, rest)
          | _ => none

/-- A name and its value. -/
def setting? : Nat → List Char → Option (List Text × Value × List Char)
  | 0, _ => none
  | room + 1, cs =>
    (path? room cs).bind fun (path, rest) =>
      match rest with
      | '=' :: rest => (value? room (skipSpaces rest)).map fun (v, rest) => (path, v, rest)
      | _ => none

end

/-! ### Documents -/

/-- A line of a document that says something. -/
inductive Statement where
  | header (path : List Text)
  | entry (path : List Text) (v : Value)

/-- What follows the line, if it holds nothing more but a comment. -/
def endOfLine? (cs : List Char) : Option (List Char) :=
  match skipSpaces cs with
  | [] => some []
  | '\n' :: rest => some rest
  | '#' :: rest => some ((rest.dropWhile (· != '\n')).drop 1)
  | _ => none

/-- One statement, and what follows it on the line. -/
def statement? (room : Nat) : List Char → Option (Statement × List Char)
  | '[' :: rest =>
    (path? room rest).bind fun (path, rest) =>
      match rest with
      | ']' :: rest => some (.header path, rest)
      | _ => none
  | cs => (setting? room cs).map fun (path, v, rest) => (.entry path v, rest)

/-- The statements of a text. -/
def statements? (room : Nat) : Nat → List Char → Option (List Statement)
  | 0, _ => none
  | lines + 1, cs =>
    match skipSpaces cs with
    | [] => some []
    | c :: rest =>
      match endOfLine? (c :: rest) with
      | some rest => statements? room lines rest
      | none =>
        (statement? room (c :: rest)).bind fun (s, rest) =>
          (endOfLine? rest).bind fun rest => (statements? room lines rest).map (s :: ·)

/-- A document as far as it has been read. -/
structure State where
  fields : Fields
  /-- The table that settings go into. -/
  current : List Text
  /-- Tables that no header has opened: they are only part of the name of another one. -/
  implied : List (List Text)

/-- The paths that a path goes through before its end. -/
def steps (path : List Text) : List (List Text) :=
  (List.range path.length).tail.map path.take

/-- Opens a table. -/
def State.open? (s : State) (path : List Text) : Option State :=
  if path ∈ s.implied then some { s with current := path, implied := s.implied.erase path }
  else
    (insert? (path.getLastD "") (.record []) path.dropLast s.fields).map fun fields =>
      let made := (steps path).filter fun step => (find? step (.record s.fields)).isNone
      { fields, current := path, implied := made ++ s.implied }

def State.step? (s : State) : Statement → Option State
  | .header path => s.open? path
  | .entry path v =>
    (insert? (path.getLastD "") v (s.current ++ path.dropLast) s.fields).map fun fields =>
      { s with fields }

/-- The record that a document writes. -/
def read? (cs : List Char) : Option Value :=
  let room := 2 * cs.length + 2
  (statements? room room cs).bind fun ss =>
    (ss.foldlM State.step? ⟨[], [], []⟩).map fun s => .record s.fields

end UpgradeSafety.Toml
