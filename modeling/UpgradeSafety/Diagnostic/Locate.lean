import UpgradeSafety.Diagnostic.Mask
import UpgradeSafety.Text.Blank
import UpgradeSafety.Text.WordChar

/-! Where a variable is declared in a source. Identifiers are looked for in the masked text, first
inside the contract that is asked for and then everywhere, and the first one that is the label
wins. It is a guess: a use before the declaration wins too. Lines count from one and columns from
zero, in characters; a label that does not occur has the range `Range.none`. -/
namespace UpgradeSafety.Source

structure Position where
  line : Nat
  column : Nat
  deriving DecidableEq, Repr

structure Range where
  start : Position
  stop : Position
  deriving DecidableEq, Repr

def Range.none : Range := ⟨⟨0, 0⟩, ⟨0, 0⟩⟩

/-- Characters inside an identifier. -/
def isNameChar (c : Char) : Bool :=
  Text.isWordChar c || c == '$'

/-- Characters at the start of an identifier. -/
def isNameStart (c : Char) : Bool :=
  c.isAlpha || c == '_' || c == '$'

/-- A stretch of a text: where it starts, and its characters. -/
structure Name where
  start : Nat
  text : List Char
  deriving DecidableEq

/-- The longest stretches of name characters, from the index `i` on; `current` is the part read of
a stretch that has begun, last first. -/
def stretches : Nat → List Char → List Char → List Name
  | i, current, [] => if current.isEmpty then [] else [⟨i - current.length, current.reverse⟩]
  | i, current, c :: rest =>
    if isNameChar c then stretches (i + 1) (c :: current) rest
    else if current.isEmpty then stretches (i + 1) [] rest
    else ⟨i - current.length, current.reverse⟩ :: stretches (i + 1) [] rest

/-- The identifiers of a text: the stretches that start like one. -/
def identifiers (cs : List Char) : List Name :=
  (stretches 0 [] cs).filter fun n => n.text.head?.any isNameStart

/-- The position of the character with an index. -/
def positionOf (cs : List Char) (i : Nat) : Position :=
  let before := cs.take i
  ⟨before.count '\n' + 1, (before.reverse.takeWhile (· != '\n')).length⟩

def Name.range (cs : List Char) (n : Name) : Range :=
  ⟨positionOf cs n.start, positionOf cs (n.start + n.text.length)⟩

/-! ### The contract -/

/-- Whether a word starts or ends between two characters; the ends of the text are no words. -/
def isBoundary (a b : Option Char) : Bool :=
  (a.any Text.isWordChar) != (b.any Text.isWordChar)

/-- The number of characters in a name that ends at a word boundary. -/
def nameLength? (name cs : List Char) : Option Nat :=
  if name.isPrefixOf cs && isBoundary name.getLast? (cs.drop name.length).head? then
    some name.length
  else none

/-- White space and a name after it. With a name that starts with white space, as much as possible
of it comes before the name; `room` bounds that. -/
def blankAndName? (name cs : List Char) : Nat → Option Nat
  | 0 => none
  | room + 1 =>
    match nameLength? name (cs.drop (room + 1)) with
    | some n => some (room + 1 + n)
    | none => blankAndName? name cs room

/-- A keyword, white space and a name. -/
def keywordAndName? (keyword name cs : List Char) : Option Nat :=
  if keyword.isPrefixOf cs then
    let rest := cs.drop keyword.length
    (blankAndName? name rest (rest.takeWhile Text.isBlank).length).map (keyword.length + ·)
  else none

/-- The keywords that start a definition. -/
def keywords : List (List Char) :=
  ["contract".toList, "library".toList, "interface".toList]

/-- A contract after the keyword that makes it abstract. -/
def abstractAndName? (name cs : List Char) : Option Nat :=
  let keyword := "abstract".toList
  if keyword.isPrefixOf cs then
    let rest := cs.drop keyword.length
    let room := (rest.takeWhile Text.isBlank).length
    if room = 0 then none
    else
      (keywordAndName? "contract".toList name (rest.drop room)).map (keyword.length + room + ·)
  else none

/-- The number of characters in a definition of the name, up to the end of the name. -/
def definitionLength? (name cs : List Char) : Option Nat :=
  (abstractAndName? name cs).or (keywords.findSome? fun keyword => keywordAndName? keyword name cs)

/-- Where the first definition of the name starts and where its name ends. `i` is the index of the
text, and `before` the character in front of it. -/
def definition? (name : List Char) : Nat → Option Char → List Char → Option (Nat × Nat)
  | _, _, [] => none
  | i, before, c :: rest =>
    let here := if isBoundary before (some c) then definitionLength? name (c :: rest) else none
    match here with
    | some n => some (i, i + n)
    | none => definition? name (i + 1) (some c) rest

/-- How many characters there are up to the brace that closes the first one, if one does. -/
def closingBrace? : Nat → List Char → Option Nat
  | _, [] => none
  | depth, '{' :: rest => (closingBrace? (depth + 1) rest).map (· + 1)
  | 0, _ :: rest => (closingBrace? 0 rest).map (· + 1)
  | 1, '}' :: _ => some 1
  | depth + 2, '}' :: rest => (closingBrace? (depth + 1) rest).map (· + 1)
  | depth + 1, _ :: rest => (closingBrace? (depth + 1) rest).map (· + 1)

/-- The indices between which the definition of a contract stands, its end not included. -/
def body? (name cs : List Char) : Option (Nat × Nat) :=
  (definition? name 0 none cs).map fun (start, stop) =>
    (start, match closingBrace? 0 (cs.drop stop) with
      | some n => stop + n
      | none => cs.length)

/-! ### Locators -/

/-- A source ready for look-ups: its masked text, its identifiers, and the bounds of the contract
that is looked in first. -/
structure Locator where
  text : List Char
  names : List Name
  body : Option (Nat × Nat)

/-- The source does not define the contract. -/
structure MissingContract where
  name : String

def MissingContract.message (m : MissingContract) : String :=
  "Contract definition not found: " ++ m.name

/-- Prepares a source; an empty name asks for no contract. -/
def Locator.ofSource (source : String) (contract : Option String) :
    Except MissingContract Locator :=
  let text := mask source.toList
  let names := identifiers text
  match contract with
  | none => .ok ⟨text, names, none⟩
  | some contract =>
    if contract.isEmpty then .ok ⟨text, names, none⟩
    else match body? contract.toList text with
      | some body => .ok ⟨text, names, some body⟩
      | none => .error ⟨contract⟩

namespace Locator

/-- The first identifier that is the label and starts within bounds. -/
def find? (l : Locator) (label : List Char) (start stop : Nat) : Option Name :=
  l.names.find? fun n => start ≤ n.start && n.start < stop && n.text == label

/-- The first identifier that is the label, of those in the contract if there is one there. -/
def search? (l : Locator) (label : List Char) : Option Name :=
  (l.body.bind fun (start, stop) => l.find? label start stop).or (l.find? label 0 l.text.length)

/-- The range of a label. One with half of a surrogate pair stands in no source. -/
def locate (l : Locator) (label : Text) : Range :=
  match label.chars?.bind l.search? with
  | some n => n.range l.text
  | none => .none

end Locator

end UpgradeSafety.Source
