/-! Paths of files. A path is a root, if it has one, and the names on the way; empty names and
single points are left out, so two spellings of one way are the same path. Two points are a name
like any other: where they lead depends on the files. -/
namespace UpgradeSafety

/-- Where a path starts. -/
inductive PathRoot where
  /-- At the directory that is current. -/
  | current
  | root
  /-- Two slashes, and no more, are a root of their own. -/
  | doubleRoot
  deriving DecidableEq, Repr

structure Path where
  start : PathRoot
  names : List String
  deriving DecidableEq, Repr

namespace Path

/-- The text cut at every slash, one name for each stretch between; `current` is the part read of
a name, last first. -/
def cut : List Char → List Char → List (List Char)
  | current, [] => [current.reverse]
  | current, c :: rest => if c == '/' then current.reverse :: cut [] rest else cut (c :: current) rest

/-- Whether a stretch between slashes is a step on the way. -/
def isStep (name : List Char) : Bool :=
  name != [] && name != ['.']

def rootOf : List Char → PathRoot
  | '/' :: '/' :: '/' :: _ => .root
  | '/' :: '/' :: _ => .doubleRoot
  | '/' :: _ => .root
  | _ => .current

def ofText (s : String) : Path :=
  ⟨rootOf s.toList, ((cut [] s.toList).filter isStep).map String.ofList⟩

def PathRoot.text : PathRoot → String
  | .current => ""
  | .root => "/"
  | .doubleRoot => "//"

def text (p : Path) : String :=
  match p.start, p.names with
  | .current, [] => "."
  | start, names => PathRoot.text start ++ "/".intercalate names

/-- A path seen from another one; a path with a root is seen from everywhere the same. -/
def join (p q : Path) : Path :=
  if q.start = .current then ⟨p.start, p.names ++ q.names⟩ else q

/-- The path of a file in the current directory. -/
def ofName (name : String) : Path := ⟨.current, [name]⟩

end Path

end UpgradeSafety
