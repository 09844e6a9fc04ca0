import UpgradeSafety.Host.Path
import UpgradeSafety.Journal
import UpgradeSafety.Text.Encoding
import UpgradeSafety.Text.Quoted

/-! The files that a run sees: trees with bytes at their leaves. Where a file stands there are
directories on the way to it. A path is walked name by name, and every name but the last must be
that of a directory; two points lead back, and go on leading back from where a relative path
starts. So a walk ends at a place, which is a path with such points at its start only. -/
namespace UpgradeSafety

inductive FileEntry where
  | file (bytes : Bytes)
  | directory

/-- Why a file cannot be read or written. -/
inductive FileProblem where
  | missing
  | isDirectory
  | notDirectory
  | notText
  deriving DecidableEq, Repr

structure FileFault where
  path : Path
  problem : FileProblem

def FileFault.message (f : FileFault) : String :=
  let path := Text.quoted f.path.text
  match f.problem with
  | .missing => "[Errno 2] No such file or directory: " ++ path
  | .isDirectory => "[Errno 21] Is a directory: " ++ path
  | .notDirectory => "[Errno 20] Not a directory: " ++ path
  | .notText => unstatedReason

/-- Entries by their places. -/
structure Files where
  entries : List (Path × FileEntry)

namespace Files

/-- Whether one place is another or lies below it. -/
def isBelow (place upper : Path) : Bool :=
  place.start == upper.start && upper.names.isPrefixOf place.names

/-- What there is at a place. -/
def at? (fs : Files) (place : Path) : Option FileEntry :=
  match fs.entries.lookup place with
  | some e => some e
  | none =>
    if place.names.all (· == "..") || fs.entries.any fun (other, _) => isBelow other place
    then some .directory else none

/-- The directory around a place; around a root there is only itself. -/
def around (place : Path) : Path :=
  match place.start, place.names.getLast? with
  | .current, none => { place with names := [".."] }
  | .current, some ".." => { place with names := place.names ++ [".."] }
  | _, _ => { place with names := place.names.dropLast }

/-- The place that a name leads to from another place. -/
def next (place : Path) (name : String) : Path :=
  if name = ".." then around place else { place with names := place.names ++ [name] }

/-- The place that a path leads to if there are directories all the way. -/
def placeOf (p : Path) : Path :=
  p.names.foldl next ⟨p.start, []⟩

/-- One name further on the way; only a directory has names in it. -/
def step (fs : Files) (place : Path) (name : String) : Except FileProblem Path :=
  match fs.at? place with
  | none => .error .missing
  | some (.file _) => .error .notDirectory
  | some .directory => .ok (next place name)

/-- The place that a path leads to, whether there is an entry or not. -/
def locate (fs : Files) (p : Path) : Except FileProblem Path :=
  p.names.foldlM fs.step ⟨p.start, []⟩

/-- The entry that a path leads to. -/
def find (fs : Files) (p : Path) : Except FileProblem FileEntry := do
  match fs.at? (← fs.locate p) with
  | some e => return e
  | none => throw .missing

def contains (fs : Files) (p : Path) : Bool :=
  (fs.find p).toBool

def bytesOf : FileEntry → Except FileProblem Bytes
  | .file bytes => .ok bytes
  | .directory => .error .isDirectory

def readBytes (fs : Files) (p : Path) : Except FileProblem Bytes :=
  fs.find p >>= bytesOf

/-- The text of a file, with every line end as a line feed. -/
def readText (fs : Files) (p : Path) : Except FileFault String :=
  match fs.readBytes p with
  | .error problem => .error ⟨p, problem⟩
  | .ok bytes =>
    match Text.ofUtf8? bytes with
    | none => .error ⟨p, .notText⟩
    | some cs => .ok (String.ofList (Text.unixLines cs))

/-- Gives a file new bytes, and makes it if there is none. -/
def write (fs : Files) (p : Path) (bytes : Bytes) : Except FileFault Files :=
  match fs.locate p with
  | .error problem => .error ⟨p, problem⟩
  | .ok place =>
    match fs.at? place with
    | some .directory => .error ⟨p, .isDirectory⟩
    | _ => .ok ⟨(place, .file bytes) :: fs.entries⟩

end Files

end UpgradeSafety
