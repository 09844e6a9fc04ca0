import UpgradeSafety.Diagnostic.Locate
import UpgradeSafety.Host.Files

/-! Sources in files. A contract in a file is named by the path of the file and, after a colon, its
own name, which may be left out; the first colon is the one that counts. -/
namespace UpgradeSafety.Source

/-- A contract in a file, or the file as a whole. -/
structure Target where
  path : Path
  contract : Option String

def Target.ofText (s : String) : Target :=
  let path := s.toList.takeWhile (· != ':')
  let contract := String.ofList ((s.toList.dropWhile (· != ':')).drop 1)
  ⟨.ofText (String.ofList path), if contract.isEmpty then none else some contract⟩

/-- Why a target cannot be looked into. -/
inductive TargetFault where
  | missing (path : Path)
  | file (fault : FileFault)
  | contract (fault : MissingContract)

def TargetFault.message : TargetFault → String
  | .missing path => "源文件不存在: " ++ path.text
  | .file fault => fault.message
  | .contract fault => fault.message

/-- Prepares the source of a target. -/
def Target.locator (files : Files) (t : Target) : Except TargetFault Locator :=
  if files.contains t.path then do
    let source ← (files.readText t.path).mapError .file
    (Locator.ofSource source t.contract).mapError .contract
  else .error (.missing t.path)

end UpgradeSafety.Source
