import UpgradeSafety.Host.Files
import UpgradeSafety.Host.Libraries
import UpgradeSafety.Settings.Basic

/-! Where settings come from: a TOML file that is named or, if there is one, the file with the
standard name, and after that the environment. Only a file that is named must exist. The settings
stand in one section of the document; a document without it sets nothing. -/
namespace UpgradeSafety

/-- The name of the section with the settings. -/
def sectionName : Text := "layout_checker"

/-- The name of the file that is read where none is named. -/
def standardFile : String := "layout_checker.toml"

/-- Why there are no settings, or no document to take them from. -/
inductive SettingsFault where
  /-- The file that was named does not exist. -/
  | missing (name : String)
  /-- The file cannot be read, or holds no document. -/
  | unreadable (path : Path)
  /-- The bytes of the file are no text. -/
  | notText (path : Path)
  | sectionNotTable
  | setting (fault : SettingFault)

def SettingsFault.message : SettingsFault → Except LongNumber Text
  | .missing name => .ok ("配置文件不存在: " ++ name)
  | .unreadable path | .notText path =>
    .ok ("读取配置文件失败 " ++ path.text ++ ": " ++ unstatedReason)
  | .sectionNotTable => .ok ("[" ++ sectionName ++ "] 必须是表")
  | .setting fault => fault.message

/-- Reads the document in a file. -/
def readDocument (lib : Libraries) (files : Files) (path : Path) : Except SettingsFault Value :=
  match files.readText path with
  | .error fault => if fault.problem = .notText then .error (.notText path)
    else .error (.unreadable path)
  | .ok text =>
    match lib.toml? text with
    | none => .error (.unreadable path)
    | some v => .ok v

namespace Settings

/-- The settings of a document. -/
def ofDocument (v : Value) : Journal LogLine SettingsFault Settings :=
  match v.field? sectionName with
  | none => pure standard
  | some (.record fields) => (ofSection fields).mapError .setting
  | some _ => .fail .sectionNotTable

/-- The settings of a file. -/
def ofFile (lib : Libraries) (files : Files) (path : Path) :
    Journal LogLine SettingsFault Settings := do
  let document ← .ofExcept (readDocument lib files path)
  let s ← ofDocument document
  .note ⟨.info, "加载配置: " ++ path.text⟩
  return s

/-- The settings of a run: `name` is that of the file, if one is named. -/
def load (lib : Libraries) (files : Files) (e : Environment) (name : Option String) :
    Journal LogLine SettingsFault Settings := do
  let s ← match name with
    | some name =>
      if files.contains (.ofText name) then ofFile lib files (.ofText name)
      else .fail (.missing name)
    | none =>
      let path := Path.ofName standardFile
      if files.contains path then ofFile lib files path else pure standard
  return s.override e

end Settings

end UpgradeSafety
