import UpgradeSafety.Data.Value
import UpgradeSafety.Host.Environment
import UpgradeSafety.Journal

/-! The settings of a check. Each setting has a key, and takes values of one type only: a flag is
no number, and a number is no flag (`Key.set`). A section of a document sets its known keys one by
one, and the first value that does not fit ends the reading; keys that are not known are passed
over with a warning. The environment has the last word on the address and the node. -/
namespace UpgradeSafety

structure Settings where
  checkRemovals : Bool
  address : Option Text
  rpcUrl : Option Text
  /-- A number or the name of a block. -/
  block : Value
  rpcTimeout : Int
  rpcRetryTimes : Int
  /-- A whole number or a fraction of seconds. -/
  rpcRetryDelay : Value
  maxWorkers : Int
  forgeTimeout : Int
  logLevel : Text

/-- The settings where nothing else is said. -/
def Settings.standard : Settings where
  checkRemovals := false
  address := none
  rpcUrl := none
  block := .text "latest"
  rpcTimeout := 30
  rpcRetryTimes := 3
  rpcRetryDelay := .int 2
  maxWorkers := 1
  forgeTimeout := 300
  logLevel := "INFO"

inductive Key where
  | checkRemovals
  | address
  | rpcUrl
  | block
  | rpcTimeout
  | rpcRetryTimes
  | rpcRetryDelay
  | maxWorkers
  | forgeTimeout
  | logLevel
  deriving DecidableEq, Repr

/-- Why a section is refused. -/
inductive SettingFault where
  | wrongType (key : Key) (v : Value)
  /-- The setting is one at least. -/
  | tooSmall (key : Key) (n : Int)

namespace Key

def name : Key → Text
  | .checkRemovals => "check_removals"
  | .address => "address"
  | .rpcUrl => "rpc_url"
  | .block => "block"
  | .rpcTimeout => "rpc_timeout"
  | .rpcRetryTimes => "rpc_retry_times"
  | .rpcRetryDelay => "rpc_retry_delay"
  | .maxWorkers => "max_workers"
  | .forgeTimeout => "forge_timeout"
  | .logLevel => "log_level"

def all : List Key :=
  [.checkRemovals, .address, .rpcUrl, .block, .rpcTimeout, .rpcRetryTimes, .rpcRetryDelay,
    .maxWorkers, .forgeTimeout, .logLevel]

def ofName? (s : Text) : Option Key :=
  all.find? fun key => key.name == s

/-- A number that is one at least. -/
def positive (key : Key) (n : Int) (s : Settings) : Except SettingFault Settings :=
  if n < 1 then .error (.tooSmall key n) else .ok s

/-- Gives a setting a value. -/
def set (key : Key) (v : Value) (s : Settings) : Except SettingFault Settings :=
  match key, v with
  | .checkRemovals, .bool b => .ok { s with checkRemovals := b }
  | .address, .text a => .ok { s with address := some a }
  | .rpcUrl, .text u => .ok { s with rpcUrl := some u }
  | .block, .text _ | .block, .int _ => .ok { s with block := v }
  | .rpcTimeout, .int n => .ok { s with rpcTimeout := n }
  | .rpcRetryTimes, .int n => key.positive n { s with rpcRetryTimes := n }
  | .rpcRetryDelay, .int _ | .rpcRetryDelay, .real _ => .ok { s with rpcRetryDelay := v }
  | .maxWorkers, .int n => key.positive n { s with maxWorkers := n }
  | .forgeTimeout, .int n => .ok { s with forgeTimeout := n }
  | .logLevel, .text l => .ok { s with logLevel := l }
  | key, v => .error (.wrongType key v)

theorem ofName?_name (key : Key) : ofName? key.name = some key := by
  cases key <;> decide

end Key

/-- The setting that has no value of its own. -/
def SettingFault.key : SettingFault → Key
  | .wrongType key _ | .tooSmall key _ => key

/-- The value that is refused. -/
def SettingFault.value : SettingFault → Value
  | .wrongType _ v => v
  | .tooSmall _ n => .int n

/-- The message of a fault shows the value, if that can be shown. -/
def SettingFault.message (f : SettingFault) : Except LongNumber Text :=
  f.value.describe.map fun shown =>
    match f with
    | .wrongType key _ => "配置项 " ++ key.name ++ " 类型错误: " ++ shown
    | .tooSmall key _ => "配置项 " ++ key.name ++ " 必须 >= 1: " ++ shown

namespace Settings

/-- Sets one field of a section, if its key is known. -/
def setField (s : Settings) (field : Text × Value) : Journal LogLine SettingFault Settings :=
  match Key.ofName? field.1 with
  | some key => .ofExcept (key.set field.2 s)
  | none => do
    .note ⟨.warning, "忽略未知配置项: " ++ field.1⟩
    return s

/-- The settings of a section. -/
def ofSection (fields : List (Text × Value)) : Journal LogLine SettingFault Settings :=
  fields.foldlM setField standard

/-- The variables of the environment that give the node and the address. -/
def rpcUrlVariable : Text := "LAYOUT_CHECKER_RPC_URL"

def addressVariable : Text := "LAYOUT_CHECKER_ADDRESS"

/-- The settings with what the environment says. -/
def override (e : Environment) (s : Settings) : Settings :=
  { s with
    rpcUrl := (e.nonempty? rpcUrlVariable).or s.rpcUrl
    address := (e.nonempty? addressVariable).or s.address }

end Settings

end UpgradeSafety
