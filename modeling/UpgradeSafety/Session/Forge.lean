import UpgradeSafety.Number.Numeral
import UpgradeSafety.Session.Event
import UpgradeSafety.Text.Blank

/-! Layouts that are made for a contract. The compiler is run once, and what it prints is the
report; a run that fails, takes too long or cannot be started gives none. -/
namespace UpgradeSafety

/-- What comes of running a command. -/
inductive CommandOutcome where
  | notFound
  | timedOut
  | finished (code : Int) (output errors : String)

/-- Why there is no report. -/
inductive ForgeFault where
  | notFound
  | timedOut (contract : String) (timeout : Int)
  | failed (contract : String) (code : Int) (reason : String)

/-- The message of a fault; the exit status is that of a process, so it is never long. -/
def ForgeFault.message : ForgeFault → Except LongNumber Text
  | .notFound => .ok "未找到forge命令, 请先安装Foundry"
  | .timedOut contract timeout => do
    return "forge inspect 超时 (" ++ (← Numeral.write timeout) ++ "秒): " ++ contract
  | .failed contract code reason =>
    .ok ("forge inspect " ++ contract ++ " 失败 (exit " ++ toString code ++ "): " ++ reason)

namespace Forge

def command (contract : String) : List String :=
  ["forge", "inspect", contract, "storage-layout", "--json"]

/-- The report that the compiler makes for a contract. -/
def inspect (outcome : CommandOutcome) (contract cwd : String) (timeout : Int) :
    Journal SessionEvent ForgeFault String := do
  let command := command contract
  .note (.logged .info ("生成存储布局: " ++ " ".intercalate command ++ " (cwd=" ++ cwd ++ ")"))
  .note (.ran command cwd timeout)
  match outcome with
  | .notFound => .fail .notFound
  | .timedOut => .fail (.timedOut contract timeout)
  | .finished code output errors =>
    if code = 0 then return output
    else do
      let reason := Text.trim errors
      .note (.logged .error ("forge inspect 失败: " ++ reason))
      .fail (.failed contract code reason)

end Forge

end UpgradeSafety
