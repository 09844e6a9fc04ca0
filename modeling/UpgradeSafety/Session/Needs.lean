import UpgradeSafety.Session.Run

/-! What a run may look at. The files are those that the command line names and the two that have
standard names, and the variables of the environment are the two that give settings and those that
a text among the inputs mentions. What is not listed here, no run asks for. -/
namespace UpgradeSafety.Session

/-- The paths that a run may read or write. -/
def paths (a : Arguments) : List Path :=
  let candidate := match a.candidate with
    | .report name => [name]
    | .contract _ => []
  let named := a.src :: a.config.getD standardFile :: candidate ++ a.saveCmp.toList
  let source := (sourceOf a).map fun source => (Source.Target.ofText source).path
  (Path.ofText a.cwd).join (.ofName projectFile) :: named.map Path.ofText ++ source.toList

/-- The variables that give settings. -/
def settingVariables : List Text :=
  [Settings.rpcUrlVariable, Settings.addressVariable]

/-- The variables that texts mention. -/
def mentionedVariables (texts : List Text) : List Text :=
  (texts.flatMap Environment.mentioned).eraseDups

end UpgradeSafety.Session
