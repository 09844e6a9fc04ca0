import UpgradeSafety.Chain.Node
import UpgradeSafety.Diagnostic.Message
import UpgradeSafety.Diagnostic.SourceFile
import UpgradeSafety.Diff.Check
import UpgradeSafety.Host.Libraries
import UpgradeSafety.Session.Arguments
import UpgradeSafety.Session.Forge
import UpgradeSafety.Settings.Endpoint

/-! A run of the checker from its command line to its exit status. Two layouts are loaded, compared
and, where there is an address and a node, checked on the chain; every difference is printed once.
The status is 0 if there are warnings at most, 1 if there is an error or a slot that was not read,
and 2 if the inputs do not allow a check. What a run finds around it is a `Host`, and what it does
is a list of events, so a run is a function. Some inputs are met by no handler and end a run without
a status; that is a `Crash`. -/
namespace UpgradeSafety

/-- What a run finds around it. -/
structure Host where
  libraries : Libraries
  files : Files
  environment : Environment
  /-- What comes of running the compiler. -/
  forge : CommandOutcome
  /-- What the node does with the calls for each slot. -/
  node : Int → Nat → Response
  /-- The code points that the output can show. -/
  shows : Point → Bool

/-- An input that does not allow a check. -/
inductive InputFault where
  | file (fault : FileFault)
  | report (fault : ReportFault)
  | generation (fault : ForgeFault)
  | endpoint (fault : EndpointFault)
  | address (address : Text)

def InputFault.message : InputFault → Except LongNumber Text
  | .file fault => .ok fault.message
  | .report fault => fault.message
  | .generation fault => fault.message
  | .endpoint fault => fault.message
  | .address text => .ok ("合约地址非法: " ++ text)

/-- An end without an exit status. -/
inductive Crash where
  | notText
  /-- The name of the log level belongs to what is no level. -/
  | noLevel
  /-- No name was given to either layout to come. -/
  | noCandidate
  | unusableEndpoint
  | expansion (fault : ExpansionFault)
  | shortWord
  | untold (fault : MessageFault)
  /-- The message of a fault would show a number that is too long. -/
  | longNumber (fault : LongNumber)
  /-- The output cannot show what is to be printed. -/
  | notShown (text : Text)

/-- Why a run comes to no verdict. -/
inductive Stop where
  | input (fault : InputFault)
  /-- A layout has no footprint. -/
  | unsound (reason : Text)
  | crash (c : Crash)

namespace Stop

def ofFile (fault : FileFault) : Stop :=
  if fault.problem = .notText then .crash .notText else .input (.file fault)

def ofEndpoint : EndpointFault → Stop
  | .document (.notText _) => .crash .notText
  | .unusable => .crash .unusableEndpoint
  | fault => .input (.endpoint fault)

def ofExpansion (fault : ExpansionFault) : Stop :=
  match fault.malformed? with
  | some (reason, _) => .unsound reason
  | none => .crash (.expansion fault)

end Stop

/-- How a run ends. -/
inductive Outcome where
  /-- The command line was refused. -/
  | refused
  /-- Help was asked for. -/
  | help
  | status (n : Nat)
  deriving DecidableEq, Repr

namespace Session

/-! ### Inputs -/

/-- Reads a report. -/
def readReport (text : String) : Journal SessionEvent Stop Layout :=
  match Layout.ofText text with
  | .ok l => do
    .note (.logged .debug ("解析存储布局: " ++ toString l.storage.length ++ " 个变量, " ++
      toString l.types.length ++ " 个类型"))
    return l
  | .error .notJson => do
    .note (.logged .error ("解析存储布局失败: " ++ unstatedReason))
    .fail (.input (.report .notJson))
  | .error fault => .fail (.input (.report fault))

/-- Reads the report in a file. -/
def loadReport (files : Files) (name : String) : Journal SessionEvent Stop Layout := do
  let path := Path.ofText name
  .note (.logged .info ("加载存储布局报告: " ++ path.text))
  readReport (← .ofExcept ((files.readText path).mapError Stop.ofFile))

/-- Keeps a report in a file, if one is named. -/
def keep (files : Files) (name : Option String) (text : String) :
    Journal SessionEvent Stop Files :=
  match name.filter (!·.isEmpty) with
  | none => pure files
  | some name => do
    let path := Path.ofText name
    let files ← .ofExcept ((files.write path (Text.toUtf8 text)).mapError Stop.ofFile)
    .note (.wrote path text)
    .note (.logged .info ("候选布局已保存: " ++ name))
    return files

/-- The layout to come, and the files afterwards. -/
def loadCandidate (h : Host) (a : Arguments) (s : Settings) :
    Journal SessionEvent Stop (Layout × Files) :=
  match a.candidate with
  | .report "" => .fail (.crash .noCandidate)
  | .report name => do
    return (← loadReport h.files name, h.files)
  | .contract name => do
    let text ← (Forge.inspect h.forge name (Path.ofText a.cwd).text s.forgeTimeout).mapError
      fun fault => .input (.generation fault)
    let files ← keep h.files a.saveCmp text
    return (← readReport text, files)

/-- The one of two texts that says something, the first one if both do. -/
def prefer (first second : Option Text) : Option Text :=
  (first.filter (!·.isEmpty)).or (second.filter (!·.isEmpty))

/-- The address of the node, if one is asked for. -/
def nodeUrl (h : Host) (files : Files) (a : Arguments) (s : Settings) :
    Journal SessionEvent Stop (Option Text) :=
  let project := (Path.ofText a.cwd).join (.ofName projectFile)
  let url := prefer (a.rpcUrl.map .ofString) s.rpcUrl
  ((Endpoint.resolve h.libraries files h.environment project url).mapNotes
    SessionEvent.log).mapError Stop.ofEndpoint

/-- Connects to a node if there is an address to ask it for. -/
def connect (h : Host) (s : Settings) (address url : Option Text) :
    Journal SessionEvent Stop (Option Reader) :=
  let policy := NodePolicy.ofAttempts s.block s.rpcRetryTimes s.rpcRetryDelay
  match address, Node.connect url policy with
  | some _, .ok node => do
    .note (.opened node.url s.block s.rpcTimeout)
    return some (Node.reader h.libraries node.policy h.node)
  | _, _ => pure none

/-- All that a check needs. -/
structure Inputs where
  src : Layout
  cmp : Layout
  files : Files
  address : Option Text
  reader : Option Reader

def prepare (h : Host) (a : Arguments) (s : Settings) : Journal SessionEvent Stop Inputs := do
  let src ← loadReport h.files a.src
  let (cmp, files) ← loadCandidate h a s
  let url ← nodeUrl h files a s
  let address := prefer (a.address.map .ofString) s.address
  match address.filter (!h.libraries.isAddress ·) with
  | some address => .fail (.input (.address address))
  | none => do
    let reader ← connect h s address url
    return { src, cmp, files, address, reader }

/-! ### The check -/

/-- What was found, and whether some slots were not read. -/
structure Findings where
  diffs : List Diff
  unread : Bool

/-- Checks the inputs; slots that were not read do not end the run. -/
def examine (h : Host) (i : Inputs) (checkRemovals : Bool) (workers : Workers) :
    Journal SessionEvent Stop Findings := do
  let check := Layout.check h.libraries.hash i.src i.cmp checkRemovals i.address i.reader workers
  match ← (check.mapNotes SessionEvent.check).attempt with
  | .ok diffs => return ⟨diffs, false⟩
  | .error (.expansion fault) => .fail (.ofExpansion fault)
  | .error .shortWord => .fail (.crash .shortWord)
  | .error (.unread fault diffs) => do
    .note (.logged .error ("链上校验失败, 槽位 " ++ Added.slotList fault.failedSlots ++ ": " ++
      fault.message))
    return ⟨diffs, true⟩

/-- The source in which variables are located. -/
def sourceOf (a : Arguments) : Option String :=
  match a.source.filter (!·.isEmpty), a.candidate with
  | some source, _ => some source
  | none, .contract name =>
    if name.isEmpty then none else some ((Path.ofText a.cwd).join (.ofText name)).text
  | none, .report _ => none

/-- Opens the source, if there is one and something to be located. -/
def locate (files : Files) (a : Arguments) (diffs : List Diff) :
    Journal SessionEvent Stop (Option (Path × Source.Locator)) :=
  match sourceOf a with
  | none => pure none
  | some source =>
    if diffs.isEmpty then pure none
    else
      let target := Source.Target.ofText source
      match target.locator files with
      | .ok l => pure (some (target.path, l))
      | .error fault => do
        .note (.logged .warning ("无法解析源码, 诊断不含位置信息: " ++ fault.message))
        return none

/-- The record of a difference: its fields are put into those of its diagnostic. -/
def record (item : Diagnostic) (d : Diff) : Value :=
  .record (d.fields.foldl (fun fields (key, v) => Value.put fields key v) item.fields)

/-- The document for differences and their diagnostics. -/
def document (items : List (Diagnostic × Diff)) : Value :=
  .list (items.map fun (item, d) => record item d)

/-- What is printed: one document, or one line for each difference. -/
def display (json : Bool) (path : Option Path) (items : List (Diagnostic × Diff)) :
    List Text :=
  if json then [Json.indented (document items) ++ "\n"]
  else items.map fun entry => entry.1.line (path.map Path.text) ++ "\n"

/-- The exit status of a check. -/
def status (unread : Bool) (items : List Diagnostic) : Nat :=
  if unread || items.any (·.kind.level == .error) then 1 else 0

/-- Prints a text, all of it or nothing. -/
def print (h : Host) (text : Text) : Journal SessionEvent Stop Unit :=
  if text.all h.shows then .note (.printed text) else .fail (.crash (.notShown text))

/-- Prints the findings and tells the verdict. -/
def present (h : Host) (a : Arguments) (files : Files) (f : Findings) :
    Journal SessionEvent Stop Nat := do
  let source ← locate files a f.diffs
  let items ← .ofExcept ((f.diffs.mapM (Diagnostic.ofDiff (source.map (·.2)))).mapError
    fun fault => Stop.crash (.untold fault))
  (display a.json (source.map (·.1)) (items.zip f.diffs)).forM (print h)
  let n := status f.unread items
  if n = 0 then
    .note (.logged .info ("存储布局检查通过 (" ++ toString items.length ++ " 条警告)"))
  else .note (.logged .error "检测到不安全的存储布局变更")
  return n

/-! ### The run -/

/-- The part of a run that the settings govern. -/
def check (h : Host) (a : Arguments) (s : Settings) : Journal SessionEvent Stop Nat := do
  let inputs ← prepare h a s
  let findings ← examine h inputs (a.checkRemovals || s.checkRemovals) (.inOrder s.maxWorkers)
  present h a inputs.files findings

/-- Ends a run that came to no verdict. -/
def conclude (x : Journal SessionEvent Stop Nat) : Journal SessionEvent Crash Outcome := do
  match ← x.attempt with
  | .ok n => return .status n
  | .error (.crash c) => .fail c
  | .error (.input fault) => do
    let message ← .ofExcept (fault.message.mapError .longNumber)
    .note (.logged .error ("输入错误: " ++ message))
    return .status 2
  | .error (.unsound reason) => do
    .note (.logged .error ("存储布局报告非法: " ++ reason))
    return .status 2

/-- The least rank of the log lines that a run keeps, if the settings name one. -/
def threshold? (a : Arguments) (s : Settings) : Option Nat :=
  if a.debug then some Severity.debug.rank else logThreshold? s.logLevel

/-- Runs the checker on a command line that has been read. Until the settings are known, only
warnings are kept of the log. -/
def perform (h : Host) (a : Arguments) : Journal SessionEvent Crash Outcome := do
  let settings := (Settings.load h.libraries h.files h.environment a.config).mapNotes SessionEvent.log
  match ← (settings.filterNotes (SessionEvent.passes Severity.warning.rank)).attempt with
  | .error (.notText _) => .fail .notText
  | .error fault => do
    let message ← .ofExcept (fault.message.mapError .longNumber)
    .note (.complained ("配置错误: " ++ message ++ "\n"))
    return .status 2
  | .ok s =>
    match threshold? a s with
    | none => .fail .noLevel
    | some threshold => (conclude (check h a s)).filterNotes (SessionEvent.passes threshold)

/-- Runs the checker. -/
def run (h : Host) (argv : List String) : Journal SessionEvent Crash Outcome :=
  match Arguments.read argv with
  | .refused => pure .refused
  | .help => pure .help
  | .done a => perform h a

end Session

end UpgradeSafety
