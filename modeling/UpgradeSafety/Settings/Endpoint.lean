import UpgradeSafety.Settings.Load
import UpgradeSafety.Text.Replace

/-! Addresses of nodes. What holds `://` is an address; anything else is an alias for one, to be
looked up among the endpoints that the project's own document names. Either way the variables of
the environment are put in last. -/
namespace UpgradeSafety

/-- The name of the table of endpoints. -/
def endpointTable : String := "rpc_endpoints"

/-- The name of the project's document. -/
def projectFile : String := "foundry.toml"

inductive EndpointFault where
  | document (fault : SettingsFault)
  | unknown (name : Text)
  /-- What stands in place of the table, or of an address in it, is of no use. -/
  | unusable

namespace Endpoint

/-- How many endpoints there are; a value without parts has none to count. -/
def count? : Value → Option Nat
  | .text s => some s.length
  | .list items => some items.length
  | .record fields => some fields.length
  | _ => none

/-- The endpoints that a document names. -/
def load (lib : Libraries) (files : Files) (path : Path) : Journal LogLine EndpointFault Value :=
  if files.contains path then do
    let document ← .ofExcept ((readDocument lib files path).mapError .document)
    let endpoints := (document.field? endpointTable).getD (.record [])
    match count? endpoints with
    | none => .fail .unusable
    | some n => do
      .note ⟨.debug, "加载了 " ++ toString n ++ " 个RPC端点: " ++ path.text⟩
      return endpoints
  else pure (.record [])

/-- The address that an alias stands for. Only a table has addresses. -/
def lookUp (name : Text) : Value → Except EndpointFault Text
  | .record fields =>
    match fields.lookup name with
    | none => .error (.unknown name)
    | some (.text url) => .ok url
    | some _ => .error .unusable
  | .list items => if items.any (Value.same (.text name)) then .error .unusable
    else .error (.unknown name)
  | .text s => if Text.contains s name then .error .unusable else .error (.unknown name)
  | _ => .error .unusable

/-- The address of the node that is asked for; nothing asks for none. -/
def resolve (lib : Libraries) (files : Files) (e : Environment) (path : Path)
    (url : Option Text) : Journal LogLine EndpointFault (Option Text) :=
  match url.filter (!·.isEmpty) with
  | none => pure none
  | some url => do
    let url ← if Text.contains url "://" then pure url
      else do
        let endpoints ← load lib files path
        .ofExcept (lookUp url endpoints)
    return some (e.expand url)

end Endpoint

def EndpointFault.message : EndpointFault → Except LongNumber Text
  | .document fault => fault.message
  | .unknown name => .ok ("未知的RPC端点别名: " ++ name)
  | .unusable => .ok unstatedReason

end UpgradeSafety
