import UpgradeSafety.Chain.Reader
import UpgradeSafety.Chain.Word
import UpgradeSafety.Json.Reader

/-! A reader that asks a node for many slots in one request. The requests are numbered in the order
of the slots, and a reply is found by its number, wherever it stands in the answer; when a number
occurs twice, its last reply counts. A slot without a reply, or whose reply is no word, fails, and
the others are read all the same. -/
namespace UpgradeSafety

/-- What comes of posting the requests. -/
inductive PostOutcome where
  | failed (text : Text)
  | replied (body : Text)

/-- Why a batch was not read in full. -/
inductive BatchFault where
  | unread (fault : ReadFault)
  /-- The reply is neither an object nor a sequence. -/
  | notSequence
  /-- The number of a reply is a list or a record. -/
  | numberNotKey
  /-- A reply holds a number that the log cannot show. -/
  | longNumber (fault : LongNumber)
  deriving DecidableEq

structure BatchNode where
  url : Text
  block : Value
  timeout : Int

namespace BatchNode

/-- The node with a block as it is written in requests: a number in hexadecimal. -/
def ofBlock (url : Text) (block : Value) (timeout : Int) : BatchNode :=
  match block with
  | .int n => ⟨url, .text (Hex.ofInt n), timeout⟩
  | .bool b => ⟨url, .text (Hex.ofInt (if b then 1 else 0)), timeout⟩
  | block => ⟨url, block, timeout⟩

/-- The request for a slot, under a number. -/
def request (n : BatchNode) (address : Text) (slot : Int) (number : Nat) : Value :=
  .record [
    ("jsonrpc", .text "2.0"),
    ("method", .text "eth_getStorageAt"),
    ("params", .list [.text address, .text (Hex.ofInt slot), n.block]),
    ("id", .int number)]

/-- The requests for slots, numbered from zero. -/
def requests (n : BatchNode) (address : Text) (slots : List Int) : Value :=
  .list (slots.zipIdx.map fun (slot, number) => n.request address slot number)

/-- The objects that an answer holds: itself, or those among its items. -/
def objects? : Value → Option (List Value)
  | .record fields => some [.record fields]
  | .list items => some (items.filter fun
      | .record _ => true
      | _ => false)
  | .text _ => some []
  | _ => none

/-- The replies that an answer holds, all of them with numbers that can be looked up. -/
def replies (v : Value) : Except BatchFault (List Value) :=
  match objects? v with
  | none => .error .notSequence
  | some items =>
    if items.all fun item => (item.field "id").isKey then .ok items else .error .numberNotKey

/-- The last reply with a number. -/
def replyTo (items : List Value) (number : Nat) : Value :=
  (items.reverse.find? fun item => (item.field "id").same (.int number)).getD (.record [])

/-- The word in a reply. -/
def word? (reply : Value) : Except (Option WordFault) Bytes :=
  match reply.field "result" with
  | .text s => (Word.ofText s).mapError some
  | _ => .error none

/-- What the log says about a reply without a word; `fault` is what is wrong with a text. -/
def complaint (place : Text) (reply : Value) : Option WordFault → Except LongNumber Text
  | some fault => .ok ("存储槽返回值非法: " ++ place ++ ": " ++ fault.message)
  | none => do
    let result ← (reply.field "result").describe
    let error ← (reply.field "error").display
    return "获取存储槽失败: " ++ place ++ ", 结果: " ++ result ++ ", 错误: " ++ error

/-- Looks up the word of each slot. -/
def collect (address : Text) (slots : List Int) (items : List Value) :
    Journal ChainEvent BatchFault (List (Int × Option Bytes)) :=
  slots.zipIdx.mapM fun (slot, number) =>
    let reply := replyTo items number
    match word? reply with
    | .ok word => return (slot, some word)
    | .error fault => do
      let place := address ++ "[" ++ Hex.ofInt slot ++ "]"
      .note (.logged .warning (← .ofExcept ((complaint place reply fault).mapError .longNumber)))
      return (slot, none)

/-- Makes words of the reply to a request. -/
def conclude (address : Text) (slots : List Int) (items : List Value) :
    Journal ChainEvent BatchFault (List (Int × Bytes)) := do
  let answers ← collect address slots items
  let words := answers.filterMap fun (slot, word) => word.map fun word => (slot, word)
  match answers.filterMap fun (slot, word) => if word.isNone then some slot else none with
  | [] => do
    .note (.logged .debug ("批量读取 " ++ toString words.length ++ " 个存储槽: " ++ address))
    return words
  | first :: rest =>
    let failed := first :: rest
    .fail (.unread ⟨toString failed.length ++ " 个存储槽读取失败", some first, failed, words⟩)

/-- The answer in the body of a reply. -/
def bodyOf : PostOutcome → Except Text Value
  | .failed text => .error text
  | .replied body =>
    match Json.read? body with
    | some v => .ok v
    | none => .error unstatedReason

/-- Reads the distinct ones of some slots in one request. Nothing is posted for no slots. -/
def readMany (n : BatchNode) (outcome : PostOutcome) (address : Text) (slots : List Int) :
    Journal ChainEvent BatchFault (List (Int × Bytes)) :=
  match slots.eraseDups with
  | [] => pure []
  | first :: rest => do
    let slots := first :: rest
    .note (.posted (.record [
      ("url", .text n.url), ("json", n.requests address slots), ("timeout", .int n.timeout)]))
    match bodyOf outcome with
    | .error text => do
      let message := "RPC批量请求失败: " ++ text
      .note (.logged .error message)
      .fail (.unread ⟨message, some first, slots, []⟩)
    | .ok v => do
      let items ← .ofExcept (replies v)
      conclude address slots items

/-- Reads one slot. -/
def read (n : BatchNode) (outcome : PostOutcome) (address : Text) (slot : Int) :
    Journal ChainEvent BatchFault (Option Bytes) := do
  return (← readMany n outcome address [slot]).lookup slot

end BatchNode

end UpgradeSafety
