import UpgradeSafety.Chain.Reader
import UpgradeSafety.Chain.Word
import UpgradeSafety.Host.Libraries

/-! A reader that calls a node for one slot at a time. A call that fails is tried again after a
pause, up to a number of attempts that is at least one; the first answer ends the attempts,
whether it is a word or not, and so does a pause that cannot be made. What the node does is given
as a sequence of responses, one for each call, so that a run of reads takes them in turn
(`Node.readAll`). -/
namespace UpgradeSafety

/-- What comes of one call. -/
inductive Response where
  | raised (text : Text)
  | answered (a : Answer)

structure NodePolicy where
  block : Value
  attempts : Nat
  attempts_pos : 0 < attempts
  delay : Value

namespace NodePolicy

/-- A policy for a number of attempts that may be out of range; there is one at least. -/
def ofAttempts (block : Value) (attempts : Int) (delay : Value) : NodePolicy :=
  ⟨block, max 1 attempts.toNat, by omega, delay⟩

end NodePolicy

namespace Node

/-- What is done between a call that has failed and the next one, the `i`th: it is noted, and there
is a pause. The log shows the number of attempts in decimal, and where it cannot, there is no next
call, just as after a pause that cannot be made. -/
def retry (lib : Libraries) (p : NodePolicy) (i : Nat) (text : Text) :
    Journal ChainEvent Text Unit := do
  let attempts ← .ofExcept ((Numeral.write p.attempts).mapError fun _ => unstatedReason)
  .note (.logged .warning ("RPC调用失败，重试 " ++ toString i ++ "/" ++ attempts ++ ": " ++ text))
  .note (.slept p.delay)
  .ofExcept (lib.pause p.delay)

/-- Calls until there is an answer or no attempt is left. `left` counts the attempts after this
one, and `i` the calls before it. -/
def call (lib : Libraries) (p : NodePolicy) (responses : Nat → Response) (checksum : Text)
    (slot : Int) : Nat → Nat → Journal ChainEvent Text Answer
  | 0, i => do
    .note (.called checksum slot p.block)
    match responses i with
    | .answered a => return a
    | .raised text => .fail text
  | left + 1, i => do
    .note (.called checksum slot p.block)
    match responses i with
    | .answered a => return a
    | .raised text => do
      retry lib p (i + 1) text
      call lib p responses checksum slot left (i + 1)

/-- Calls for a slot and makes a word of the answer; the error is the reason. -/
def fetch (lib : Libraries) (p : NodePolicy) (responses : Nat → Response) (checksum : Text)
    (slot : Int) : Journal ChainEvent Text Bytes := do
  let a ← call lib p responses checksum slot (p.attempts - 1) 0
  .ofExcept ((Word.ofAnswer a).mapError WordFault.message)

/-- Reads one slot. -/
def read (lib : Libraries) (p : NodePolicy) (responses : Nat → Response) (address : Text)
    (slot : Int) : Journal ChainEvent ReadFault Bytes :=
  match lib.checksum? address with
  | none => do
    let written := Text.quoted address
    .note (.logged .error ("合约地址非法: " ++ written ++ ": " ++ unstatedReason))
    .fail (.ofSlot ("合约地址非法 " ++ written ++ ": " ++ unstatedReason) slot)
  | some checksum => do
    let place := address ++ "[" ++ Hex.ofInt slot ++ "]"
    match ← (fetch lib p responses checksum slot).attempt with
    | .ok word => do
      .note (.logged .debug ("读取存储槽: " ++ place))
      return word
    | .error reason => do
      .note (.logged .error ("读取存储槽失败: " ++ place ++ ": " ++ reason))
      .fail (.ofSlot ("读取存储槽 " ++ Hex.ofInt slot ++ " 失败: " ++ reason) slot)

/-- How many calls were made. -/
def callCount (events : List ChainEvent) : Nat :=
  events.countP fun
    | .called .. => true
    | _ => false

/-- Reads one slot after another; each read takes up the responses where the one before left off. -/
def readAll (lib : Libraries) (p : NodePolicy) : (Nat → Response) → List (Text × Int) →
    List (Journal ChainEvent ReadFault Bytes)
  | _, [] => []
  | responses, (address, slot) :: rest =>
    let j := read lib p responses address slot
    let used := callCount j.notes
    j :: readAll lib p (fun i => responses (used + i)) rest

/-- A node at an address, with the policy for calling it. -/
structure Connection where
  url : Text
  policy : NodePolicy

/-- A connection was asked for without an address. -/
inductive ConnectionFault where
  | noAddress

def ConnectionFault.message : ConnectionFault → Text
  | .noAddress => "必须提供 rpc_url 或 w3"

/-- Connects to a node; nothing is called yet. -/
def connect (url : Option Text) (p : NodePolicy) : Except ConnectionFault Connection :=
  match url.filter (!·.isEmpty) with
  | none => .error .noAddress
  | some url => .ok ⟨url, p⟩

/-- The reader for a chain on which every slot has a response of its own. -/
def reader (lib : Libraries) (p : NodePolicy) (responses : Int → Nat → Response) : Reader :=
  .single fun address slot => read lib p (responses slot) address slot

end Node

end UpgradeSafety
