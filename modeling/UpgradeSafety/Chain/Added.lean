import UpgradeSafety.Chain.Reader
import UpgradeSafety.Chain.Word
import UpgradeSafety.Diff.Basic

/-! The check of added bytes against a chain. Storage that a new variable takes must be clear, or
the variable starts out with what something else has left there. Every slot with an added byte is
read once, by whichever way the reader offers, and a slot that cannot be read does not keep the
others from being judged. -/
namespace UpgradeSafety

/-- Why added bytes could not be checked in full. -/
inductive AddedFault where
  /-- Some slots were not read; the differences are those of the others. -/
  | unread (fault : ReadFault) (diffs : List Diff)
  /-- A word is too short to have a byte at the offset. -/
  | shortWord

namespace Added

/-- Words by their slots, and the slots that have none. -/
structure Reading where
  words : List (Int × Bytes)
  failed : List Int

/-- The distinct slots, in the order of their first appearance. -/
def slots (added : List Added) : List Int :=
  Diff.firstPer id [] (added.map (·.location.slot))

/-- Reads one slot; a failure is noted and becomes part of the answer. -/
def readOne (read : Text → Int → Journal ChainEvent ReadFault Bytes) (address : Text)
    (slot : Int) : Journal CheckEvent AddedFault (Int × Except ReadFault Bytes) := do
  .note (.asked [slot])
  match ← ((read address slot).mapNotes .chain).attempt with
  | .ok word => return (slot, .ok word)
  | .error fault => do
    .note (.logged .error ("读取存储槽 " ++ Hex.ofInt slot ++ " 失败: " ++ fault.message))
    return (slot, .error fault)

def Reading.ofAnswers (answers : List (Int × Except ReadFault Bytes)) : Reading where
  words := answers.filterMap fun (slot, r) => r.toOption.map fun word => (slot, word)
  failed := answers.filterMap fun (slot, r) => if r.toOption.isNone then some slot else none

/-- Reads slots one after another. -/
def readInTurn (read : Text → Int → Journal ChainEvent ReadFault Bytes) (address : Text)
    (slots : List Int) : Journal CheckEvent AddedFault Reading := do
  return .ofAnswers (← slots.mapM (readOne read address))

/-- Reads slots side by side; the failed ones are put in order afterwards. -/
def readAbreast (read : Text → Int → Journal ChainEvent ReadFault Bytes)
    (completion : List Int → List Int) (address : Text) (slots : List Int) :
    Journal CheckEvent AddedFault Reading := do
  let inWorker address slot := (read address slot).mapNotes ChainEvent.inWorker
  let reading := Reading.ofAnswers (← (completion slots).mapM (readOne inWorker address))
  return { reading with failed := reading.failed.mergeSort }

/-- What the answer for many slots comes to: after a failure the slots without a word have failed. -/
def Reading.ofBatch (slots : List Int) : Except ReadFault (List (Int × Bytes)) → Reading
  | .ok words => ⟨words, []⟩
  | .error fault =>
    ⟨fault.words, (slots.filter fun slot => (fault.words.lookup slot).isNone).mergeSort⟩

/-- Reads slots all at once. -/
def readAtOnce (readMany : Text → List Int → Journal ChainEvent ReadFault (List (Int × Bytes)))
    (address : Text) (slots : List Int) : Journal CheckEvent AddedFault Reading := do
  .note (.asked slots)
  return .ofBatch slots (← ((readMany address slots).mapNotes .chain).attempt)

/-- Reads slots in the way that the reader and the number of workers allow. -/
def readAll (reader : Reader) (workers : Workers) (address : Text) (slots : List Int) :
    Journal CheckEvent AddedFault Reading :=
  match reader with
  | .batch readMany => readAtOnce readMany address slots
  | .single read =>
    if 1 < workers.count && 1 < slots.length then
      readAbreast read workers.completion address slots
    else readInTurn read address slots

/-- The difference that an added byte makes, if its word is known and the byte is not zero. -/
def inspect (words : List (Int × Bytes)) (a : Added) : Except AddedFault (Option Diff) :=
  match words.lookup a.location.slot with
  | none => .ok none
  | some word =>
    match Word.byteAt? word a.location.offset with
    | none => .error .shortWord
    | some b =>
      if b = 0 then .ok none
      else .ok (some ⟨.nonZeroAddedSlot, a.location, none, none, some a.candidate,
        some (String.ofList (Hex.ofByte b))⟩)

/-- The slots as a list in a message. -/
def slotList (slots : List Int) : Text :=
  .intercalate ", " (slots.map fun slot => Hex.ofInt slot)

/-- Judges added bytes, in the order of storage, by what was read of the chain. -/
def judge (sorted : List Added) (reading : Reading) : Except AddedFault (List Diff) := do
  let found ← sorted.mapM (inspect reading.words)
  let diffs := Diff.unique true (found.filterMap id)
  match reading.failed with
  | [] => return diffs
  | first :: rest =>
    let failed := first :: rest
    let message := toString failed.length ++ " 个存储槽读取失败: " ++ slotList failed
    .error (.unread ⟨message, some first, failed, []⟩ diffs)

/-- Checks that the added bytes are zero on the chain. Without an address or a reader nothing is
checked. -/
def check (added : List Added) (address : Option Text) (reader : Option Reader)
    (workers : Workers) : Journal CheckEvent AddedFault (List Diff) :=
  let sorted := Location.sort Added.location added
  match address, reader with
  | some address, some reader =>
    if address.isEmpty || sorted.isEmpty then pure []
    else do
      let slots := slots sorted
      .note (.logged .info ("校验 " ++ toString sorted.length ++ " 个新增字节, 涉及 " ++
        toString slots.length ++ " 个存储槽: " ++ address))
      let reading ← readAll reader workers address slots
      .ofExcept (judge sorted reading)
  | _, _ => pure []

/-- Without an address or a reader nothing is asked and nothing is found. -/
theorem check_unasked (added : List Added) {address : Option Text} {reader : Option Reader}
    (h : address = none ∨ address = some [] ∨ reader = none) (workers : Workers) :
    check added address reader workers = pure [] := by
  unfold check
  rcases h with rfl | rfl | rfl
  · rfl
  · cases reader <;> rfl
  · cases address <;> rfl

end Added

end UpgradeSafety
