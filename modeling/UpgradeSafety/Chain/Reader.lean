import UpgradeSafety.Data.Value
import UpgradeSafety.Journal

/-! Readers of storage on a chain. A reader reads one slot at a time or many at once; either way
it may fail, and a `ReadFault` tells which slots are missing and which words were read all the
same. What a reader does on the way, and what the log says about it, are `ChainEvent`s. That a
reader was asked for slots is noted by whoever asks, as a `CheckEvent`. -/
namespace UpgradeSafety

/-- A read that has failed. -/
structure ReadFault where
  message : Text
  slot : Option Int
  failedSlots : List Int
  /-- What was read nevertheless. -/
  words : List (Int × Bytes)
  deriving DecidableEq

/-- The fault of one slot. -/
def ReadFault.ofSlot (message : Text) (slot : Int) : ReadFault :=
  ⟨message, some slot, [slot], []⟩

inductive ChainEvent where
  /-- A line of the log; `worker` marks the lines that other threads write. -/
  | log (line : LogLine) (worker : Bool)
  /-- A node was called. -/
  | called (address : Text) (slot : Int) (block : Value)
  /-- A pause before the next call. -/
  | slept (delay : Value)
  /-- A request was posted. -/
  | posted (body : Value)

namespace ChainEvent

/-- The event as it appears when a worker caused it. -/
def inWorker : ChainEvent → ChainEvent
  | .log line _ => .log line true
  | e => e

def logged (severity : Severity) (text : Text) : ChainEvent :=
  .log ⟨severity, text⟩ false

end ChainEvent

/-- What happens while a layout is checked. -/
inductive CheckEvent where
  /-- The reader was asked for these slots. -/
  | asked (slots : List Int)
  | chain (e : ChainEvent)

namespace CheckEvent

def logged (severity : Severity) (text : Text) : CheckEvent :=
  .chain (.logged severity text)

/-- The slots that the reader was asked for, each as often as it was. -/
def requested (events : List CheckEvent) : List Int :=
  events.flatMap fun
    | .asked slots => slots
    | .chain _ => []

@[simp] theorem requested_append (xs ys : List CheckEvent) :
    requested (xs ++ ys) = requested xs ++ requested ys :=
  List.flatMap_append

@[simp] theorem requested_asked (slots : List Int) : requested [.asked slots] = slots :=
  List.append_nil slots

@[simp] theorem requested_logged (severity : Severity) (text : Text) :
    requested [logged severity text] = [] := rfl

/-- What a reader does by itself is no request to it. -/
theorem requested_eq_nil {events : List CheckEvent} (h : ∀ e ∈ events, ∃ c, e = .chain c) :
    requested events = [] := by
  refine List.flatMap_eq_nil_iff.mpr fun e he => ?_
  obtain ⟨c, rfl⟩ := h e he
  rfl

@[simp] theorem requested_map_chain {α : Type} (f : α → ChainEvent) (xs : List α) :
    requested (xs.map fun x => .chain (f x)) = [] := by
  refine requested_eq_nil fun e he => ?_
  obtain ⟨x, -, rfl⟩ := List.mem_map.mp he
  exact ⟨f x, rfl⟩

@[simp] theorem requested_chain (events : List ChainEvent) :
    requested (events.map .chain) = [] :=
  requested_map_chain id events

end CheckEvent

inductive Reader where
  | single (read : Text → Int → Journal ChainEvent ReadFault Bytes)
  | batch (readMany : Text → List Int → Journal ChainEvent ReadFault (List (Int × Bytes)))

/-- How many slots may be read at a time, and in which order the reads of a list of slots come to
their end. Every read that is started comes to its end once. -/
structure Workers where
  count : Int
  completion : List Int → List Int
  completion_perm : ∀ slots, (completion slots).Perm slots

/-- Reads end in the order in which they were started. -/
def Workers.inOrder (count : Int) : Workers := ⟨count, id, fun _ => .refl _⟩

end UpgradeSafety
