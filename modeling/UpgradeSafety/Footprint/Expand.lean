import UpgradeSafety.Footprint.ByteMap
import UpgradeSafety.Footprint.Slot
import UpgradeSafety.Text.Replace

/-! The footprint of a layout: which variable takes each byte of storage. A variable of a plain
type takes an interval of bytes. A struct takes what its members take, each at the struct's place
plus its own. The storage behind a mapping or a dynamic array is unbounded, so one example stands
for all of it: the value of key zero, or the element of index zero, at the slot derived by
hashing.

The recursion follows references between types. A type that does not lead back to itself can be
entered at most once on the way, so one level for each type and one for a reference that leads
nowhere are enough (`Layout.depth`). -/
namespace UpgradeSafety

/-- Why a layout has no footprint. -/
inductive ExpansionFault where
  /-- No type has this id. -/
  | unknownType (reference : Value)
  /-- A list or a record stands where the id of a type is needed. -/
  | notAName
  /-- A type says nothing about the type that it is made of. -/
  | referenceMissing (type field : Text)
  /-- A slot that no word can hold was to be hashed. -/
  | slotOutOfRange (slot : Int)
  /-- The label of a type is no text. -/
  | labelNotText (type : Text)
  /-- A type leads back to itself. -/
  | recursiveType (type : Text)
  /-- Two variables take the same bytes, and the number of the first one is too long for a note. -/
  | longNumber (fault : LongNumber)

namespace ExpansionFault

def ofReference : ReferenceFault → ExpansionFault
  | .unknown reference => .unknownType reference
  | .notAName => .notAName

/-- For a fault that lies in the report, its text and the part of the report it lies in. A
reference that cannot be shown has no such text. -/
def malformed? : ExpansionFault → Option (Text × Value)
  | .unknownType reference =>
    reference.display.toOption.map fun shown => ("未知的类型ID: " ++ shown, reference)
  | .referenceMissing type field =>
    some ("类型 " ++ type ++ " 缺少 " ++ field ++ " 字段", .text type)
  | _ => none

end ExpansionFault

/-- A variable with its place worked out: its absolute slot and byte, and the struct it is in. -/
structure Spot where
  label : Text
  type : Text
  slot : Int
  offset : Int
  parent : Option Parent
  startByte : Int

namespace Spot

/-- A variable that is in no struct. -/
def ofVariable (v : Variable) : Spot :=
  ⟨v.label, v.type, v.slot, v.offset, none, v.slot * wordSize + v.offset⟩

def fullLabel (v : Spot) : Text :=
  match v.parent with
  | none => v.label
  | some p => "(" ++ p.typeLabel ++ " " ++ p.label ++ ")." ++ v.label

def detail (v : Spot) (typeLabel : Text) : Detail :=
  ⟨v.label, v.type, v.slot, v.offset, v.fullLabel, typeLabel, v.startByte, v.parent⟩

/-- A member of a struct variable. -/
def member (v : Spot) (typeLabel : Text) (m : Variable) : Spot :=
  ⟨m.label, m.type, v.slot + m.slot, m.offset, some ⟨v.label, typeLabel⟩,
    v.startByte + m.slot * wordSize + m.offset⟩

/-- The example that stands for what a variable keeps elsewhere. -/
def element (v : Spot) (label type : Text) (slot : Int) : Spot :=
  ⟨label, type, slot, 0, v.parent, slot * wordSize⟩

/-- The id of the type that a type is made of. -/
def follow (type field : Text) (reference : Value) : Except ExpansionFault Text :=
  if reference.isVacant then .error (.referenceMissing type field)
  else match reference with
    | .text id => .ok id
    | .list _ | .record _ => .error .notAName
    | _ => .error (.unknownType reference)

/-- The example of a variable of a type, if the type keeps storage elsewhere. -/
def example? (hash : Hash) (v : Spot) (t : TypeInfo) : Except ExpansionFault (Option Spot) :=
  match t.encoding with
  | .dynamicArray =>
    match Slot.ofElement? hash v.slot 0 with
    | none => .error (.slotOutOfRange v.slot)
    | some slot =>
      (follow v.type "base" t.base).map fun type =>
        some (v.element (Text.replaceFirst v.label "[]" "[0]") type slot)
  | .mapping =>
    match Slot.ofKey? hash v.slot 0 with
    | none => .error (.slotOutOfRange v.slot)
    | some slot =>
      (follow v.type "value" t.value).map fun type =>
        some (v.element (v.label ++ "[0]") type slot)
  | _ => .ok none

/-- The label of a type, without the keyword in front of the name of a struct. -/
def typeLabel (id : Text) (t : TypeInfo) : Except ExpansionFault Text :=
  match t.label with
  | .text label => .ok (Text.replaceFirst label "struct " "")
  | _ => .error (.labelNotText id)

end Spot

/-- Lays what a variable takes over what has been taken before. -/
def lay (taken part : ByteMap) (context : Text) : Journal Overlap ExpansionFault ByteMap :=
  (taken.overlay part context).mapError .longNumber

/-- The bytes that a variable takes, down to so many levels of types. -/
def expand (hash : Hash) (l : Layout) : Nat → Spot → Journal Overlap ExpansionFault ByteMap
  | 0, v => .fail (.recursiveType v.type)
  | depth + 1, v =>
    match l.resolve? v.type with
    | none => .fail (.unknownType (.text v.type))
    | some t => do
      let sample ← (match v.example? hash t with
        | .error e => .fail e
        | .ok none => pure ∅
        | .ok (some element) => expand hash l depth element)
      let typeLabel ← .ofExcept (Spot.typeLabel v.type t)
      if t.hasMembers then
        t.members.foldlM (fun map m => do
          let part ← expand hash l depth (v.member typeLabel m)
          lay map part (v.fullLabel ++ "." ++ m.label)) ∅
      else lay sample (.interval (v.detail typeLabel) v.startByte t.byteCount) v.fullLabel

namespace Layout

/-- Levels that are enough for a layout whose types do not lead back to themselves. -/
def depth (l : Layout) : Nat :=
  l.types.length + 1

/-- The bytes that the variables of a layout take, later variables over earlier ones. -/
def footprint (hash : Hash) (l : Layout) : Journal Overlap ExpansionFault ByteMap :=
  l.storage.foldlM (fun map v => do
    let part ← expand hash l l.depth (.ofVariable v)
    lay map part v.label) ∅

end Layout

end UpgradeSafety
