import UpgradeSafety.Diff.Basic
import UpgradeSafety.Layout.TypeId

/-! Comparison of two layouts, byte by byte. For a byte that both make use of, `classify` weighs
the two variables: one that only moves into reserved room, or into bytes that a struct has left
unused, counts as added; one that keeps its type under another label is renamed; the numbers in
type ids do not count; and a type may change into one whose bytes are compared elsewhere, or from
one kind of address to another. A byte that only the new layout uses is added. Bytes that it does
not use any more are differences only on request. -/
namespace UpgradeSafety

/-- What the comparison of one byte comes to. -/
inductive Verdict where
  | unchanged
  | added
  | differs (kind : DiffKind)
  deriving DecidableEq, Repr

namespace Comparison

/-- The same variable in the same place. -/
def sameVariable (s c : Detail) : Bool :=
  c.type == s.type && c.fullLabel == s.fullLabel && c.slot == s.slot && c.offset == s.offset &&
    c.startByte == s.startByte

/-- Whether the bytes of an example element are compared where it is laid out. -/
def elementsCompared (st ct : TypeInfo) : Bool :=
  let encoded := match ct.encoding with
    | .inplace => false
    | _ => ct.encoding.same st.encoding
  encoded || ct.hasMembers

/-- Follows the references to the two element types. -/
def elements (src cmp : Layout) (s c : Value) : Except ReferenceFault Bool := do
  let (_, st) ← src.resolve s
  let (_, ct) ← cmp.resolve c
  return elementsCompared st ct

/-- Whether a variable may change its type so. -/
def compatible (src cmp : Layout) (s c : Detail) : Except ReferenceFault Bool := do
  let (_, ct) ← cmp.resolve (.text c.type)
  if ct.hasMembers then return true
  let (_, st) ← src.resolve (.text s.type)
  if !ct.encoding.same st.encoding then return false
  let addresses := TypeId.isAddressLike s.type && TypeId.isAddressLike c.type
  match ct.encoding with
  | .mapping => if ct.key.same st.key then elements src cmp st.value ct.value else return addresses
  | .dynamicArray => elements src cmp st.base ct.base
  | _ => return addresses

/-- Weighs the variables that take one byte before and after. -/
def classify (src cmp : Layout) (s c : Detail) : Except ReferenceFault Verdict :=
  if sameVariable s c then .ok .unchanged
  else if s.label == gapLabel || c.label == gapLabel then .ok .added
  else if c.fullLabel != s.fullLabel then
    if Text.startsWith c.fullLabel ("(" ++ s.typeLabel ++ " " ++ s.label ++ ")") then .ok .added
    else if c.type == s.type then
      .ok (if c.label != s.label then .differs .label else .unchanged)
    else .ok (.differs .variable)
  else if TypeId.strip c.type == TypeId.strip s.type then .ok .unchanged
  else do
    if ← compatible src cmp s c then return .unchanged else return .differs .variableType

/-- Weighs a byte of the new footprint. -/
def judge (src cmp : Layout) (before : ByteMap) (byte : Int) (c : Detail) :
    Except ReferenceFault Verdict :=
  match before[byte]? with
  | none => .ok .added
  | some s => classify src cmp s c

/-- The difference that a verdict on a byte stands for, if it stands for one. -/
def diffOf? (before : ByteMap) : (Int × Detail) × Verdict → Option Diff
  | ((byte, c), .differs kind) => some ⟨kind, .ofByte byte, none, before[byte]?, some c, none⟩
  | _ => none

def addedOf? : (Int × Detail) × Verdict → Option Added
  | ((byte, c), .added) => some ⟨.ofByte byte, c⟩
  | _ => none

/-- The bytes of the old footprint that the new one leaves. -/
def removals (before after : ByteMap) : List Diff :=
  before.entries.filterMap fun (byte, s) =>
    if byte ∈ after then none
    else some ⟨.variableRemoved, .ofByte byte, none, some s, none, none⟩

end Comparison

/-- The differences between two layouts, each variable once and in the order of storage, and the
bytes that the new one adds. -/
structure Comparison where
  diffs : List Diff
  added : List Added

/-- Compares the footprints of two layouts. -/
def Comparison.of (src cmp : Layout) (before after : ByteMap) (checkRemovals : Bool) :
    Except ReferenceFault Comparison := do
  let verdicts ← after.entries.mapM fun entry => do
    return (entry, ← judge src cmp before entry.1 entry.2)
  let found := verdicts.filterMap (diffOf? before)
  let gone := if checkRemovals then removals before after else []
  return ⟨Diff.unique false (Diff.sort (found ++ gone)), verdicts.filterMap addedOf?⟩

end UpgradeSafety
