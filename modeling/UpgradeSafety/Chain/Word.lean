import UpgradeSafety.Data.Value
import UpgradeSafety.Layout.Report

/-! Words of storage as nodes return them. A node may answer with bytes or with hexadecimal text,
with or without `0x` and with an odd number of digits; both become thirty-two bytes, filled up
with zeros in front (`length_ofBytes`). An answer without a byte is no word: read as zero, it
would hide storage that is not clear. -/
namespace UpgradeSafety

/-- What a node answers. -/
inductive Answer where
  | bytes (bs : Bytes)
  | value (v : Value)

/-- Why an answer is no word. -/
inductive WordFault where
  | wrongType (v : Value)
  | notHexadecimal
  | empty
  | tooLong (count : Nat)

/-- The reason that a fault gives. Where a value cannot be shown, that is the reason. -/
def WordFault.message : WordFault → Text
  | .wrongType v =>
    match v.describe with
    | .ok shown => "存储字类型非法: " ++ shown
    | .error _ => unstatedReason
  | .notHexadecimal => unstatedReason
  | .empty => "存储字为空"
  | .tooLong count => "存储字长度超过32字节: " ++ toString count

namespace Word

/-- Bytes as a word. -/
def ofBytes (bs : Bytes) : Except WordFault Bytes :=
  if bs.isEmpty then .error .empty
  else if wordSize < bs.length then .error (.tooLong bs.length)
  else .ok (List.replicate (wordSize - bs.length) 0 ++ bs)

/-- Hexadecimal characters in whole pairs, without the mark in front. -/
def pairs (cs : List Char) : List Char :=
  let ds := match cs with
    | '0' :: 'x' :: rest => rest
    | '0' :: 'X' :: rest => rest
    | cs => cs
  if ds.length % 2 = 1 then '0' :: ds else ds

/-- Hexadecimal text as a word. -/
def ofText (s : Text) : Except WordFault Bytes :=
  match s.chars?.bind fun cs => Hex.byteList? (pairs cs) with
  | none => .error .notHexadecimal
  | some bs => ofBytes bs

/-- An answer as a word. -/
def ofAnswer : Answer → Except WordFault Bytes
  | .bytes bs => ofBytes bs
  | .value (.text s) => ofText s
  | .value v => .error (.wrongType v)

/-- The number that bytes write, most significant first. -/
def toNat (bs : Bytes) : Nat :=
  bs.foldl (fun n b => n * 256 + b.toNat) 0

/-- The byte at an offset from the least significant end. An offset beyond the word counts on from
its other end. -/
def byteAt? (bs : Bytes) (offset : Int) : Option UInt8 :=
  let i := (wordSize : Int) - 1 - offset
  let i := if i < 0 then i + bs.length else i
  if 0 ≤ i then bs[i.toNat]? else none

theorem length_ofBytes {bs w : Bytes} (h : ofBytes bs = .ok w) : w.length = wordSize := by
  unfold ofBytes at h
  split at h
  · cases h
  · split at h
    · cases h
    · rw [← Except.ok.inj h, List.length_append, List.length_replicate]
      omega

/-- A whole word has a byte at every offset. -/
theorem exists_byteAt {w : Bytes} {offset : Int} (hw : w.length = wordSize)
    (h : 0 ≤ offset ∧ offset < wordSize) : ∃ b, byteAt? w offset = some b := by
  have hpos : 0 ≤ (wordSize : Int) - 1 - offset := by omega
  have hlt : ((wordSize : Int) - 1 - offset).toNat < w.length := by omega
  refine ⟨w[((wordSize : Int) - 1 - offset).toNat], ?_⟩
  unfold byteAt?
  simp only [if_neg (Int.not_lt.mpr hpos), if_pos hpos]
  exact List.getElem?_eq_getElem hlt

theorem length_ofAnswer {a : Answer} {w : Bytes} (h : ofAnswer a = .ok w) :
    w.length = wordSize := by
  unfold ofAnswer ofText at h
  split at h
  · exact length_ofBytes h
  · split at h
    · cases h
    · exact length_ofBytes h
  · cases h

end Word

end UpgradeSafety
