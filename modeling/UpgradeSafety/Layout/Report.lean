import UpgradeSafety.Journal
import UpgradeSafety.Json.Reader
import UpgradeSafety.Layout.Basic
import UpgradeSafety.Number.Numeral

/-! Layout reports, as compilers write them in JSON: a list of variables under `storage` and a
table of types under `types`. `Layout.ofValue` reads one, variables before types and both in the
order of the report, and stops at the first thing that is out of form. Numbers may be whole
numbers of JSON or numerals in a text; flags and doubles are none (`number?`). -/
namespace UpgradeSafety

/-- What is wrong with a report. -/
inductive ReportFault where
  | notJson
  | notRecord
  | storageMissing
  | typesNotRecord
  /-- An entry of `owner`, the storage or a type, is no record. -/
  | variableNotRecord (owner : Text)
  | variableUnnamed (owner : Text)
  | slotMissing (owner label : Text)
  | notNumeric (owner field : Text) (v : Value)
  | typeNotRecord (id : Text)
  | membersNotList (id : Text)
  deriving DecidableEq

namespace ReportFault

/-- The message of a fault; a value with a number that is too long cannot be shown in one. -/
def message : ReportFault → Except LongNumber Text
  | .notJson => .ok ("存储布局不是合法JSON: " ++ unstatedReason)
  | .notRecord => .ok "存储布局报告必须是JSON对象"
  | .storageMissing => .ok "存储布局报告缺少 storage 数组"
  | .typesNotRecord => .ok "存储布局报告的 types 必须是对象"
  | .variableNotRecord owner => .ok (owner ++ ": 变量定义必须是对象")
  | .variableUnnamed owner => .ok (owner ++ ": 变量缺少 label 或 type")
  | .slotMissing owner label => .ok (owner ++ ": 变量 " ++ label ++ " 缺少 slot")
  | .notNumeric owner field v =>
    v.describe.map fun shown => owner ++ ": 字段 " ++ field ++ " 不是数字: " ++ shown
  | .typeNotRecord id => .ok ("类型 " ++ id ++ " 的定义必须是对象")
  | .membersNotList id => .ok ("类型 " ++ id ++ " 的 members 必须是数组")

/-- The part of the report that the fault lies in. -/
def identifier : ReportFault → Value
  | .notJson | .notRecord => .null
  | .storageMissing => .text "storage"
  | .typesNotRecord => .text "types"
  | .variableNotRecord owner | .variableUnnamed owner => .text owner
  | .slotMissing _ label => .text label
  | .notNumeric owner _ _ => .text owner
  | .typeNotRecord id | .membersNotList id => .text id

end ReportFault

namespace Report

/-- The whole number that a value denotes. -/
def number? : Value → Option Int
  | .int n => some n
  | .text s => Numeral.read? s
  | _ => none

def number (owner field : Text) (v : Value) : Except ReportFault Int :=
  match number? v with
  | some n => .ok n
  | none => .error (.notNumeric owner field v)

/-- A whole number or a flag is kept as the number of a declaration; anything else is none. -/
def astIdOf : Value → Value
  | .int n => .int n
  | .bool b => .bool b
  | _ => .null

/-- Reads a variable of `owner`. -/
def readVariable (owner : Text) (v : Value) : Except ReportFault Variable :=
  match v with
  | .record _ =>
    match v.field "label", v.field "type" with
    | .text label, .text type =>
      match v.field? "slot" with
      | none => .error (.slotMissing owner label)
      | some slot => do
        let slot ← number label "slot" slot
        let offset ← number label "offset" ((v.field? "offset").getD (.int 0))
        return ⟨label, type, slot, offset, astIdOf (v.field "astId"), v.field "contract"⟩
    | _, _ => .error (.variableUnnamed owner)
  | _ => .error (.variableNotRecord owner)

/-- The items of a field that may be left out or be vacant. -/
def optionalList? (v : Value) : Option (List Value) :=
  if v.isVacant then some []
  else match v with
    | .list items => some items
    | _ => none

/-- Reads the type with an id. -/
def readType (id : Text) (v : Value) : Except ReportFault TypeInfo :=
  match v with
  | .record _ =>
    match optionalList? (v.field "members") with
    | none => .error (.membersNotList id)
    | some members => do
      let size ← match v.field "numberOfBytes" with
        | .null => pure none
        | size => some <$> number id "numberOfBytes" size
      let members ← members.mapM (readVariable id)
      return {
        encoding := .ofValue ((v.field? "encoding").getD (.text "inplace"))
        label := (v.field? "label").getD (.text id)
        size, members
        base := v.field "base"
        key := v.field "key"
        value := v.field "value" }
  | _ => .error (.typeNotRecord id)

/-- The table of types; none at all may be written in any vacant form. -/
def table? (v : Value) : Option (List (Text × Value)) :=
  if v.isVacant then some []
  else match v with
    | .record fields => some fields
    | _ => none

end Report

/-- Reads a report that has been decoded. -/
def Layout.ofValue (v : Value) : Except ReportFault Layout :=
  match v with
  | .record _ =>
    match v.field "storage" with
    | .list items =>
      match Report.table? (v.field "types") with
      | none => .error .typesNotRecord
      | some entries => do
        let storage ← items.mapM (Report.readVariable "storage")
        let types ← entries.mapM fun (id, entry) =>
          return (id, ← Report.readType id entry)
        return ⟨storage, types⟩
    | _ => .error .storageMissing
  | _ => .error .notRecord

/-- Reads a report from JSON text. -/
def Layout.ofText (s : Text) : Except ReportFault Layout :=
  match Json.read? s with
  | none => .error .notJson
  | some v => Layout.ofValue v

/-- Reads a report from the bytes of JSON text. -/
def Layout.ofBytes (bs : Bytes) : Except ReportFault Layout :=
  match Json.readBytes? bs with
  | none => .error .notJson
  | some v => Layout.ofValue v

/-- Reads a report that is given as a value: a text is JSON text, and anything else has been
decoded. -/
def Layout.ofGiven (v : Value) : Except ReportFault Layout :=
  match v with
  | .text s => Layout.ofText s
  | v => Layout.ofValue v

end UpgradeSafety
