import Mathlib.Data.List.Forall2
import UpgradeSafety.Layout.Report
import UpgradeSafety.Proofs.Results

/-! Which reports are read, and as what. A value is read as a layout exactly if it describes the
layout (`Report.Describes`), item by item and in order, and it describes one exactly if it is a
report (`Report.IsReport`): a record with a list of variables and, unless they are left out, a table
of types, all of them in form. A text is not read as a value but as what it says in JSON
(`Layout.ofGiven_accepts`). -/
namespace UpgradeSafety.Report

/-! ### What is described -/

/-- A whole number, or a text that denotes one. -/
inductive Denotes : Value → Int → Prop where
  | int (n : Int) : Denotes (.int n) n
  | text {s : Text} {n : Int} (h : Numeral.read? s = some n) : Denotes (.text s) n

/-- A list, or anything vacant in place of an empty one. -/
inductive Lists : Value → List Value → Prop where
  | list (items : List Value) : Lists (.list items) items
  | vacant {v : Value} (h : v.isVacant = true) : Lists v []

/-- A record, or anything vacant in place of an empty one. -/
inductive Tabulates : Value → List (Text × Value) → Prop where
  | record (fields : List (Text × Value)) : Tabulates (.record fields) fields
  | vacant {v : Value} (h : v.isVacant = true) : Tabulates v []

/-- A value describes a variable. -/
structure DescribesVariable (raw : Value) (v : Variable) : Prop where
  label : raw.field? "label" = some (.text v.label)
  type : raw.field? "type" = some (.text v.type)
  slot : ∃ slot, raw.field? "slot" = some slot ∧ Denotes slot v.slot
  offset : raw.field? "offset" = none ∧ v.offset = 0 ∨
    ∃ offset, raw.field? "offset" = some offset ∧ Denotes offset v.offset
  astId : v.astId = astIdOf (raw.field "astId")
  contract : v.contract = raw.field "contract"

/-- A value describes the type with an id, its members in order. -/
structure DescribesType (id : Text) (raw : Value) (t : TypeInfo) : Prop where
  record : ∃ fields, raw = .record fields
  encoding : t.encoding = .ofValue ((raw.field? "encoding").getD (.text "inplace"))
  label : t.label = (raw.field? "label").getD (.text id)
  size : raw.field "numberOfBytes" = .null ∧ t.size = none ∨
    ∃ n, Denotes (raw.field "numberOfBytes") n ∧ t.size = some n
  members : ∃ items, Lists (raw.field "members") items ∧
    List.Forall₂ DescribesVariable items t.members
  base : t.base = raw.field "base"
  key : t.key = raw.field "key"
  value : t.value = raw.field "value"

/-- A value describes a layout, its variables in order and its types under their ids. -/
structure Describes (raw : Value) (l : Layout) : Prop where
  storage : ∃ items, raw.field? "storage" = some (.list items) ∧
    List.Forall₂ DescribesVariable items l.storage
  types : ∃ entries, Tabulates (raw.field "types") entries ∧
    l.types.map Prod.fst = entries.map Prod.fst ∧
    List.Forall₂ (fun entry type => DescribesType entry.1 entry.2 type.2) entries l.types

section Numbers
variable {v : Value} {n : Int}

theorem number?_eq_some_iff : number? v = some n ↔ Denotes v n := by
  unfold number?
  constructor
  · intro h
    split at h
    · rw [← Option.some.inj h]
      exact .int _
    · exact .text h
    · cases h
  · intro h
    cases h with
    | int => rfl
    | text h => exact h

theorem number_eq_ok_iff {owner field : Text} : number owner field v = .ok n ↔ Denotes v n := by
  rw [← number?_eq_some_iff]
  unfold number
  cases number? v <;> simp

end Numbers

/-! ### What is read -/

section Readers
variable {owner id : Text} {raw : Value}

/-- A field has a value other than null exactly if it is there with that value. -/
theorem field_eq_iff {key : Text} {w : Value} (hw : w ≠ .null) :
    raw.field key = w ↔ raw.field? key = some w := by
  unfold Value.field
  cases raw.field? key with
  | none => exact ⟨fun h => absurd h.symm hw, nofun⟩
  | some w' => exact Option.some_inj.symm

theorem exists_record_of_field? {key : Text} {w : Value} (h : raw.field? key = some w) :
    ∃ fields, raw = .record fields := by
  unfold Value.field? at h
  split at h
  · exact ⟨_, rfl⟩
  · cases h

theorem readVariable_eq_ok_iff {v : Variable} :
    readVariable owner raw = .ok v ↔ DescribesVariable raw v := by
  constructor
  · intro h
    unfold readVariable at h
    split at h
    · split at h
      · next label type hlabel htype =>
        split at h
        · cases h
        · next slot hslot =>
          obtain ⟨n, hn, h⟩ := bind_eq_ok_iff.mp h
          obtain ⟨offset, hoffset, h⟩ := bind_eq_ok_iff.mp h
          obtain rfl := Except.ok.inj h
          refine ⟨(field_eq_iff (by simp)).mp hlabel, (field_eq_iff (by simp)).mp htype,
            ⟨slot, hslot, number_eq_ok_iff.mp hn⟩, ?_, rfl, rfl⟩
          rw [number_eq_ok_iff] at hoffset
          cases hgiven : Value.field? _ "offset" with
          | none =>
            rw [hgiven] at hoffset
            cases hoffset
            exact .inl ⟨rfl, rfl⟩
          | some given =>
            rw [hgiven] at hoffset
            exact .inr ⟨given, rfl, hoffset⟩
      · cases h
    · cases h
  · intro h
    obtain ⟨fields, rfl⟩ := exists_record_of_field? h.label
    obtain ⟨slot, hslot, hn⟩ := h.slot
    have hoffset : Denotes (((Value.record fields).field? "offset").getD (.int 0)) v.offset := by
      rcases h.offset with ⟨hnone, hzero⟩ | ⟨offset, hsome, hn⟩
      · rw [hnone, hzero]
        exact .int 0
      · rw [hsome]
        exact hn
    unfold readVariable
    rw [(field_eq_iff (by simp)).mpr h.label, (field_eq_iff (by simp)).mpr h.type, hslot]
    refine bind_eq_ok_iff.mpr ⟨v.slot, number_eq_ok_iff.mpr hn,
      bind_eq_ok_iff.mpr ⟨v.offset, number_eq_ok_iff.mpr hoffset, ?_⟩⟩
    rw [← h.astId, ← h.contract]
    rfl

theorem optionalList?_eq_some_iff {items : List Value} :
    optionalList? raw = some items ↔ Lists raw items := by
  unfold optionalList?
  constructor
  · intro h
    split at h
    · next hvacant => exact Option.some.inj h ▸ .vacant hvacant
    · split at h
      · exact Option.some.inj h ▸ .list _
      · cases h
  · intro h
    cases h with
    | list => cases items <;> rfl
    | vacant hvacant => rw [if_pos hvacant]

theorem table?_eq_some_iff {fields : List (Text × Value)} :
    table? raw = some fields ↔ Tabulates raw fields := by
  unfold table?
  constructor
  · intro h
    split at h
    · next hvacant => exact Option.some.inj h ▸ .vacant hvacant
    · split at h
      · exact Option.some.inj h ▸ .record _
      · cases h
  · intro h
    cases h with
    | record => cases fields <;> rfl
    | vacant hvacant => rw [if_pos hvacant]

/-- The number in a field that may be left out. -/
def optionalNumber (owner field : Text) (v : Value) : Except ReportFault (Option Int) :=
  match v with
  | .null => .ok none
  | v => some <$> number owner field v

theorem optionalNumber_eq_ok_iff {field : Text} {n? : Option Int} :
    optionalNumber owner field raw = .ok n? ↔
      raw = .null ∧ n? = none ∨ ∃ n, Denotes raw n ∧ n? = some n := by
  unfold optionalNumber
  constructor
  · intro h
    split at h
    · exact .inl ⟨rfl, (Except.ok.inj h).symm⟩
    · obtain ⟨n, hn, rfl⟩ := map_eq_ok_iff.mp h
      exact .inr ⟨n, number_eq_ok_iff.mp hn, rfl⟩
  · intro h
    rcases h with ⟨rfl, rfl⟩ | ⟨n, hn, rfl⟩
    · rfl
    · split
      · cases hn
      · exact map_eq_ok_iff.mpr ⟨n, number_eq_ok_iff.mpr hn, rfl⟩

/-- A type is read from its members and its size, one after the other. -/
theorem readType_record (fields : List (Text × Value)) {items : List Value}
    (hitems : optionalList? ((Value.record fields).field "members") = some items) :
    readType id (.record fields) = (do
      let size ← optionalNumber id "numberOfBytes" ((Value.record fields).field "numberOfBytes")
      let members ← items.mapM (readVariable id)
      return {
        encoding := .ofValue (((Value.record fields).field? "encoding").getD (.text "inplace"))
        label := ((Value.record fields).field? "label").getD (.text id)
        size, members
        base := (Value.record fields).field "base"
        key := (Value.record fields).field "key"
        value := (Value.record fields).field "value" }) := by
  unfold readType optionalNumber
  rw [hitems]
  dsimp only
  cases (Value.record fields).field "numberOfBytes" <;> rfl

theorem readType_eq_ok_iff {t : TypeInfo} : readType id raw = .ok t ↔ DescribesType id raw t := by
  constructor
  · intro h
    have hrecord : ∃ fields, raw = .record fields := by
      unfold readType at h
      split at h
      · exact ⟨_, rfl⟩
      · cases h
    obtain ⟨fields, rfl⟩ := hrecord
    cases hitems : optionalList? ((Value.record fields).field "members") with
    | none =>
      unfold readType at h
      rw [hitems] at h
      cases h
    | some items =>
      rw [readType_record fields hitems] at h
      obtain ⟨size, hsize, h⟩ := bind_eq_ok_iff.mp h
      obtain ⟨members, hmembers, h⟩ := bind_eq_ok_iff.mp h
      obtain rfl := Except.ok.inj h
      exact ⟨⟨_, rfl⟩, rfl, rfl, optionalNumber_eq_ok_iff.mp hsize, ⟨items,
        optionalList?_eq_some_iff.mp hitems,
        (mapM_eq_ok_iff.mp hmembers).imp fun _ _ => readVariable_eq_ok_iff.mp⟩, rfl, rfl, rfl⟩
  · intro h
    obtain ⟨fields, rfl⟩ := h.record
    obtain ⟨items, hitems, hall⟩ := h.members
    rw [readType_record fields (optionalList?_eq_some_iff.mpr hitems)]
    refine bind_eq_ok_iff.mpr ⟨t.size, optionalNumber_eq_ok_iff.mpr h.size,
      bind_eq_ok_iff.mpr ⟨t.members,
        mapM_eq_ok_iff.mpr (hall.imp fun _ _ => readVariable_eq_ok_iff.mpr), ?_⟩⟩
    rw [← h.encoding, ← h.label, ← h.base, ← h.key, ← h.value]
    rfl

theorem readEntry_eq_ok_iff {entry : Text × Value} {type : Text × TypeInfo} :
    (do return (entry.1, ← readType entry.1 entry.2) : Except ReportFault _) = .ok type ↔
      type.1 = entry.1 ∧ DescribesType entry.1 entry.2 type.2 := by
  rw [bind_eq_ok_iff]
  constructor
  · intro h
    obtain ⟨t, ht, h⟩ := h
    obtain rfl := Except.ok.inj h
    exact ⟨rfl, readType_eq_ok_iff.mp ht⟩
  · intro h
    obtain ⟨hid, ht⟩ := h
    exact ⟨type.2, readType_eq_ok_iff.mpr ht, congrArg Except.ok (Prod.ext hid.symm rfl)⟩

/-- Entries that correspond under one key have the same keys in the same order. -/
theorem forall₂_entries_iff {α β : Type} {R : Text × α → Text × β → Prop}
    {entries : List (Text × α)} {entries' : List (Text × β)} :
    List.Forall₂ (fun entry entry' => entry'.1 = entry.1 ∧ R entry entry') entries entries' ↔
      entries'.map Prod.fst = entries.map Prod.fst ∧ List.Forall₂ R entries entries' := by
  constructor
  · intro h
    induction h with
    | nil => exact ⟨rfl, .nil⟩
    | cons hentry _ ih => exact ⟨congrArg₂ List.cons hentry.1 ih.1, .cons hentry.2 ih.2⟩
  · intro h
    obtain ⟨hkeys, hall⟩ := h
    induction hall with
    | nil => exact .nil
    | cons hentry _ ih =>
      obtain ⟨hkey, hkeys⟩ := List.cons.inj hkeys
      exact .cons ⟨hkey, hentry⟩ (ih hkeys)

/-- Reads the types of a table one after another, each under its id. -/
def readEntries (entries : List (Text × Value)) : Except ReportFault (List (Text × TypeInfo)) :=
  entries.mapM fun entry => do return (entry.1, ← readType entry.1 entry.2)

theorem readEntries_eq_ok_iff {entries : List (Text × Value)} {types : List (Text × TypeInfo)} :
    readEntries entries = .ok types ↔ types.map Prod.fst = entries.map Prod.fst ∧
      List.Forall₂ (fun entry type => DescribesType entry.1 entry.2 type.2) entries types := by
  rw [readEntries, mapM_eq_ok_iff, ← forall₂_entries_iff]
  simp only [readEntry_eq_ok_iff]

/-- A value is read as the layout that it describes. -/
theorem ofValue_eq_ok_iff {l : Layout} : Layout.ofValue raw = .ok l ↔ Describes raw l := by
  constructor
  · intro h
    unfold Layout.ofValue at h
    split at h
    · split at h
      · next items hitems =>
        split at h
        · cases h
        · next entries hentries =>
          obtain ⟨storage, hstorage, h⟩ := bind_eq_ok_iff.mp h
          obtain ⟨types, htypes, h⟩ := bind_eq_ok_iff.mp h
          obtain rfl := Except.ok.inj h
          exact ⟨⟨items, (field_eq_iff (by simp)).mp hitems,
            (mapM_eq_ok_iff.mp hstorage).imp fun _ _ => readVariable_eq_ok_iff.mp⟩,
            entries, table?_eq_some_iff.mp hentries, readEntries_eq_ok_iff.mp htypes⟩
      · cases h
    · cases h
  · intro h
    obtain ⟨items, hitems, hstorage⟩ := h.storage
    obtain ⟨entries, hentries, htypes⟩ := h.types
    obtain ⟨fields, rfl⟩ := exists_record_of_field? hitems
    unfold Layout.ofValue
    rw [(field_eq_iff (by simp)).mpr hitems]
    simp only [table?_eq_some_iff.mpr hentries]
    exact bind_eq_ok_iff.mpr ⟨l.storage,
      mapM_eq_ok_iff.mpr (hstorage.imp fun _ _ => readVariable_eq_ok_iff.mpr),
      bind_eq_ok_iff.mpr ⟨l.types, readEntries_eq_ok_iff.mpr htypes, rfl⟩⟩

end Readers

/-! ### What is a report -/

/-- A whole number, or a text that denotes one. -/
def IsNumber (v : Value) : Prop := ∃ n, Denotes v n

/-- A record with a label, the id of a type and a slot; its offset may be left out. -/
structure IsVariable (raw : Value) : Prop where
  record : ∃ fields, raw = .record fields
  label : ∃ label, raw.field? "label" = some (.text label)
  type : ∃ type, raw.field? "type" = some (.text type)
  slot : ∃ slot, raw.field? "slot" = some slot ∧ IsNumber slot
  offset : ∀ offset, raw.field? "offset" = some offset → IsNumber offset

/-- A record whose members, if it has any, are variables; its size may be left out. -/
structure IsType (raw : Value) : Prop where
  record : ∃ fields, raw = .record fields
  members : ∃ items, Lists (raw.field "members") items ∧ ∀ item ∈ items, IsVariable item
  size : ∀ size, raw.field? "numberOfBytes" = some size → size = .null ∨ IsNumber size

/-- A record with a list of variables, and with a table of types if it has any. -/
structure IsReport (raw : Value) : Prop where
  record : ∃ fields, raw = .record fields
  storage : ∃ items, raw.field? "storage" = some (.list items) ∧ ∀ item ∈ items, IsVariable item
  types : ∃ entries, Tabulates (raw.field "types") entries ∧ ∀ entry ∈ entries, IsType entry.2

section Reports
variable {raw : Value}

theorem exists_describesVariable_iff : (∃ v, DescribesVariable raw v) ↔ IsVariable raw := by
  constructor
  · intro h
    obtain ⟨v, h⟩ := h
    obtain ⟨slot, hslot, hn⟩ := h.slot
    refine ⟨exists_record_of_field? h.label, ⟨_, h.label⟩, ⟨_, h.type⟩, ⟨slot, hslot, _, hn⟩,
      fun offset hoffset => ?_⟩
    rcases h.offset with ⟨hnone, -⟩ | ⟨given, hgiven, hn⟩
    · cases hnone.symm.trans hoffset
    · obtain rfl := Option.some.inj (hgiven.symm.trans hoffset)
      exact ⟨_, hn⟩
  · intro h
    obtain ⟨label, hlabel⟩ := h.label
    obtain ⟨type, htype⟩ := h.type
    obtain ⟨slot, hslot, n, hn⟩ := h.slot
    have hoffset : ∃ n, raw.field? "offset" = none ∧ n = 0 ∨
        ∃ offset, raw.field? "offset" = some offset ∧ Denotes offset n := by
      cases hgiven : raw.field? "offset" with
      | none => exact ⟨0, .inl ⟨rfl, rfl⟩⟩
      | some offset =>
        obtain ⟨n, hn⟩ := h.offset offset hgiven
        exact ⟨n, .inr ⟨offset, rfl, hn⟩⟩
    obtain ⟨offset, hoffset⟩ := hoffset
    exact ⟨⟨label, type, n, offset, _, _⟩, hlabel, htype, ⟨slot, hslot, hn⟩, hoffset, rfl, rfl⟩

/-- Items that each describe something describe a list of it, item by item. -/
theorem exists_forall₂_iff {α β : Type} {R : α → β → Prop} {P : α → Prop}
    (h : ∀ x, (∃ y, R x y) ↔ P x) (xs : List α) :
    (∃ ys, List.Forall₂ R xs ys) ↔ ∀ x ∈ xs, P x := by
  induction xs with
  | nil => exact ⟨fun _ => nofun, fun _ => ⟨[], .nil⟩⟩
  | cons x rest ih =>
    rw [List.forall_mem_cons, ← h, ← ih]
    constructor
    · intro hall
      obtain ⟨ys, hys⟩ := hall
      obtain ⟨y, zs, hy, hzs, -⟩ := List.forall₂_cons_left_iff.mp hys
      exact ⟨⟨y, hy⟩, zs, hzs⟩
    · intro hall
      obtain ⟨⟨y, hy⟩, zs, hzs⟩ := hall
      exact ⟨y :: zs, .cons hy hzs⟩

theorem exists_describesType_iff {id : Text} :
    (∃ t, DescribesType id raw t) ↔ IsType raw := by
  constructor
  · intro h
    obtain ⟨t, h⟩ := h
    obtain ⟨items, hitems, hall⟩ := h.members
    refine ⟨h.record, ⟨items, hitems,
      (exists_forall₂_iff (fun _ => exists_describesVariable_iff) items).mp ⟨_, hall⟩⟩,
      fun size hsize => ?_⟩
    have hfield : raw.field "numberOfBytes" = size := by rw [Value.field, hsize]; rfl
    rw [← hfield]
    exact h.size.imp And.left fun ⟨n, hn, _⟩ => ⟨n, hn⟩
  · intro h
    obtain ⟨items, hitems, hvariables⟩ := h.members
    obtain ⟨members, hall⟩ :=
      (exists_forall₂_iff (fun _ => exists_describesVariable_iff) items).mpr hvariables
    have hsize : ∃ size, raw.field "numberOfBytes" = .null ∧ size = none ∨
        ∃ n, Denotes (raw.field "numberOfBytes") n ∧ size = some n := by
      unfold Value.field
      cases hgiven : raw.field? "numberOfBytes" with
      | none => exact ⟨none, .inl ⟨rfl, rfl⟩⟩
      | some size =>
        rcases h.size size hgiven with hnull | ⟨n, hn⟩
        · exact ⟨none, .inl ⟨hnull, rfl⟩⟩
        · exact ⟨some n, .inr ⟨n, hn, rfl⟩⟩
    obtain ⟨size, hsize⟩ := hsize
    exact ⟨⟨_, _, size, members, _, _, _⟩, h.record, rfl, rfl, hsize, ⟨items, hitems, hall⟩, rfl, rfl,
      rfl⟩

theorem exists_describes_iff : (∃ l, Describes raw l) ↔ IsReport raw := by
  have hvariables (items : List Value) :
      (∃ vs, List.Forall₂ DescribesVariable items vs) ↔ ∀ item ∈ items, IsVariable item :=
    exists_forall₂_iff (fun _ => exists_describesVariable_iff) items
  have htypes (entries : List (Text × Value)) :
      (∃ types : List (Text × TypeInfo), List.Forall₂ (fun entry type => type.1 = entry.1 ∧
        DescribesType entry.1 entry.2 type.2) entries types) ↔ ∀ entry ∈ entries, IsType entry.2 := by
    refine exists_forall₂_iff (fun entry => ?_) entries
    have htype : (∃ t, DescribesType entry.1 entry.2 t) ↔ IsType entry.2 := exists_describesType_iff
    rw [← htype]
    exact ⟨fun ⟨type, _, h⟩ => ⟨type.2, h⟩, fun ⟨t, h⟩ => ⟨(entry.1, t), rfl, h⟩⟩
  constructor
  · intro h
    obtain ⟨l, h⟩ := h
    obtain ⟨items, hitems, hstorage⟩ := h.storage
    obtain ⟨entries, hentries, hall⟩ := h.types
    exact ⟨exists_record_of_field? hitems, ⟨items, hitems, (hvariables items).mp ⟨_, hstorage⟩⟩,
      entries, hentries, (htypes entries).mp ⟨_, forall₂_entries_iff.mpr hall⟩⟩
  · intro h
    obtain ⟨items, hitems, hstorage⟩ := h.storage
    obtain ⟨entries, hentries, hall⟩ := h.types
    obtain ⟨storage, hstorage⟩ := (hvariables items).mpr hstorage
    obtain ⟨types, hall⟩ := (htypes entries).mpr hall
    exact ⟨⟨storage, types⟩, ⟨items, hitems, hstorage⟩, entries, hentries,
      forall₂_entries_iff.mp hall⟩

end Reports

end UpgradeSafety.Report

namespace UpgradeSafety.Layout
open Report

theorem ofText_eq_ok_iff {s : Text} {l : Layout} :
    ofText s = .ok l ↔ ∃ v, Json.read? s = some v ∧ Describes v l := by
  unfold ofText
  cases hread : Json.read? s with
  | none => exact ⟨nofun, fun ⟨_, hv, _⟩ => nomatch hv⟩
  | some v =>
    rw [ofValue_eq_ok_iff]
    exact ⟨fun h => ⟨v, rfl, h⟩, fun ⟨w, hw, h⟩ => Option.some.inj hw ▸ h⟩

/-- **A value that is no text is read as a layout exactly if it is a report, and as the layout that
it describes; any other has a fault. A text is read exactly if what it says in JSON is a report.** -/
theorem ofGiven_accepts :
    (∀ v, (∀ s, v ≠ .text s) →
      ((∃ l, ofGiven v = .ok l) ↔ IsReport v) ∧
        (¬IsReport v → ∃ fault, ofGiven v = .error fault) ∧
        ∀ l, ofGiven v = .ok l → Describes v l) ∧
      ∀ s, ((∃ l, ofGiven (.text s) = .ok l) ↔ ∃ v, Json.read? s = some v ∧ IsReport v) ∧
        ((¬∃ v, Json.read? s = some v ∧ IsReport v) →
          ∃ fault, ofGiven (.text s) = .error fault) ∧
        ∀ l, ofGiven (.text s) = .ok l → ∃ v, Json.read? s = some v ∧ Describes v l := by
  refine ⟨fun v hv => ?_, fun s => ?_⟩
  · have hread : ofGiven v = ofValue v := by
      cases v with
      | text s => exact absurd rfl (hv s)
      | _ => rfl
    have haccept : (∃ l, ofGiven v = .ok l) ↔ IsReport v := by
      simp only [hread, ofValue_eq_ok_iff, exists_describes_iff]
    refine ⟨haccept, fun hno => ?_, fun l hl => ofValue_eq_ok_iff.mp (hread ▸ hl)⟩
    exact exists_error_of_not_ok (mt haccept.mp hno)
  · have haccept : (∃ l, ofGiven (.text s) = .ok l) ↔
        ∃ v, Json.read? s = some v ∧ IsReport v := by
      simp only [ofGiven, ofText_eq_ok_iff, ← exists_describes_iff]
      exact ⟨fun ⟨l, v, hv, h⟩ => ⟨v, hv, l, h⟩, fun ⟨v, hv, l, h⟩ => ⟨l, v, hv, h⟩⟩
    exact ⟨haccept, fun hno => exists_error_of_not_ok (mt haccept.mp hno),
      fun l hl => ofText_eq_ok_iff.mp hl⟩

/-- One variable, whose slot is written in hexadecimal, of a type whose members are vacant. -/
def sampleReport : Value :=
  .record [("storage", .list [.record [("label", .text "total"), ("type", .text "t_uint256"),
      ("slot", .text "0x0c")]]),
    ("types", .record [("t_uint256", .record [("numberOfBytes", .text "32"), ("members", .int 0)])])]

def sample : Layout where
  storage := [⟨"total", "t_uint256", 12, 0, .null, .null⟩]
  types := [("t_uint256", ⟨.inplace, .text "t_uint256", some 32, [], .null, .null, .null⟩)]

theorem ofGiven_accepts_sampleReport :
    (IsReport sampleReport ∧ Describes sampleReport sample) ∧
      (∃ fault, ofGiven (.bool false) = .error fault) ∧
      ∃ v, Json.read? "\x7b\"storage\":[]\x7d" = some v ∧ Describes v ⟨[], []⟩ := by
  have hsample := ofGiven_accepts.1 sampleReport (fun s => by simp [sampleReport])
  have hflag := ofGiven_accepts.1 (.bool false) nofun
  have htext := ofGiven_accepts.2 "\x7b\"storage\":[]\x7d"
  refine ⟨⟨hsample.1.mp ⟨sample, by decide +kernel⟩, hsample.2.2 sample (by decide +kernel)⟩,
    hflag.2.1 fun h => ?_, htext.2.2 ⟨[], []⟩ (by decide +kernel)⟩
  obtain ⟨_, h⟩ := h.record
  cases h

/-- A text is no report, and is read all the same where what it says in JSON is one. -/
theorem reads_report_in_text :
    ofGiven (.text "\x7b\"storage\":[]\x7d") = .ok ⟨[], []⟩ ∧
      ¬IsReport (.text "\x7b\"storage\":[]\x7d") := by
  refine ⟨by decide +kernel, fun h => ?_⟩
  obtain ⟨_, h⟩ := h.record
  cases h

end UpgradeSafety.Layout
