import UpgradeSafety.Proofs.Footprint.Levels
import UpgradeSafety.Proofs.Json.Numbers
import UpgradeSafety.Proofs.Layout.Acceptance

/-! What is wrong with a report can be told. The whole numbers of JSON text have decimal texts, so the
fault of a report that is read from it has a message (`Layout.exists_message_of_ofText`). The
references between types are parts of such a report as well, so one that leads nowhere can be named
(`HasFault.exists_malformed`). -/
namespace UpgradeSafety

/-- Whether a message can show what a fault is about. -/
def ReportFault.Short : ReportFault → Prop
  | .notNumeric _ _ v => v.Short
  | _ => True

theorem ReportFault.exists_message {fault : ReportFault} (h : fault.Short) :
    ∃ text, fault.message = .ok text := by
  cases fault with
  | notNumeric owner field v =>
    obtain ⟨shown, hshown⟩ := v.exists_describe_iff.mpr h
    exact ⟨_, by rw [message, hshown]; rfl⟩
  | _ => exact ⟨_, rfl⟩

/-- A message can show the references of all types. -/
def Layout.Legible (l : Layout) : Prop :=
  ∀ entry ∈ l.types, entry.2.base.Short ∧ entry.2.value.Short

namespace Report
variable {owner id field : Text} {v : Value} {fault : ReportFault}

theorem short_of_number (hv : v.Short) (h : number owner field v = .error fault) : fault.Short := by
  unfold number at h
  split at h
  · cases h
  · exact Except.error.inj h ▸ hv

theorem short_of_readVariable (hv : v.Short) (h : readVariable owner v = .error fault) :
    fault.Short := by
  unfold readVariable at h
  split at h
  · split at h
    · next label type _ _ =>
      split at h
      · exact Except.error.inj h ▸ trivial
      · next slot hslot =>
        rcases bind_eq_error_iff.mp h with h | ⟨_, -, h⟩
        · exact short_of_number (hv.field? hslot) h
        rcases bind_eq_error_iff.mp h with h | ⟨_, -, h⟩
        · refine short_of_number ?_ h
          cases hoffset : (Value.record _).field? "offset" with
          | none => exact Numeral.short_of_natAbs_lt 1 (by decide) (by decide +kernel)
          | some offset => exact hv.field? hoffset
        · cases h
    · exact Except.error.inj h ▸ trivial
  · exact Except.error.inj h ▸ trivial

theorem short_of_optionalList? {items : List Value} (hv : v.Short) (h : optionalList? v = some items) :
    ∀ item ∈ items, item.Short := by
  unfold optionalList? at h
  split at h
  · exact Option.some.inj h ▸ nofun
  · split at h
    · exact Option.some.inj h ▸ Value.shortItems_iff.mp hv
    · cases h

theorem short_of_optionalNumber (hv : v.Short) (h : optionalNumber owner field v = .error fault) :
    fault.Short := by
  unfold optionalNumber at h
  split at h
  · cases h
  · exact short_of_number hv (map_eq_error_iff.mp h)

theorem short_of_readType (hv : v.Short) (h : readType id v = .error fault) : fault.Short := by
  by_cases hform : ∃ fields items, v = .record fields ∧ optionalList? (v.field "members") = some items
  · obtain ⟨fields, items, rfl, hitems⟩ := hform
    rw [readType_record fields hitems] at h
    rcases bind_eq_error_iff.mp h with h | ⟨_, -, h⟩
    · exact short_of_optionalNumber (hv.field _) h
    rcases bind_eq_error_iff.mp h with h | ⟨_, -, h⟩
    · obtain ⟨member, hmember, h⟩ := exists_error_of_mapM h
      exact short_of_readVariable (short_of_optionalList? (hv.field _) hitems member hmember) h
    · cases h
  · unfold readType at h
    split at h
    · next fields =>
      split at h
      · exact Except.error.inj h ▸ trivial
      · next items hitems => exact absurd ⟨fields, items, rfl, hitems⟩ hform
    · exact Except.error.inj h ▸ trivial

theorem short_of_table? {entries : List (Text × Value)} (hv : v.Short)
    (h : table? v = some entries) : ∀ entry ∈ entries, entry.2.Short := by
  unfold table? at h
  split at h
  · exact Option.some.inj h ▸ nofun
  · split at h
    · exact Option.some.inj h ▸ Value.shortFields_iff.mp hv
    · cases h

theorem short_of_ofValue (hv : v.Short) (h : Layout.ofValue v = .error fault) : fault.Short := by
  unfold Layout.ofValue at h
  split at h
  · split at h
    · next items hitems =>
      split at h
      · exact Except.error.inj h ▸ trivial
      · next entries hentries =>
        rcases bind_eq_error_iff.mp h with h | ⟨_, -, h⟩
        · obtain ⟨item, hitem, h⟩ := exists_error_of_mapM h
          have hlist := hv.field "storage"
          rw [hitems] at hlist
          exact short_of_readVariable (Value.shortItems_iff.mp hlist item hitem) h
        rcases bind_eq_error_iff.mp h with h | ⟨_, -, h⟩
        · obtain ⟨entry, hentry, h⟩ := exists_error_of_mapM h
          rcases bind_eq_error_iff.mp h with h | ⟨_, -, h⟩
          · exact short_of_readType (short_of_table? (hv.field "types") hentries entry hentry) h
          · cases h
        · cases h
    · exact Except.error.inj h ▸ trivial
  · exact Except.error.inj h ▸ trivial

/-- The references of a layout stand in the value that describes it. -/
theorem Describes.legible {l : Layout} (h : Describes v l) (hv : v.Short) : l.Legible := by
  obtain ⟨entries, hentries, -, htypes⟩ := h.types
  intro type htype
  obtain ⟨entry, hentry, hdescribes⟩ := exists_mem_of_forall₂ htypes.flip htype
  have hshort := short_of_table? (hv.field "types") (table?_eq_some_iff.mpr hentries) entry hentry
  rw [hdescribes.base, hdescribes.value]
  exact ⟨hshort.field _, hshort.field _⟩

end Report

namespace Layout

/-- **What is wrong with a report in JSON text has a message.** -/
theorem exists_message_of_ofText {s : Text} {fault : ReportFault} (h : ofText s = .error fault) :
    ∃ text, fault.message = .ok text := by
  unfold ofText at h
  split at h
  · exact Except.error.inj h ▸ ⟨_, rfl⟩
  · next v hread =>
    exact ReportFault.exists_message (Report.short_of_ofValue (Json.short_of_read? hread) h)

theorem legible_of_ofText {s : Text} {l : Layout} (h : ofText s = .ok l) : l.Legible := by
  unfold ofText at h
  split at h
  · cases h
  · next v hread => exact (Report.ofValue_eq_ok_iff.mp h).legible (Json.short_of_read? hread)

end Layout

section Faults
variable {hash : Hash} {l : Layout} {v : Spot}

theorem short_of_follow {type field : Text} {reference unknown : Value} (h : reference.Short)
    (hfollow : Spot.follow type field reference = .error (.unknownType unknown)) : unknown.Short := by
  unfold Spot.follow at hfollow
  split at hfollow
  · cases hfollow
  · split at hfollow
    · cases hfollow
    · cases hfollow
    · cases hfollow
    · obtain rfl := ExpansionFault.unknownType.inj (Except.error.inj hfollow)
      exact h

theorem short_of_example? {t : TypeInfo} {unknown : Value} (ht : t.base.Short ∧ t.value.Short)
    (h : v.example? hash t = .error (.unknownType unknown)) : unknown.Short := by
  unfold Spot.example? at h
  split at h
  · split at h
    · cases h
    · exact short_of_follow ht.1 (map_eq_error_iff.mp h)
  · split at h
    · cases h
    · exact short_of_follow ht.2 (map_eq_error_iff.mp h)
  · cases h

theorem HasFault.short {e : ExpansionFault} (hl : l.Legible) (h : HasFault hash l v e)
    {unknown : Value} (he : e = .unknownType unknown) : unknown.Short := by
  induction h with
  | unknown =>
    obtain rfl := ExpansionFault.unknownType.inj he
    trivial
  | sample ht h => exact short_of_example? (hl _ (Layout.mem_types_of_resolve? ht)) (he ▸ h)
  | label _ h =>
    unfold Spot.typeLabel at h
    split at h
    · cases h
    · cases Except.error.inj h ▸ he
  | element _ _ _ ih => exact ih he
  | member _ _ _ _ ih => exact ih he

/-- A fault of an expansion that lies in the report is told as one. -/
theorem HasFault.exists_malformed {unknown : Value} (hl : l.Legible)
    (h : HasFault hash l v (.unknownType unknown)) :
    ∃ shown, (ExpansionFault.unknownType unknown).malformed? = some shown := by
  obtain ⟨text, htext⟩ := Value.exists_display (h.short hl rfl)
  exact ⟨_, by rw [ExpansionFault.malformed?, htext]; rfl⟩

end Faults

end UpgradeSafety
