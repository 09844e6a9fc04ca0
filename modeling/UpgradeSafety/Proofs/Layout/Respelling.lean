import UpgradeSafety.Proofs.Layout.Acceptance
import UpgradeSafety.Proofs.Number.Spelling

/-! Numbers in reports count for what they denote. Two reports that differ only in how slots, offsets
and sizes are spelled (`Report.Respelled`) are read alike, whether there is a layout or a fault
(`ofGiven_respelled`), and a text denotes a number exactly if it spells it within white space. -/
namespace UpgradeSafety.Report

/-- Two values denote one number. -/
def SameNumber (w w' : Value) : Prop := ∃ n, Denotes w n ∧ Denotes w' n

/-- The same value, or records with the same keys in the same order whose values under one key are
the same or related. -/
inductive FieldsAlike (R : Text → Value → Value → Prop) : Value → Value → Prop where
  | same (v : Value) : FieldsAlike R v v
  | record {fields fields' : List (Text × Value)}
      (h : List.Forall₂ (fun field field' => field'.1 = field.1 ∧
        (field'.2 = field.2 ∨ R field.1 field.2 field'.2)) fields fields') :
      FieldsAlike R (.record fields) (.record fields')

/-- Lists whose items are related one by one. -/
inductive ItemsAlike (R : Value → Value → Prop) : Value → Value → Prop where
  | list {items items' : List Value} (h : List.Forall₂ R items items') :
      ItemsAlike R (.list items) (.list items')

/-- One variable with its slot and its offset spelled in two ways. -/
def RespelledVariable : Value → Value → Prop :=
  FieldsAlike fun key w w' => (key = "slot" ∨ key = "offset") ∧ SameNumber w w'

/-- One type with its size, and the numbers of its members, spelled in two ways. -/
def RespelledType : Value → Value → Prop :=
  FieldsAlike fun key w w' => key = "numberOfBytes" ∧ SameNumber w w' ∨
    key = "members" ∧ ItemsAlike RespelledVariable w w'

/-- One report with its numbers spelled in two ways. -/
def Respelled : Value → Value → Prop :=
  FieldsAlike fun key w w' => key = "storage" ∧ ItemsAlike RespelledVariable w w' ∨
    key = "types" ∧ FieldsAlike (fun _ => RespelledType) w w'

section Fields
variable {R : Text → Value → Value → Prop} {v v' : Value}

theorem lookup_alike {fields fields' : List (Text × Value)}
    (h : List.Forall₂ (fun field field' => field'.1 = field.1 ∧
      (field'.2 = field.2 ∨ R field.1 field.2 field'.2)) fields fields') (key : Text) :
    fields.lookup key = none ∧ fields'.lookup key = none ∨
      ∃ w w', fields.lookup key = some w ∧ fields'.lookup key = some w' ∧ (w' = w ∨ R key w w') := by
  induction h with
  | nil => exact .inl ⟨rfl, rfl⟩
  | @cons field field' _ _ hfield _ ih =>
    obtain ⟨k, w⟩ := field
    obtain ⟨k', w'⟩ := field'
    obtain ⟨rfl, hw⟩ := hfield
    rw [List.lookup_cons, List.lookup_cons]
    by_cases hkey : key = k'
    · subst hkey
      rw [beq_self_eq_true]
      exact .inr ⟨w, w', rfl, rfl, hw⟩
    · rw [beq_eq_false_iff_ne.mpr hkey]
      exact ih

/-- What one has under a key the other has too, the same or related. -/
theorem FieldsAlike.field? (h : FieldsAlike R v v') (key : Text) :
    v.field? key = none ∧ v'.field? key = none ∨
      ∃ w w', v.field? key = some w ∧ v'.field? key = some w' ∧ (w' = w ∨ R key w w') := by
  cases h with
  | same =>
    cases v.field? key with
    | none => exact .inl ⟨rfl, rfl⟩
    | some w => exact .inr ⟨w, w, rfl, rfl, .inl rfl⟩
  | record h => exact lookup_alike h key

theorem FieldsAlike.field (h : FieldsAlike R v v') (key : Text) :
    v'.field key = v.field key ∨ R key (v.field key) (v'.field key) := by
  unfold Value.field
  rcases h.field? key with ⟨hnone, hnone'⟩ | ⟨w, w', hw, hw', hrelated⟩
  · rw [hnone, hnone']
    exact .inl rfl
  · rw [hw, hw']
    exact hrelated

/-- What is not related under a key is the same. -/
theorem FieldsAlike.field?_eq (h : FieldsAlike R v v') {key : Text} (hkey : ∀ w w', ¬R key w w') :
    v'.field? key = v.field? key := by
  rcases h.field? key with ⟨hnone, hnone'⟩ | ⟨w, w', hw, hw', hrelated⟩
  · rw [hnone, hnone']
  · rw [hw, hw', hrelated.resolve_right (hkey w w')]

theorem FieldsAlike.field_eq (h : FieldsAlike R v v') {key : Text} (hkey : ∀ w w', ¬R key w w') :
    v'.field key = v.field key :=
  (h.field key).resolve_right (hkey _ _)

/-- Items that are read alike one by one are read alike together. -/
theorem mapM_eq_of_forall₂ {ε α β : Type} {f : α → Except ε β} {S : α → α → Prop} {xs xs' : List α}
    (h : List.Forall₂ S xs xs') (hf : ∀ x x', S x x' → f x' = f x) : xs'.mapM f = xs.mapM f := by
  induction h with
  | nil => rfl
  | cons hx _ ih => rw [List.mapM_cons, List.mapM_cons, hf _ _ hx, ih]

end Fields

section Readers
variable {owner id field : Text} {w w' v v' : Value}

theorem SameNumber.number (h : SameNumber w w') : number owner field w' = number owner field w := by
  obtain ⟨n, hn, hn'⟩ := h
  rw [number_eq_ok_iff.mpr hn, number_eq_ok_iff.mpr hn']

theorem SameNumber.optionalNumber (h : SameNumber w w') :
    optionalNumber owner field w' = optionalNumber owner field w := by
  obtain ⟨n, hn, hn'⟩ := h
  rw [optionalNumber_eq_ok_iff.mpr (.inr ⟨n, hn, rfl⟩),
    optionalNumber_eq_ok_iff.mpr (.inr ⟨n, hn', rfl⟩)]

theorem readVariable_respelled (h : RespelledVariable v v') :
    readVariable owner v' = readVariable owner v := by
  have hlabel : v'.field "label" = v.field "label" := h.field_eq (by simp)
  have htype : v'.field "type" = v.field "type" := h.field_eq (by simp)
  have hastId : v'.field "astId" = v.field "astId" := h.field_eq (by simp)
  have hcontract : v'.field "contract" = v.field "contract" := h.field_eq (by simp)
  have hslot := FieldsAlike.field? h "slot"
  have hoffset (label : Text) : number label "offset" ((v'.field? "offset").getD (.int 0)) =
      number label "offset" ((v.field? "offset").getD (.int 0)) := by
    rcases FieldsAlike.field? h "offset" with ⟨hnone, hnone'⟩ | ⟨w, w', hw, hw', heq | ⟨-, hsame⟩⟩
    · rw [hnone, hnone']
    · rw [hw, hw', heq]
    · rw [hw, hw']
      exact hsame.number
  cases h with
  | same => rfl
  | record =>
    simp only [readVariable, hlabel, htype, hastId, hcontract]
    split
    · rcases hslot with ⟨hnone, hnone'⟩ | ⟨w, w', hw, hw', heq | ⟨-, hsame⟩⟩
      · rw [hnone, hnone']
      · rw [hw, hw', heq]
        simp only [hoffset]
      · rw [hw, hw']
        simp only [hsame.number, hoffset]
    · rfl

theorem mapM_readVariable_respelled {items items' : List Value}
    (h : List.Forall₂ RespelledVariable items items') :
    items'.mapM (readVariable owner) = items.mapM (readVariable owner) :=
  mapM_eq_of_forall₂ h fun _ _ => readVariable_respelled

theorem optionalList?_respelled (owner : Text)
    (h : w' = w ∨ ItemsAlike RespelledVariable w w') :
    optionalList? w = none ∧ optionalList? w' = none ∨
      ∃ items items', optionalList? w = some items ∧ optionalList? w' = some items' ∧
        items'.mapM (readVariable owner) = items.mapM (readVariable owner) := by
  rcases h with rfl | @⟨items, items', h⟩
  · cases optionalList? w' with
    | none => exact .inl ⟨rfl, rfl⟩
    | some items => exact .inr ⟨items, items, rfl, rfl, rfl⟩
  · exact .inr ⟨items, items', optionalList?_eq_some_iff.mpr (.list items),
      optionalList?_eq_some_iff.mpr (.list items'), mapM_readVariable_respelled h⟩

theorem readType_respelled (h : RespelledType v v') : readType id v' = readType id v := by
  have hencoding : v'.field? "encoding" = v.field? "encoding" := h.field?_eq (by simp)
  have hlabel : v'.field? "label" = v.field? "label" := h.field?_eq (by simp)
  have hbase : v'.field "base" = v.field "base" := h.field_eq (by simp)
  have hkey : v'.field "key" = v.field "key" := h.field_eq (by simp)
  have hvalue : v'.field "value" = v.field "value" := h.field_eq (by simp)
  have hsize : optionalNumber id "numberOfBytes" (v'.field "numberOfBytes") =
      optionalNumber id "numberOfBytes" (v.field "numberOfBytes") := by
    rcases FieldsAlike.field h "numberOfBytes" with heq | ⟨-, hsame⟩ | ⟨hother, -⟩
    · rw [heq]
    · exact hsame.optionalNumber
    · exact absurd hother (by decide)
  have hmembers : v'.field "members" = v.field "members" ∨
      ItemsAlike RespelledVariable (v.field "members") (v'.field "members") := by
    rcases FieldsAlike.field h "members" with heq | ⟨hother, -⟩ | ⟨-, hitems⟩
    · exact .inl heq
    · exact absurd hother (by decide)
    · exact .inr hitems
  have hread := optionalList?_respelled id hmembers
  cases h with
  | same => rfl
  | record =>
    rcases hread with ⟨hnone, hnone'⟩ | ⟨items, items', hitems, hitems', hmapM⟩
    · unfold readType
      rw [hnone, hnone']
    · rw [readType_record _ hitems, readType_record _ hitems', hsize, hmapM, hencoding, hlabel, hbase,
        hkey, hvalue]

theorem table?_respelled (h : w' = w ∨ FieldsAlike (fun _ => RespelledType) w w') :
    table? w = none ∧ table? w' = none ∨
      ∃ entries entries', table? w = some entries ∧ table? w' = some entries' ∧
        readEntries entries' = readEntries entries := by
  have hsame : table? w = none ∧ table? w = none ∨
      ∃ entries entries', table? w = some entries ∧ table? w = some entries' ∧
        readEntries entries' = readEntries entries := by
    cases table? w with
    | none => exact .inl ⟨rfl, rfl⟩
    | some entries => exact .inr ⟨entries, entries, rfl, rfl, rfl⟩
  rcases h with rfl | h
  · exact hsame
  · cases h with
    | same => exact hsame
    | @record entries entries' h =>
      refine .inr ⟨entries, entries', table?_eq_some_iff.mpr (.record entries),
        table?_eq_some_iff.mpr (.record entries'), mapM_eq_of_forall₂ h fun entry entry' hentry => ?_⟩
      obtain ⟨hid, heq | htype⟩ := hentry
      · rw [hid, heq]
      · rw [hid, readType_respelled htype]

theorem list_respelled (owner : Text) (h : w' = w ∨ ItemsAlike RespelledVariable w w') :
    (w' = w ∧ ∀ items, w ≠ .list items) ∨ ∃ items items', w = .list items ∧ w' = .list items' ∧
      items'.mapM (readVariable owner) = items.mapM (readVariable owner) := by
  rcases h with rfl | @⟨items, items', h⟩
  · by_cases hlist : ∃ items, w' = .list items
    · obtain ⟨items, rfl⟩ := hlist
      exact .inr ⟨items, items, rfl, rfl, rfl⟩
    · exact .inl ⟨rfl, fun items heq => hlist ⟨items, heq⟩⟩
  · exact .inr ⟨items, items', rfl, rfl, mapM_readVariable_respelled h⟩

theorem ofValue_respelled (h : Respelled v v') : Layout.ofValue v' = Layout.ofValue v := by
  have hstorage : v'.field "storage" = v.field "storage" ∨
      ItemsAlike RespelledVariable (v.field "storage") (v'.field "storage") := by
    rcases FieldsAlike.field h "storage" with heq | ⟨-, hitems⟩ | ⟨hother, -⟩
    · exact .inl heq
    · exact .inr hitems
    · exact absurd hother (by decide)
  have htypes : v'.field "types" = v.field "types" ∨
      FieldsAlike (fun _ => RespelledType) (v.field "types") (v'.field "types") := by
    rcases FieldsAlike.field h "types" with heq | ⟨hother, -⟩ | ⟨-, htypes⟩
    · exact .inl heq
    · exact absurd hother (by decide)
    · exact .inr htypes
  have hvariables := list_respelled "storage" hstorage
  have htable := table?_respelled htypes
  cases h with
  | same => rfl
  | record =>
    unfold Layout.ofValue
    dsimp only
    rcases hvariables with ⟨heq, hnone⟩ | ⟨items, items', hitems, hitems', hmapM⟩
    · rw [heq]
      split
      · next items hitems => exact absurd hitems (hnone items)
      · rfl
    · rw [hitems, hitems']
      rcases htable with ⟨hnone, hnone'⟩ | ⟨entries, entries', hentries, hentries', hread⟩
      · rw [hnone, hnone']
      · rw [hentries, hentries']
        unfold readEntries at hread
        dsimp only
        rw [hmapM, hread]

end Readers

end UpgradeSafety.Report

namespace UpgradeSafety.Layout
open Report

/-- **A text in ASCII denotes a number exactly if it spells the number within white space, and reports
that differ only in how their numbers are spelled are read alike, also as JSON text.** -/
theorem ofGiven_respelled :
    (∀ s : String, (∀ c ∈ s.toList, c.toNat < 0x80) → ∀ owner field n,
      number owner field (.text s) = .ok n ↔
        ∃ rest, Numeral.Trimmed s.toList rest ∧ Numeral.Spells rest n) ∧
      (∀ v v', Respelled v v' → ofGiven v' = ofGiven v) ∧
      ∀ s s' v v', Json.read? s = some v → Json.read? s' = some v' →
        Respelled v v' → ofGiven (.text s') = ofGiven (.text s) := by
  refine ⟨fun s hascii owner field n => ?_, fun v v' h => ?_, fun s s' v v' hv hv' h => ?_⟩
  · have hdenotes : Denotes (.text s) n ↔ Numeral.read? s = some n :=
      number?_eq_some_iff.symm
    rw [number_eq_ok_iff, hdenotes, Numeral.read?_eq_some_iff hascii]
  · cases h with
    | same => rfl
    | record h => exact ofValue_respelled (.record h)
  · change ofText s' = ofText s
    rw [ofText, ofText, hv, hv']
    exact ofValue_respelled h

/-- The report with its slot in decimal and padded, and its size as a number. -/
def sampleRespelled : Value :=
  .record [("storage", .list [.record [("label", .text "total"), ("type", .text "t_uint256"),
      ("slot", .text " 012\t")]]),
    ("types", .record [("t_uint256", .record [("numberOfBytes", .int 32), ("members", .int 0)])])]

theorem sampleReport_respelled : Respelled sampleReport sampleRespelled := by
  have hslot : SameNumber (.text "0x0c") (.text " 012\t") :=
    ⟨12, .text (by decide), .text (by decide)⟩
  have hsize : SameNumber (.text "32") (.int 32) := ⟨32, .text (by decide), .int 32⟩
  have hvariable : RespelledVariable
      (.record [("label", .text "total"), ("type", .text "t_uint256"), ("slot", .text "0x0c")])
      (.record [("label", .text "total"), ("type", .text "t_uint256"), ("slot", .text " 012\t")]) :=
    .record (.cons ⟨rfl, .inl rfl⟩ (.cons ⟨rfl, .inl rfl⟩ (.cons ⟨rfl, .inr ⟨.inl rfl, hslot⟩⟩ .nil)))
  have htype : RespelledType (.record [("numberOfBytes", .text "32"), ("members", .int 0)])
      (.record [("numberOfBytes", .int 32), ("members", .int 0)]) :=
    .record (.cons ⟨rfl, .inr (.inl ⟨rfl, hsize⟩)⟩ (.cons ⟨rfl, .inl rfl⟩ .nil))
  have htypes : FieldsAlike (fun _ => RespelledType)
      (.record [("t_uint256", .record [("numberOfBytes", .text "32"), ("members", .int 0)])])
      (.record [("t_uint256", .record [("numberOfBytes", .int 32), ("members", .int 0)])]) :=
    .record (.cons ⟨rfl, .inr htype⟩ .nil)
  exact .record (.cons ⟨rfl, .inr (.inl ⟨rfl, .list (.cons hvariable .nil)⟩)⟩
    (.cons ⟨rfl, .inr (.inr ⟨rfl, htypes⟩)⟩ .nil))

theorem ofGiven_respelled_sampleReport :
    number "total" "slot" (.text " 0X_c\t") = .ok 12 ∧
      ofGiven sampleRespelled = ofGiven sampleReport ∧
      ofGiven (.text "\x7b\"storage\": []\x7d") = ofGiven (.text "\x7b\"storage\":[]\x7d") := by
  obtain ⟨hnumber, hvalue, htext⟩ := ofGiven_respelled
  have htrimmed : Numeral.Trimmed " 0X_c\t".toList ['0', 'X', '_', 'c'] :=
    ⟨⟨[' '], ['\t'], rfl, List.forall_mem_singleton.mpr rfl, List.forall_mem_singleton.mpr rfl⟩,
      fun _ hc => Option.some.inj hc ▸ rfl, fun _ hc => Option.some.inj hc ▸ rfl⟩
  have hspells : Numeral.Spells ['0', 'X', '_', 'c'] 12 :=
    .hexadecimal (.inr rfl) (.inr rfl) (.last (by decide))
  have hascii : ∀ c ∈ " 0X_c\t".toList, c.toNat < 0x80 := by simp
  refine ⟨(hnumber " 0X_c\t" hascii "total" "slot" 12).mpr ⟨_, htrimmed, hspells⟩,
    hvalue _ _ sampleReport_respelled,
    htext _ _ (.record [("storage", .list [])]) (.record [("storage", .list [])]) ?_ ?_ (.same _)⟩
  · decide +kernel
  · decide +kernel

end UpgradeSafety.Layout
