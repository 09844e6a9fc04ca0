import Mathlib.Algebra.Ring.Int.Defs
import UpgradeSafety.Proofs.Footprint.Correspondence
import UpgradeSafety.Proofs.Footprint.Levels

/-! When a layout has a footprint. An expansion visits references to types, each at a slot
(`Layout.Visits`): those of the variables, then those of their members and of the examples that
stand for what containers keep elsewhere, also where a struct makes no use of its example. What is
visited must be complete (`Layout.Complete`): the type is known and has a label, and a container
says what it is made of and is at a slot that a word can hold. Nothing else is needed but that no two
maps clash, and where only references lead nowhere or are left out the fault is one of the report
(`footprint_of_complete`). -/
namespace UpgradeSafety

/-! ### What is visited -/

/-- A container is made of what one of its fields refers to. -/
inductive TypeInfo.MadeOf (t : TypeInfo) : Text → Value → Prop where
  | base (henc : t.encoding = .dynamicArray) : MadeOf t "base" t.base
  | value (henc : t.encoding = .mapping) : MadeOf t "value" t.value

/-- The slot at which a container at a slot has its example. -/
def TypeInfo.exampleSlot? (hash : Hash) (t : TypeInfo) (slot : Int) : Option Int :=
  match t.encoding with
  | .dynamicArray => Slot.ofElement? hash slot 0
  | .mapping => Slot.ofKey? hash slot 0
  | _ => none

/-- The references that an expansion follows, each with the slot of the variable that has it. -/
inductive Layout.Visits (hash : Hash) (l : Layout) : Value → Int → Prop where
  | stored {v : Variable} (hv : v ∈ l.storage) : Visits hash l (.text v.type) v.slot
  | member {id : Text} {slot : Int} {t : TypeInfo} {m : Variable}
      (h : Visits hash l (.text id) slot) (ht : l.resolve? id = some t) (hm : m ∈ t.members) :
      Visits hash l (.text m.type) (slot + m.slot)
  | element {id field : Text} {slot slot' : Int} {t : TypeInfo} {reference : Value}
      (h : Visits hash l (.text id) slot) (ht : l.resolve? id = some t)
      (hmade : t.MadeOf field reference) (hvacant : reference.isVacant = false)
      (hslot : t.exampleSlot? hash slot = some slot') : Visits hash l reference slot'

/-- A type at a slot is as it should be, except that it may leave out what it is made of. -/
structure TypeInfo.Sound (t : TypeInfo) (slot : Int) : Prop where
  label : ∃ label, t.label = .text label
  slot : ∀ field reference, t.MadeOf field reference → 0 ≤ slot ∧ slot < 2 ^ 256

/-- A type at a slot is as it should be. -/
structure TypeInfo.Complete (t : TypeInfo) (slot : Int) : Prop extends t.Sound slot where
  present : ∀ field reference, t.MadeOf field reference → reference.isVacant = false

/-- A reference is the id of a type that, if it is known, is sound. -/
def Layout.Sound (l : Layout) (reference : Value) (slot : Int) : Prop :=
  ∃ id, reference = .text id ∧ ∀ t, l.resolve? id = some t → t.Sound slot

/-- A reference is the id of a type that is known and complete. -/
def Layout.Complete (l : Layout) (reference : Value) (slot : Int) : Prop :=
  ∃ id t, reference = .text id ∧ l.resolve? id = some t ∧ t.Complete slot

namespace Layout
variable {l : Layout} {id : Text} {slot : Int} {reference : Value}

theorem Sound.type (h : l.Sound (.text id) slot) {t : TypeInfo} (ht : l.resolve? id = some t) :
    t.Sound slot := by
  obtain ⟨id', hid, hsound⟩ := h
  obtain rfl := Value.text.inj hid
  exact hsound t ht

theorem Complete.type (h : l.Complete (.text id) slot) {t : TypeInfo} (ht : l.resolve? id = some t) :
    t.Complete slot := by
  obtain ⟨id', t', hid, ht', hcomplete⟩ := h
  obtain rfl := Value.text.inj hid
  obtain rfl := Option.some.inj (ht.symm.trans ht')
  exact hcomplete

theorem Complete.sound (h : l.Complete reference slot) : l.Sound reference slot := by
  obtain ⟨id, t, hid, ht, hcomplete⟩ := h
  refine ⟨id, hid, fun t' ht' => ?_⟩
  obtain rfl := Option.some.inj (ht.symm.trans ht')
  exact hcomplete.toSound

end Layout

section Examples
variable {hash : Hash} {t : TypeInfo} {v : Spot} {field : Text} {reference : Value}

theorem not_madeOf_of_example? (h : v.example? hash t = .ok none) : ¬t.MadeOf field reference := by
  obtain ⟨harray, hmapping⟩ := not_container_of_example? h
  intro hmade
  cases hmade with
  | base henc => exact harray henc
  | value henc => exact hmapping henc

/-- A type whose example is asked for in vain, or found, is a container. -/
theorem exists_madeOf_of_example? (h : v.example? hash t ≠ .ok none) :
    ∃ field reference, t.MadeOf field reference := by
  by_cases harray : t.encoding = .dynamicArray
  · exact ⟨_, _, .base harray⟩
  · by_cases hmapping : t.encoding = .mapping
    · exact ⟨_, _, .value hmapping⟩
    · exact absurd (example?_eq_none_iff.mpr ⟨harray, hmapping⟩) h

theorem follow_eq_error {type : Text} {e : ExpansionFault}
    (h : Spot.follow type field reference = .error e) :
    reference.isVacant = true ∧ e = .referenceMissing type field ∨
      reference.isVacant = false ∧ ∀ id, reference ≠ .text id := by
  unfold Spot.follow at h
  split at h
  · next hvacant => exact .inl ⟨hvacant, (Except.error.inj h).symm⟩
  · next hvacant =>
    refine .inr ⟨by simpa using hvacant, fun id hid => ?_⟩
    subst hid
    cases h

/-- A container at a slot has its example somewhere if a word can hold the slot. -/
theorem exampleSlot?_isSome_iff (hmade : t.MadeOf field reference) (slot : Int) :
    (t.exampleSlot? hash slot).isSome = true ↔ 0 ≤ slot ∧ slot < 2 ^ 256 := by
  have hmodulus : Slot.modulus = 2 ^ 256 := by decide +kernel
  have hkey : (Slot.word? 0).isSome = true := rfl
  obtain ⟨k, hk⟩ := Option.isSome_iff_exists.mp hkey
  rw [← hmodulus, ← Slot.word?_isSome_iff]
  cases hmade with
  | base henc => simp [TypeInfo.exampleSlot?, henc, Slot.ofElement?]
  | value henc =>
    simp only [TypeInfo.exampleSlot?, henc, Slot.ofKey?, hk]
    cases Slot.word? slot <;> rfl

/-- Where no word can hold the slot of a container, that is what is wrong. -/
theorem example?_of_exampleSlot?_eq_none (hmade : t.MadeOf field reference)
    (h : t.exampleSlot? hash v.slot = none) : v.example? hash t = .error (.slotOutOfRange v.slot) := by
  unfold TypeInfo.exampleSlot? at h
  unfold Spot.example?
  cases hmade with
  | base henc =>
    rw [henc] at h ⊢
    simp only [h]
  | value henc =>
    rw [henc] at h ⊢
    simp only [h]

/-- Otherwise the example is at the slot for it, of the type that the container is made of. -/
theorem exists_example?_eq (hmade : t.MadeOf field reference) {slot : Int}
    (h : t.exampleSlot? hash v.slot = some slot) : ∃ label, v.example? hash t =
      (Spot.follow v.type field reference).map fun type => some (v.element label type slot) := by
  unfold TypeInfo.exampleSlot? at h
  unfold Spot.example?
  cases hmade with
  | base henc =>
    rw [henc] at h ⊢
    simp only [h]
    exact ⟨_, rfl⟩
  | value henc =>
    rw [henc] at h ⊢
    simp only [h]
    exact ⟨_, rfl⟩

end Examples

section Visits
variable {hash : Hash} {l : Layout}

/-- Where the example of a variable is found, it is what the container is made of. -/
theorem example?_eq_ok {v : Spot} {t : TypeInfo} {field : Text} {reference : Value}
    {example? : Option Spot} (hmade : t.MadeOf field reference)
    (h : v.example? hash t = .ok example?) : ∃ e, example? = some e ∧ reference = .text e.type ∧
      reference.isVacant = false ∧ t.exampleSlot? hash v.slot = some e.slot := by
  cases hslot : t.exampleSlot? hash v.slot with
  | none =>
    rw [example?_of_exampleSlot?_eq_none hmade hslot] at h
    cases h
  | some slot =>
    obtain ⟨label, heq⟩ := exists_example?_eq hmade hslot
    rw [heq] at h
    obtain ⟨type, hfollow, rfl⟩ := map_eq_ok_iff.mp h
    refine ⟨_, rfl, follow_eq_ok hfollow, ?_, rfl⟩
    by_contra hvacant
    unfold Spot.follow at hfollow
    rw [if_pos (by simpa using hvacant)] at hfollow
    cases hfollow

/-- What has been expanded is complete. -/
theorem complete_of_leavesOf {depth : Nat} {v : Spot} {ls : List Leaf}
    (h : leavesOf hash l depth v = .ok ls) : l.Complete (.text v.type) v.slot := by
  obtain ⟨below, rfl⟩ := exists_eq_succ_of_leavesOf h
  obtain ⟨t, sample, typeLabel, ht, hsample, hlabel, -⟩ := leavesOf_succ_eq_ok_iff.mp h
  have hexample : ∃ example?, v.example? hash t = .ok example? := by
    rcases hsample with ⟨hnone, -⟩ | ⟨e, he, -⟩
    · exact ⟨none, hnone⟩
    · exact ⟨some e, he⟩
  obtain ⟨example?, hexample⟩ := hexample
  refine ⟨v.type, t, rfl, ht, ⟨⟨?_, fun field reference hmade => ?_⟩,
    fun field reference hmade => ?_⟩⟩
  · unfold Spot.typeLabel at hlabel
    split at hlabel
    · next label heq => exact ⟨label, heq⟩
    · cases hlabel
  · obtain ⟨e, -, -, -, hslot⟩ := example?_eq_ok hmade hexample
    exact (exampleSlot?_isSome_iff hmade v.slot).mp (Option.isSome_of_eq_some hslot)
  · obtain ⟨e, -, -, hvacant, -⟩ := example?_eq_ok hmade hexample
    exact hvacant

/-- What is visited has been expanded, if the layout has leaves. -/
theorem Layout.Visits.exists_leavesOf {reference : Value} {slot : Int}
    (h : l.Visits hash reference slot) {ls : List Leaf} (hls : l.leaves hash = .ok ls) :
    ∃ v depth ms, reference = .text v.type ∧ v.slot = slot ∧ leavesOf hash l depth v = .ok ms := by
  induction h with
  | stored hv =>
    obtain ⟨ms, hms⟩ := exists_leavesOf_of_leaves hls hv
    exact ⟨_, l.depth, ms, rfl, rfl, hms⟩
  | member _ ht hm ih =>
    obtain ⟨v, depth, ms, hid, rfl, hms⟩ := ih
    obtain rfl := Value.text.inj hid
    obtain ⟨below, rfl⟩ := exists_eq_succ_of_leavesOf hms
    obtain ⟨typeLabel, part, -, hpart⟩ := exists_leavesOf_member hms ht hm
    exact ⟨_, below, part, rfl, rfl, hpart⟩
  | element _ ht hmade _ hslot ih =>
    obtain ⟨v, depth, ms, hid, rfl, hms⟩ := ih
    obtain rfl := Value.text.inj hid
    obtain ⟨below, rfl⟩ := exists_eq_succ_of_leavesOf hms
    obtain ⟨t', sample, typeLabel, ht', hsample, -, -⟩ := leavesOf_succ_eq_ok_iff.mp hms
    obtain rfl := Option.some.inj (ht.symm.trans ht')
    rcases hsample with ⟨hnone, -⟩ | ⟨e, he, hsample⟩
    · exact absurd hmade (not_madeOf_of_example? hnone)
    · obtain ⟨e', heq, hreference, -, hslot'⟩ := example?_eq_ok hmade he
      obtain rfl := Option.some.inj heq
      exact ⟨e, below, sample, hreference, Option.some.inj (hslot'.symm.trans hslot), hsample⟩

/-- What is visited is complete, if the layout has a footprint. -/
theorem Layout.Visits.complete {reference : Value} {slot : Int}
    (h : l.Visits hash reference slot) {map : ByteMap}
    (hmap : (l.footprint hash).result = .ok map) : l.Complete reference slot := by
  obtain ⟨ls, hls, -⟩ := exists_leaves_eq_of_footprint hmap
  obtain ⟨v, depth, ms, rfl, rfl, hms⟩ := h.exists_leavesOf hls
  exact complete_of_leavesOf hms

/-- The example of what is visited is visited. -/
theorem Layout.Visits.sample {v w : Spot} {t : TypeInfo}
    (h : l.Visits hash (.text v.type) v.slot) (ht : l.resolve? v.type = some t)
    (hw : v.example? hash t = .ok (some w)) : l.Visits hash (.text w.type) w.slot := by
  obtain ⟨field, reference, hmade⟩ := exists_madeOf_of_example? (by rw [hw]; nofun)
  obtain ⟨w', heq, rfl, hvacant, hslot⟩ := example?_eq_ok hmade hw
  obtain rfl := Option.some.inj heq
  exact .element h ht hmade hvacant hslot

/-! ### What is amiss where there is no footprint -/

/-- Something is amiss with a reference, and if it is sound the fault is told as one of the report. -/
structure Layout.Blames (l : Layout) (e : ExpansionFault) (reference : Value) (slot : Int) : Prop where
  incomplete : ¬l.Complete reference slot
  told : l.Sound reference slot → ∃ text, e.malformed? = some (text, reference)

/-- The fault of an example lies with the container or with what it is made of. -/
theorem exists_blames_of_example? {v : Spot} {t : TypeInfo} {e : ExpansionFault}
    (hv : l.Visits hash (.text v.type) v.slot) (ht : l.resolve? v.type = some t)
    (h : v.example? hash t = .error e) :
    ∃ reference slot, l.Visits hash reference slot ∧ l.Blames e reference slot := by
  obtain ⟨field, reference, hmade⟩ := exists_madeOf_of_example? (by rw [h]; nofun)
  cases hslot : t.exampleSlot? hash v.slot with
  | none =>
    have hunsound : ¬l.Sound (.text v.type) v.slot := by
      intro hsound
      have hsome : (t.exampleSlot? hash v.slot).isSome = true :=
        (exampleSlot?_isSome_iff hmade v.slot).mpr ((hsound.type ht).slot field reference hmade)
      rw [hslot] at hsome
      cases hsome
    exact ⟨_, _, hv, fun hcomplete => hunsound hcomplete.sound, fun hsound => absurd hsound hunsound⟩
  | some slot =>
    obtain ⟨label, heq⟩ := exists_example?_eq hmade hslot
    rw [heq] at h
    rcases follow_eq_error (map_eq_error_iff.mp h) with ⟨hvacant, rfl⟩ | ⟨hvacant, hnotText⟩
    · refine ⟨_, _, hv, fun hcomplete => ?_, fun _ => ⟨_, rfl⟩⟩
      rw [(hcomplete.type ht).present field reference hmade] at hvacant
      cases hvacant
    · exact ⟨_, _, .element hv ht hmade hvacant hslot,
        fun ⟨id, _, hid, _⟩ => hnotText id hid, fun ⟨id, hid, _⟩ => absurd hid (hnotText id)⟩

/-- A fault on the way down from what is visited lies with something that is visited. -/
theorem HasFault.exists_blames {v : Spot} {e : ExpansionFault} (h : HasFault hash l v e)
    (hv : l.Visits hash (.text v.type) v.slot) :
    ∃ reference slot, l.Visits hash reference slot ∧ l.Blames e reference slot := by
  induction h with
  | unknown ht =>
    refine ⟨_, _, hv, fun hcomplete => ?_, fun _ => ⟨_, rfl⟩⟩
    obtain ⟨id, t, hid, ht', -⟩ := hcomplete
    obtain rfl := Value.text.inj hid
    cases ht.symm.trans ht'
  | sample ht h => exact exists_blames_of_example? hv ht h
  | @label v t e ht h =>
    have hunsound : ¬l.Sound (.text v.type) v.slot := by
      intro hsound
      obtain ⟨label, hlabel⟩ := (hsound.type ht).label
      unfold Spot.typeLabel at h
      rw [hlabel] at h
      cases h
    exact ⟨_, _, hv, fun hcomplete => hunsound hcomplete.sound, fun hsound => absurd hsound hunsound⟩
  | element ht hw _ ih => exact ih (hv.sample ht hw)
  | member ht _ hm _ ih => exact ih (.member hv ht hm)

/-- **A layout whose types do not lead back to themselves has a footprint exactly if everything that
is visited is complete and no two maps clash. Otherwise there is a fault: two maps clash; or something
is incomplete, and if nothing is amiss but ids that no type has and containers that do not say what
they are made of, it is told as a fault of the report, with the type that it lies with.** -/
theorem footprint_of_complete (hrecursive : ∀ v ∈ l.storage, ¬l.Recursive v.type) :
    ((∃ map, (l.footprint hash).result = .ok map) ↔
        (∀ reference slot, l.Visits hash reference slot → l.Complete reference slot) ∧
          ∀ n, ¬l.Clashes hash n) ∧
      ∀ e, (l.footprint hash).result = .error e → (∀ type, e ≠ .recursiveType type) ∧
        ((∃ n, e = .longNumber n ∧ l.Clashes hash n) ∨
          (∃ reference slot, l.Visits hash reference slot ∧ ¬l.Complete reference slot) ∧
          ((∀ reference slot, l.Visits hash reference slot → l.Sound reference slot) →
            ∃ text reference slot, e.malformed? = some (text, reference) ∧
              l.Visits hash reference slot ∧ ¬l.Complete reference slot)) := by
  have hfault {e : ExpansionFault} (he : (l.footprint hash).result = .error e) :
      (∃ n, e = .longNumber n ∧ l.Clashes hash n) ∨ (∀ type, e ≠ .recursiveType type) ∧
        ∃ reference slot, l.Visits hash reference slot ∧ l.Blames e reference slot := by
    refine (exists_hasFault_of_footprint hrecursive he).symm.imp_right fun hbelow => ?_
    obtain ⟨v, hv, hfault⟩ := hbelow
    exact ⟨hfault.ne_recursiveType, hfault.exists_blames (.stored hv)⟩
  constructor
  · constructor
    · intro hmap
      obtain ⟨map, hmap⟩ := hmap
      exact ⟨fun _ _ hvisits => hvisits.complete hmap, not_clashes_of_footprint hmap⟩
    · intro hwhole
      obtain ⟨hcomplete, hquiet⟩ := hwhole
      cases hresult : (l.footprint hash).result with
      | ok map => exact ⟨map, rfl⟩
      | error e =>
        rcases hfault hresult with ⟨n, -, hclash⟩ | ⟨-, reference, slot, hvisits, hblames⟩
        · exact absurd hclash (hquiet n)
        · exact absurd (hcomplete reference slot hvisits) hblames.incomplete
  · intro e he
    rcases hfault he with ⟨n, rfl, hclash⟩ | ⟨hrecursive, reference, slot, hvisits, hblames⟩
    · exact ⟨nofun, .inl ⟨n, rfl, hclash⟩⟩
    · refine ⟨hrecursive, .inr ⟨⟨reference, slot, hvisits, hblames.incomplete⟩, fun hsound => ?_⟩⟩
      obtain ⟨text, htext⟩ := hblames.told (hsound reference slot hvisits)
      exact ⟨text, reference, slot, htext, hvisits, hblames.incomplete⟩

end Visits

/-- A slot whose number has five thousand hexadecimal digits. -/
def farSlot : Int :=
  16 ^ 5000 - 1

/-- Two variables that are far out at one slot. -/
def Layout.colliding : Layout where
  storage := [⟨"a", "t_uint8", farSlot, 0, .null, .null⟩, ⟨"b", "t_uint8", farSlot, 0, .null, .null⟩]
  types := [("t_uint8", .elementary "uint8" 1)]

/-- The variables are complete, and there is no footprint all the same. -/
theorem footprint_colliding :
    (∀ v ∈ Layout.colliding.storage, ¬Layout.colliding.Recursive v.type) ∧
      (∀ reference slot, Layout.colliding.Visits lengthHash reference slot →
        Layout.colliding.Complete reference slot) ∧
      ¬∃ map, (Layout.colliding.footprint lengthHash).result = .ok map := by
  have helementary {id : Text} {t : TypeInfo} (ht : Layout.colliding.resolve? id = some t) :
      t = .elementary "uint8" 1 := by
    rcases Layout.mem_types_of_resolve? ht with _ | ⟨_, hnone⟩
    · rfl
    · cases hnone
  have hnotMade {field : Text} {reference : Value} :
      ¬(TypeInfo.elementary "uint8" 1).MadeOf field reference := by
    intro hmade
    cases hmade with
    | base henc | value henc => cases henc
  have hleads {id next : Text} : ¬Layout.colliding.LeadsTo id next := by
    intro h
    cases h with
    | member ht hm =>
      rw [helementary ht] at hm
      cases hm
    | element ht he =>
      rw [helementary ht] at he
      cases he with
      | value henc | base henc => cases henc
  refine ⟨fun v _ hrecursive => ?_, fun reference slot hvisits => ?_, fun hmap => ?_⟩
  · obtain ⟨id, -, hback⟩ := hrecursive
    obtain ⟨_, hfirst, -⟩ := Relation.TransGen.head'_iff.mp hback
    exact hleads hfirst
  · cases hvisits with
    | stored hv =>
      have htype : ∀ v ∈ Layout.colliding.storage, v.type = "t_uint8" := by
        simp [Layout.colliding]
      rw [htype _ hv]
      exact ⟨_, _, rfl, rfl, ⟨⟨⟨_, rfl⟩, fun _ _ hmade => absurd hmade hnotMade⟩,
        fun _ _ hmade => absurd hmade hnotMade⟩⟩
    | member _ ht hm =>
      rw [helementary ht] at hm
      cases hm
    | element _ ht hmade =>
      rw [helementary ht] at hmade
      exact absurd hmade hnotMade
  · have hnone : (Layout.colliding.footprint lengthHash).result.toBool = false := by
      decide +kernel
    obtain ⟨map, hmap⟩ := hmap
    rw [hmap] at hnone
    cases hnone

/-- A struct with a member, encoded as a mapping to a type that there is not. -/
def Layout.boxed : Layout where
  storage := [⟨"box", "t_struct(Box)1_storage", 0, 0, .null, .null⟩]
  types := [
    ("t_uint8", .elementary "uint8" 1),
    ("t_struct(Box)1_storage", { TypeInfo.elementary "struct Box" 32 with
      encoding := .mapping
      members := [⟨"a", "t_uint8", 0, 0, .null, .null⟩]
      value := .text "t_missing" })]

/-- Only the struct is made of anything, and that is missing. -/
theorem Layout.boxed_madeOf {id field : Text} {t : TypeInfo} {reference : Value}
    (ht : boxed.resolve? id = some t) (hmade : t.MadeOf field reference) :
    id = "t_struct(Box)1_storage" ∧ reference = .text "t_missing" := by
  rcases mem_types_of_resolve? ht with _ | ⟨_, _ | ⟨_, hnone⟩⟩
  · cases hmade with
    | base henc | value henc => cases henc
  · cases hmade with
    | base henc => cases henc
    | value => exact ⟨rfl, rfl⟩
  · cases hnone

/-- From the struct the expansion goes on to the member and to what is missing, and no further. -/
theorem Layout.boxed_leadsTo {id next : Text} (h : boxed.LeadsTo id next) :
    id = "t_struct(Box)1_storage" ∧ (next = "t_uint8" ∨ next = "t_missing") := by
  cases h with
  | member ht hm =>
    rcases mem_types_of_resolve? ht with _ | ⟨_, _ | ⟨_, hnone⟩⟩
    · cases hm
    · exact ⟨rfl, .inl (List.mem_singleton.mp hm ▸ rfl)⟩
    · cases hnone
  | element ht he =>
    cases he with
    | value henc hvalue =>
      obtain ⟨hid, hmissing⟩ := boxed_madeOf ht (.value henc)
      exact ⟨hid, .inr (Value.text.inj (hvalue.symm.trans hmissing))⟩
    | base henc hbase =>
      obtain ⟨hid, hmissing⟩ := boxed_madeOf ht (.base henc)
      exact ⟨hid, .inr (Value.text.inj (hbase.symm.trans hmissing))⟩

/-- The struct is visited at its own slot, and nothing else but the member and what is missing. -/
theorem Layout.visits_boxed {reference : Value} {slot : Int}
    (h : boxed.Visits lengthHash reference slot) :
    reference = .text "t_struct(Box)1_storage" ∧ slot = 0 ∨ reference = .text "t_uint8" ∨
      reference = .text "t_missing" := by
  cases h with
  | stored hv =>
    rw [List.mem_singleton.mp hv]
    exact .inl ⟨rfl, rfl⟩
  | member _ ht hm =>
    obtain ⟨-, h | h⟩ := boxed_leadsTo (.member ht hm)
    · exact .inr (.inl (congrArg _ h))
    · exact .inr (.inr (congrArg _ h))
  | element _ ht hmade => exact .inr (.inr (boxed_madeOf ht hmade).2)

/-- The struct makes no use of its example, and without its type there is no footprint all the same. -/
theorem footprint_of_complete_boxed :
    (∀ v ∈ Layout.boxed.storage, ¬Layout.boxed.Recursive v.type) ∧
      ∃ e text, (Layout.boxed.footprint lengthHash).result = .error e ∧
        e.malformed? = some (text, .text "t_missing") := by
  have hrecursive : ∀ v ∈ Layout.boxed.storage, ¬Layout.boxed.Recursive v.type := by
    intro v _ hrecursive
    obtain ⟨id, -, hback⟩ := hrecursive
    obtain ⟨_, hfirst, -⟩ := Relation.TransGen.head'_iff.mp hback
    obtain ⟨_, -, hlast⟩ := Relation.TransGen.tail'_iff.mp hback
    obtain ⟨rfl, -⟩ := Layout.boxed_leadsTo hfirst
    obtain ⟨-, h | h⟩ := Layout.boxed_leadsTo hlast
    · exact absurd h (by decide)
    · exact absurd h (by decide)
  have hbox : Layout.boxed.Complete (.text "t_struct(Box)1_storage") 0 := by
    refine ⟨_, _, rfl, rfl, ⟨⟨⟨_, rfl⟩, fun _ _ _ => by decide⟩, fun _ _ hmade => ?_⟩⟩
    cases hmade with
    | base henc => cases henc
    | value => rfl
  have hmember (slot : Int) : Layout.boxed.Complete (.text "t_uint8") slot := by
    refine ⟨_, _, rfl, rfl, ⟨⟨⟨_, rfl⟩, fun _ _ hmade => ?_⟩, fun _ _ hmade => ?_⟩⟩
    · cases hmade with
      | base henc | value henc => cases henc
    · cases hmade with
      | base henc | value henc => cases henc
  have hsound : ∀ reference slot, Layout.boxed.Visits lengthHash reference slot →
      Layout.boxed.Sound reference slot := by
    intro reference slot hvisits
    rcases Layout.visits_boxed hvisits with ⟨rfl, rfl⟩ | rfl | rfl
    · exact hbox.sound
    · exact (hmember slot).sound
    · exact ⟨_, rfl, nofun⟩
  have hfault : (Layout.boxed.footprint lengthHash).result =
      .error (.unknownType (.text "t_missing")) := rfl
  obtain ⟨-, ⟨n, hlong, -⟩ | ⟨-, htold⟩⟩ := (footprint_of_complete hrecursive).2 _ hfault
  · cases hlong
  obtain ⟨text, reference, slot, htext, hvisits, hblamed⟩ := htold hsound
  rcases Layout.visits_boxed hvisits with ⟨rfl, rfl⟩ | rfl | rfl
  · exact absurd hbox hblamed
  · exact absurd (hmember slot) hblamed
  · exact ⟨hrecursive, _, text, hfault, htext⟩

end UpgradeSafety
