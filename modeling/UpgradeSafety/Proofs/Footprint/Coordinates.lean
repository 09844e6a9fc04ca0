import UpgradeSafety.Proofs.Footprint.Leaves

/-! The coordinates of a detail. A slot, an offset and a first byte are worked out beside each other on
the way down to a leaf: slots are added up, the offset is that of the last step, and the first byte
takes in all the offsets that have been passed. A byte that has a detail is one of those that the
detail takes from its first byte on, and where every struct starts at the beginning of a slot there
is one offset at most on the way, so that slot and offset say where the first byte is
(`footprint_coordinates`). -/
namespace UpgradeSafety

/-- The first byte is the one that the slot and the offset say. -/
def Spot.Coherent (v : Spot) : Prop :=
  v.startByte = v.slot * wordSize + v.offset

/-- The type of a variable has members. -/
def Layout.IsStruct (l : Layout) (id : Text) : Prop :=
  ∃ t, l.resolve? id = some t ∧ t.hasMembers = true

/-- No struct starts in the middle of a slot, neither a variable nor a member of another struct. -/
structure Layout.StructsStartSlots (l : Layout) : Prop where
  storage : ∀ v ∈ l.storage, l.IsStruct v.type → v.offset = 0
  members : ∀ id t, l.resolve? id = some t → ∀ m ∈ t.members, l.IsStruct m.type → m.offset = 0

/-- What a variable owes to its leaves: its own coordinates fit, and a struct starts its slot. -/
structure Spot.Placed (l : Layout) (v : Spot) : Prop where
  coherent : v.Coherent
  atSlot : l.IsStruct v.type → v.offset = 0

section Coordinates
variable {hash : Hash} {l : Layout}

/-- A leaf takes as many bytes as its type does. -/
theorem HasLeaves.count {vs : List Spot} {ls : List Leaf} (h : HasLeaves hash l vs ls) :
    ∀ leaf ∈ ls, ∃ t, l.resolve? leaf.detail.type = some t ∧ leaf.count = t.byteCount := by
  induction h with
  | nil => nofun
  | plain ht _ _ _ _ _ ih =>
    rw [List.forall_mem_cons]
    exact ⟨⟨_, ht, rfl⟩, ih⟩
  | container ht _ _ _ _ _ ihsample ih =>
    rw [List.forall_mem_append, List.forall_mem_cons]
    exact ⟨ihsample, ⟨_, ht, rfl⟩, ih⟩
  | struct _ _ _ _ _ ihparts ih =>
    rw [List.forall_mem_append]
    exact ⟨ihparts, ih⟩

theorem Spot.coherent_ofVariable (v : Variable) : (Spot.ofVariable v).Coherent := rfl

theorem Spot.coherent_element (v : Spot) (label type : Text) (slot : Int) :
    (v.element label type slot).Coherent := by
  simp [Coherent, element]

/-- A member of a struct at the beginning of a slot has coordinates that fit. -/
theorem Spot.Coherent.member {v : Spot} (h : v.Coherent) (hslot : v.offset = 0) (typeLabel : Text)
    (m : Variable) : (v.member typeLabel m).Coherent := by
  simp only [Coherent, Spot.member, hslot, Int.add_zero] at h ⊢
  rw [h, Int.add_mul]

/-- An example starts its slot, whatever its type is. -/
theorem HasExample.placed {v e : Spot} {t : TypeInfo} (h : HasExample hash v t e) : e.Placed l := by
  cases h with
  | array => exact ⟨Spot.coherent_element .., fun _ => rfl⟩
  | mapping => exact ⟨Spot.coherent_element .., fun _ => rfl⟩

/-- The members of a struct are where it says, if it is. -/
theorem Spot.Placed.members (hl : l.StructsStartSlots) {v : Spot} (h : v.Placed l) {t : TypeInfo}
    (ht : l.resolve? v.type = some t) (hm : t.hasMembers = true) (typeLabel : Text) :
    ∀ part ∈ t.members.map (v.member typeLabel), part.Placed l := by
  intro part hpart
  obtain ⟨m, hmem, rfl⟩ := List.mem_map.mp hpart
  exact ⟨h.coherent.member (h.atSlot ⟨t, ht, hm⟩) typeLabel m, hl.members _ t ht m hmem⟩

/-- Variables that are placed come down to leaves whose coordinates fit. -/
theorem HasLeaves.coherent (hl : l.StructsStartSlots) {vs : List Spot} {ls : List Leaf}
    (h : HasLeaves hash l vs ls) (hvs : ∀ v ∈ vs, v.Placed l) : ∀ leaf ∈ ls,
      leaf.detail.startByte = leaf.detail.slot * wordSize + leaf.detail.offset := by
  induction h with
  | nil => nofun
  | plain _ _ _ _ _ _ ih =>
    obtain ⟨hv, hrest⟩ := List.forall_mem_cons.mp hvs
    rw [List.forall_mem_cons]
    exact ⟨hv.coherent, ih hrest⟩
  | container _ _ _ he _ _ ihsample ih =>
    obtain ⟨hv, hrest⟩ := List.forall_mem_cons.mp hvs
    rw [List.forall_mem_append, List.forall_mem_cons]
    exact ⟨ihsample (List.forall_mem_singleton.mpr he.placed), hv.coherent, ih hrest⟩
  | struct ht _ hm _ _ ihparts ih =>
    obtain ⟨hv, hrest⟩ := List.forall_mem_cons.mp hvs
    rw [List.forall_mem_append]
    exact ⟨ihparts (hv.members hl ht hm _), ih hrest⟩

theorem Layout.StructsStartSlots.placed (hl : l.StructsStartSlots) :
    ∀ v ∈ l.storage.map Spot.ofVariable, v.Placed l := by
  intro v hv
  obtain ⟨declared, hmem, rfl⟩ := List.mem_map.mp hv
  exact ⟨Spot.coherent_ofVariable declared, hl.storage declared hmem⟩

/-- **A byte with a detail is one of those that the detail takes from its first byte on, and where no
struct starts in the middle of a slot, the first byte is the one that slot and offset say, at any
depth and behind mappings and arrays.** -/
theorem footprint_coordinates {map : ByteMap} (h : (l.footprint hash).result = .ok map) :
    (∀ (byte : Int) (d : Detail), map[byte]? = some d → ∃ t, l.resolve? d.type = some t ∧
        d.startByte ≤ byte ∧ byte < d.startByte + t.byteCount) ∧
      (l.StructsStartSlots → ∀ (byte : Int) (d : Detail), map[byte]? = some d →
        d.startByte = d.slot * wordSize + d.offset) := by
  obtain ⟨ls, hls, hmap⟩ := exists_leaves_of_footprint h
  have hleaf (byte : Int) (d : Detail) (hd : map[byte]? = some d) :
      ∃ leaf ∈ ls, leaf.Covers byte ∧ leaf.detail = d :=
    Leaf.exists_leaf_of_last? ((hmap byte).symm.trans hd)
  constructor
  · intro byte d hd
    obtain ⟨leaf, hmem, hcovers, rfl⟩ := hleaf byte d hd
    obtain ⟨t, ht, hcount⟩ := hls.count leaf hmem
    exact ⟨t, ht, hcovers.1, hcount ▸ hcovers.2⟩
  · intro hl byte d hd
    obtain ⟨leaf, hmem, -, rfl⟩ := hleaf byte d hd
    exact hls.coherent hl hl.placed leaf hmem

end Coordinates

/-- A mapping to structs, each with another struct in its second slot. -/
def Layout.households : Layout where
  storage := [⟨"homes", "t_mapping", 3, 0, .null, .null⟩]
  types := [
    ("t_uint8", .elementary "uint8" 1),
    ("t_struct(Pair)1_storage", { TypeInfo.elementary "struct Pair" 32 with
      members := [⟨"a", "t_uint8", 0, 0, .null, .null⟩, ⟨"b", "t_uint8", 0, 2, .null, .null⟩] }),
    ("t_struct(Home)2_storage", { TypeInfo.elementary "struct Home" 64 with
      members := [⟨"floor", "t_uint8", 0, 7, .null, .null⟩,
        ⟨"owners", "t_struct(Pair)1_storage", 1, 0, .null, .null⟩] }),
    ("t_mapping", { TypeInfo.elementary "mapping(uint8 => struct Home)" 32 with
      encoding := .mapping, key := .text "t_uint8", value := .text "t_struct(Home)2_storage" })]

theorem Layout.households_structsStartSlots : households.StructsStartSlots := by
  have hall : ∀ entry ∈ households.types, ∀ m ∈ entry.2.members,
      m.type = "t_uint8" ∨ m.offset = 0 := by decide
  constructor
  · intro v hv _
    obtain rfl := List.mem_singleton.mp hv
    rfl
  · intro id t ht m hm hstruct
    rcases hall _ (Layout.mem_types_of_resolve? ht) m hm with htype | hoffset
    · obtain ⟨number, hnumber, hmembers⟩ := hstruct
      rw [htype] at hnumber
      obtain rfl := Option.some.inj (show some (TypeInfo.elementary "uint8" 1) = _ from hnumber)
      cases hmembers
    · exact hoffset

/-- The second owner is two bytes into the slot after the one that the key leads to. -/
theorem footprint_coordinates_households :
    ∃ map d, (Layout.households.footprint lengthHash).result = .ok map ∧
      map[(65 * 32 + 2 : Int)]? = some d ∧ d.fullLabel = "(Pair owners).b" ∧ d.slot = 65 ∧
      d.startByte = d.slot * wordSize + d.offset := by
  obtain ⟨map, hmap, hwritten⟩ := exists_footprint_of_toBool
    (show Layout.households.leaves lengthHash = .ok _ from rfl) (by decide +kernel)
  have hd : map[(65 * 32 + 2 : Int)]? = some
      ⟨"b", "t_uint8", 65, 2, "(Pair owners).b", "uint8", 2082, some ⟨"owners", "Pair"⟩⟩ :=
    (hwritten _).trans rfl
  exact ⟨map, _, hmap, hd, rfl, rfl,
    (footprint_coordinates hmap).2 Layout.households_structsStartSlots _ _ hd⟩

end UpgradeSafety
