import UpgradeSafety.Proofs.Diff.Check
import UpgradeSafety.Proofs.Footprint.Containment

/-! A member of a struct that gets another type of its size (`Retyping`). Wherever a layout stores
the struct, in a struct, behind a mapping or in a dynamic array and at any depth, the bytes of the
member are laid out in both layouts, so a check tells the new type (`check_tells_retyped_member`).
Arrays of a fixed length are not laid out element by element: what changes in the types of their
elements only is not told (`check_eq_nil_of_agree`). -/
namespace UpgradeSafety

/-- A type that is laid out in place, in so many bytes and without members. -/
structure TypeInfo.PlainOf (t : TypeInfo) (size : Int) : Prop where
  encoding : t.encoding = .inplace
  hasMembers : t.hasMembers = false
  size : t.size = some size

theorem TypeInfo.PlainOf.byteCount {t : TypeInfo} {size : Int} (h : t.PlainOf size)
    (hsize : 1 ≤ size) : t.byteCount = size := by
  rw [TypeInfo.byteCount, h.size]
  exact if_neg (by omega)

/-- A new type for one member of a struct. -/
structure Retyping where
  struct : Text
  index : Nat
  type : Text

namespace Retyping

/-- The member under the new type. -/
def retype (r : Retyping) (m : Variable) : Variable :=
  { m with type := r.type }

/-- The struct with the member under the new type. -/
def retypeStruct (r : Retyping) (t : TypeInfo) : TypeInfo :=
  { t with members := t.members.modify r.index r.retype }

/-- The layout in which the member has its new type and all else stays as it is. -/
def apply (r : Retyping) (l : Layout) : Layout :=
  { l with types := l.types.map fun (id, t) =>
      (id, if id = r.struct then r.retypeStruct t else t) }

section Types
variable {r : Retyping} {l : Layout} {id : Text} {t : TypeInfo}

theorem storage_apply (r : Retyping) (l : Layout) : (r.apply l).storage = l.storage := rfl

theorem resolve?_apply (r : Retyping) (l : Layout) (id : Text) :
    (r.apply l).resolve? id =
      (l.resolve? id).map fun t => if id = r.struct then r.retypeStruct t else t :=
  lookup_map_entries (fun id t => if id = r.struct then r.retypeStruct t else t) fun _ _ h => h

theorem resolve?_apply_struct (h : l.resolve? r.struct = some t) :
    (r.apply l).resolve? r.struct = some (r.retypeStruct t) := by
  rw [resolve?_apply, h, Option.map_some, if_pos rfl]

theorem resolve?_apply_of_ne (h : id ≠ r.struct) : (r.apply l).resolve? id = l.resolve? id := by
  rw [resolve?_apply]
  simp only [if_neg h, Option.map_id']

theorem hasMembers_retypeStruct : (r.retypeStruct t).hasMembers = t.hasMembers := by
  refine congrArg not (Bool.eq_iff_iff.mpr ?_)
  simp only [retypeStruct, List.isEmpty_iff_length_eq_zero, List.length_modify]

end Types

/-- The bytes of the member mean something else under the new type: both types are plain and of one
size, differ in more than numbers, and are not both those of addresses. -/
structure Reinterprets (r : Retyping) (l : Layout) (m : Variable) (old new : TypeInfo)
    (size : Int) : Prop where
  member : ∃ t, l.resolve? r.struct = some t ∧ t.members[r.index]? = some m
  label : m.label ≠ gapLabel
  old : l.resolve? m.type = some old ∧ old.PlainOf size
  new : l.resolve? r.type = some new ∧ new.PlainOf size
  size : 1 ≤ size
  type : TypeId.strip r.type ≠ TypeId.strip m.type
  addresses : ¬(TypeId.isAddressLike m.type = true ∧ TypeId.isAddressLike r.type = true)

/-- The leaf of the member under both types. -/
structure Leaves (r : Retyping) (m : Variable) (size : Int) (a b : Leaf) : Prop where
  aligned : a.Aligned b
  count : a.count = size
  types : a.detail.type = m.type ∧ b.detail.type = r.type
  labels : a.detail.label = m.label ∧ b.detail.label = m.label
  fullLabel : b.detail.fullLabel = a.detail.fullLabel

section Retyped
variable {hash : Hash} {r : Retyping} {l : Layout} {m : Variable} {old new : TypeInfo} {size : Int}

/-- A plain type is not that of the struct. -/
theorem Reinterprets.resolve?_plain (h : r.Reinterprets l m old new size) {id : Text}
    {t : TypeInfo} (ht : l.resolve? id = some t) (hm : t.hasMembers = false) :
    (r.apply l).resolve? id = some t := by
  obtain ⟨struct, hstruct, hmember⟩ := h.member
  rw [resolve?_apply_of_ne, ht]
  rintro rfl
  obtain rfl := Option.some.inj (ht.symm.trans hstruct)
  exact absurd (List.mem_of_getElem? hmember) (TypeInfo.members_eq_nil hm ▸ List.not_mem_nil)

/-- The difference that the two types make is told. -/
theorem Reinterprets.table (h : r.Reinterprets l m old new size) {a b : Leaf}
    (hab : r.Leaves m size a b) {exempt : TypeInfo → TypeInfo → Prop} :
    Comparison.Table exempt l (r.apply l) a.detail b.detail .variableType := by
  obtain ⟨ha, hb⟩ := hab.types
  obtain ⟨hnew, hplain⟩ := h.new
  refine .retyped (fun hgap => ?_) hab.fullLabel ?_ fun hfits => ?_
  · rw [Comparison.Reserves, hab.labels.1, hab.labels.2] at hgap
    exact hgap.elim h.label h.label
  · rw [ha, hb]
    exact h.type
  · obtain ⟨st, ct, -, hc, hsuits⟩ := hfits
    rw [hb, h.resolve?_plain hnew hplain.hasMembers] at hc
    obtain rfl := Option.some.inj hc
    cases hsuits with
    | members hm => exact absurd (hplain.hasMembers.symm.trans hm) Bool.false_ne_true
    | mapping _ henc | array _ henc => cases hplain.encoding.symm.trans henc
    | addresses _ hs hc => exact h.addresses ⟨ha ▸ hs, hb ▸ hc⟩

/-- Where the struct is stored, its member has a leaf under both types. -/
theorem Reinterprets.exists_leaves (h : r.Reinterprets l m old new size) {v : Spot}
    (hstores : l.Stores false v.type r.struct) {ls ls' : List Leaf} (hls : HasLeaves hash l [v] ls)
    (hls' : HasLeaves hash (r.apply l) [v] ls') :
    (∃ a ∈ ls, ∃ b ∈ ls', r.Leaves m size a b) ∧
      ∃ typeLabel, Spot.typeLabel r.type new = .ok typeLabel := by
  obtain ⟨w, ms, ms', hw, hms, hms', hin, hin'⟩ := exists_spot_of_stores hstores
    (fun id hid => resolve?_apply_of_ne hid) hls hls'
  obtain ⟨struct, hstruct, hmember⟩ := h.member
  have hmem := List.mem_of_getElem? hmember
  have hmem' : r.retype m ∈ (r.retypeStruct struct).members := by
    refine List.mem_of_getElem? (i := r.index) ?_
    rw [retypeStruct, List.getElem?_modify_eq, hmember]
    rfl
  obtain ⟨typeLabel, hlabel, hparts⟩ := hms.parts (hw ▸ hstruct) (TypeInfo.hasMembers_of_mem hmem)
  obtain ⟨typeLabel', hlabel', hparts'⟩ := hms'.parts (hw ▸ resolve?_apply_struct hstruct)
    (TypeInfo.hasMembers_of_mem hmem')
  obtain rfl := Except.ok.inj (hlabel'.symm.trans (typeLabel_of_label rfl hlabel))
  -- the member itself, in both layouts
  obtain ⟨hold, hplain⟩ := h.old
  obtain ⟨hnew, hplain'⟩ := h.new
  obtain ⟨ns, hns, hsub⟩ := hparts.of_mem (List.mem_map_of_mem hmem)
  obtain ⟨ns', hns', hsub'⟩ := hparts'.of_mem (List.mem_map_of_mem hmem')
  obtain ⟨oldLabel, -, rfl⟩ := hns.own hold hplain.hasMembers hplain.encoding
  obtain ⟨newLabel, hnewLabel, rfl⟩ := hns'.own (h.resolve?_plain hnew hplain'.hasMembers)
    hplain'.hasMembers hplain'.encoding
  have hcount := hplain.byteCount h.size
  have hcount' := hplain'.byteCount h.size
  exact ⟨⟨_, hin _ (hsub _ List.mem_cons_self), _, hin' _ (hsub' _ List.mem_cons_self),
    ⟨rfl, hcount'.trans hcount.symm⟩, hcount, ⟨rfl, rfl⟩, ⟨rfl, rfl⟩, rfl⟩, newLabel, hnewLabel⟩

end Retyped

/-! ### The leaves of both layouts -/

/-- A variable, and itself or, for the member, itself under the new type. -/
inductive Follows (r : Retyping) (m : Variable) : Spot → Spot → Prop where
  | same (v : Spot) : Follows r m v v
  | retyped (v : Spot) (htype : v.type = m.type) : Follows r m v { v with type := r.type }

section Leaves
variable {hash : Hash} {r : Retyping} {l : Layout} {m : Variable} {old new : TypeInfo} {size : Int}

theorem forall₂_modify {α : Type} {R : α → α → Prop} {f : α → α} (hrefl : ∀ x, R x x) {xs : List α}
    {i : Nat} (h : ∀ x, xs[i]? = some x → R x (f x)) : List.Forall₂ R xs (xs.modify i f) := by
  induction xs generalizing i with
  | nil =>
    rw [List.modify_nil]
    exact .nil
  | cons x rest ih =>
    cases i with
    | zero => exact .cons (h x rfl) (List.forall₂_same.mpr fun y _ => hrefl y)
    | succ i => exact .cons (hrefl x) (ih h)

/-- The struct and itself with the new type of its member. -/
theorem Reinterprets.counterparts_struct (h : r.Reinterprets l m old new size) (v : Spot)
    {t : TypeInfo} (ht : l.resolve? r.struct = some t) :
    Counterparts hash (r.Follows m) Leaf.Aligned v v t (r.retypeStruct t) := by
  refine ⟨rfl, hasMembers_retypeStruct, fun e he hne => ⟨e, ?_, hne, .same e⟩, fun typeLabel hlabel =>
    ⟨typeLabel, typeLabel_of_label rfl hlabel, ⟨rfl, rfl⟩, ?_⟩⟩
  · cases he with
    | array henc hbase hslot => exact .array henc hbase hslot
    | mapping henc hvalue hkey hslot => exact .mapping henc hvalue hkey hslot
  · refine forall₂_modify (fun x => .same _) fun x hx => ?_
    obtain ⟨t', ht', hmember⟩ := h.member
    obtain rfl := Option.some.inj (ht.symm.trans ht')
    obtain rfl := Option.some.inj (hx.symm.trans hmember)
    exact .retyped (v.member typeLabel x) rfl

/-- A variable of the old type and itself under the new one. -/
theorem counterparts_plain {R : Spot → Spot → Prop} (hsize : 1 ≤ size) (hold : old.PlainOf size)
    (hnew : new.PlainOf size) {type typeLabel : Text}
    (hlabel : Spot.typeLabel type new = .ok typeLabel) (v : Spot) :
    Counterparts hash R Leaf.Aligned v { v with type := type } old new := by
  refine ⟨hnew.encoding.trans hold.encoding.symm, hnew.hasMembers.trans hold.hasMembers.symm,
    fun e he _ => ?_, fun _ _ => ⟨typeLabel, hlabel, ⟨rfl, ?_⟩, ?_⟩⟩
  · rcases he.encoding with henc | henc <;> cases hold.encoding.symm.trans henc
  · exact (hnew.byteCount hsize).trans (hold.byteCount hsize).symm
  · rw [TypeInfo.members_eq_nil hold.hasMembers, TypeInfo.members_eq_nil hnew.hasMembers]
    exact .nil

/-- A variable and itself, of a type that stays as it is. -/
theorem counterparts_same (v : Spot) (t : TypeInfo) :
    Counterparts hash (r.Follows m) Leaf.Aligned v v t t :=
  ⟨rfl, rfl, fun e he hne => ⟨e, he, hne, .same e⟩, fun typeLabel hlabel =>
    ⟨typeLabel, hlabel, ⟨rfl, rfl⟩, List.forall₂_same.mpr fun _ _ => .same _⟩⟩

/-- The leaves of both layouts take the same bytes, one by one. -/
theorem Reinterprets.exists_aligned (h : r.Reinterprets l m old new size)
    (hlabel : ∃ typeLabel, Spot.typeLabel r.type new = .ok typeLabel) {ls : List Leaf}
    (hls : l.leaves hash = .ok ls) :
    ∃ ls', (r.apply l).leaves hash = .ok ls' ∧ List.Forall₂ Leaf.Aligned ls ls' := by
  have hdepth : (r.apply l).depth = l.depth := by simp [Layout.depth, apply]
  refine exists_leaves_of_corresponds (l := l) (S := Eq) (List.forall₂_same.mpr fun _ _ => rfl) ?_ hls
  rintro v _ rfl
  rw [hdepth]
  refine corresponds_of_counterparts (R := r.Follows m) (fun _ _ => id) (fun w w' t hw ht => ?_)
    (.same _)
  cases hw with
  | same =>
    by_cases hid : w.type = r.struct
    · rw [hid] at ht ⊢
      exact ⟨_, resolve?_apply_struct ht, h.counterparts_struct w ht⟩
    · exact ⟨t, (resolve?_apply_of_ne hid).trans ht, counterparts_same w t⟩
  | retyped htype =>
    obtain ⟨hold, hplain⟩ := h.old
    obtain ⟨hnew, hplain'⟩ := h.new
    rw [htype, hold] at ht
    obtain rfl := Option.some.inj ht
    obtain ⟨typeLabel, hlabel⟩ := hlabel
    exact ⟨new, h.resolve?_plain hnew hplain'.hasMembers,
      counterparts_plain h.size hplain hplain' hlabel w⟩

/-- With the new type, too, no two leaves take one byte. -/
theorem Reinterprets.liesApart (h : r.Reinterprets l m old new size)
    (hlabel : ∃ typeLabel, Spot.typeLabel r.type new = .ok typeLabel) {before : ByteMap}
    (hbefore : (l.footprint hash).result = .ok before) (hapart : l.LiesApart hash) :
    (r.apply l).LiesApart hash := by
  obtain ⟨ls, hls, -⟩ := exists_leaves_eq_of_footprint hbefore
  obtain ⟨ls', hls', hall⟩ := h.exists_aligned hlabel hls
  exact hapart.of_aligned hls hls' hall fun _ _ => id

end Leaves

end Retyping

/-! ### The check -/

namespace Layout
variable {hash : Hash} {l : Layout} {before after : ByteMap}

/-- **A member that gets another type of its size is told wherever the struct is stored, unless only
arrays of a fixed length lead to it.** -/
theorem check_tells_retyped_member {r : Retyping} {m : Variable} {old new : TypeInfo} {size : Int}
    (h : r.Reinterprets l m old new size) (hapart : l.LiesApart hash) {v : Variable}
    (hv : v ∈ l.storage) (hstores : l.Stores false v.type r.struct)
    (hbefore : (l.footprint hash).result = .ok before)
    (hafter : ((r.apply l).footprint hash).result = .ok after) (checkRemovals : Bool)
    {address : Option Text} {reader : Option Reader}
    (hoff : address = none ∨ address = some [] ∨ reader = none) (workers : Workers) :
    ∃ ds, (check hash l (r.apply l) checkRemovals address reader workers).result = .ok ds ∧
      ∃ d ∈ ds, d.kind = .variableType ∧ ∃ s c, d.reference = some s ∧ d.candidate = some c ∧
        s.label = m.label ∧ s.type = m.type ∧ c.type = r.type := by
  -- the leaf of the member under both types
  obtain ⟨ms, hms⟩ := exists_leaves_of_mem hbefore hv
  obtain ⟨ms', hms'⟩ := exists_leaves_of_mem hafter hv
  obtain ⟨⟨a, ha, b, hb, hab⟩, hlabel⟩ := h.exists_leaves hstores hms hms'
  -- no other leaf takes its bytes, in either layout
  have hapart' := h.liesApart hlabel hbefore hapart
  have hstart := Leaf.covers_start (hab.count ▸ h.size)
  have hs := hapart.getElem?_footprint hbefore hv ⟨ms, hms, ha⟩ hstart
  have hc := hapart'.getElem?_footprint hafter hv ⟨ms', hms', hb⟩
    ((hab.aligned.covers_iff _).mpr hstart)
  obtain ⟨found, hcomplete, -, -, hcheck⟩ := exists_check hbefore hafter checkRemovals
  obtain ⟨d, hd, hkind, href, hcand⟩ :=
    (hcomplete.told _ _ _).mpr ⟨_, .changed hs hc (h.table hab)⟩
  exact ⟨found.diffs, result_of_unasked hoff (hcheck address reader workers).1, d, hd, hkind,
    _, _, href, hcand, hab.labels.1, hab.types.1, hab.types.2⟩

/-- A struct of two numbers, and a variable of a type that may have the struct in it. -/
def pairsIn (containers : List (Text × TypeInfo)) (type : Text) : Layout where
  storage := [⟨"x", type, 0, 0, .null, .null⟩]
  types :=
    ("t_uint128", .elementary "uint128" 16) ::
    ("t_int128", .elementary "int128" 16) ::
    ("t_struct(Pair)1_storage", { TypeInfo.elementary "struct Pair" 32 with members :=
      [⟨"a", "t_uint128", 0, 0, .null, .null⟩, ⟨"b", "t_uint128", 0, 16, .null, .null⟩] }) ::
    containers

/-- The first number has got a sign. -/
def signed : Retyping :=
  ⟨"t_struct(Pair)1_storage", 0, "t_int128"⟩

theorem signed_reinterprets (containers : List (Text × TypeInfo)) (type : Text) :
    signed.Reinterprets (pairsIn containers type) ⟨"a", "t_uint128", 0, 0, .null, .null⟩
      (.elementary "uint128" 16) (.elementary "int128" 16) 16 where
  member := ⟨_, rfl, rfl⟩
  label := by decide
  old := ⟨rfl, rfl, rfl, rfl⟩
  new := ⟨rfl, rfl, rfl, rfl⟩
  size := by decide
  type := by decide +kernel
  addresses := by decide +kernel

/-- Arrays of structs behind a mapping. -/
def pairLists : Layout :=
  pairsIn [
    ("t_mapping", { TypeInfo.elementary "mapping(uint128 => struct Pair[])" 32 with
      encoding := .mapping, key := .text "t_uint128", value := .text "t_array" }),
    ("t_array", { TypeInfo.elementary "struct Pair[]" 32 with
      encoding := .dynamicArray, base := .text "t_struct(Pair)1_storage" })] "t_mapping"

/-- The new type is told of the example of the array in the example of the mapping. -/
theorem check_tells_retyped_member_deep :
    ∃ ds, (check lengthHash pairLists (signed.apply pairLists) false none none
        (.inOrder 1)).result = .ok ds ∧
      ∃ d ∈ ds, d.kind = .variableType ∧ ∃ s c, d.reference = some s ∧ d.candidate = some c ∧
        s.label = "a" ∧ s.type = "t_uint128" ∧ c.type = "t_int128" := by
  obtain ⟨before, hbefore, -⟩ := exists_footprint_of_toBool
    (show pairLists.leaves lengthHash = .ok _ from rfl) (by decide +kernel)
  obtain ⟨after, hafter, -⟩ := exists_footprint_of_toBool
    (show (signed.apply pairLists).leaves lengthHash = .ok _ from rfl) (by decide +kernel)
  have hapart : pairLists.LiesApart lengthHash := by
    refine ⟨_, hasLeaves_of_leaves (show pairLists.leaves lengthHash = .ok _ from rfl), ?_⟩
    refine List.Pairwise.imp Leaf.apart_of_le ?_
    decide
  have hstores : pairLists.Stores false "t_mapping" signed.struct :=
    .head (.value rfl rfl rfl rfl) (.single (.element rfl rfl rfl rfl))
  exact check_tells_retyped_member (signed_reinterprets _ _) hapart List.mem_cons_self hstores hbefore
    hafter false (.inl rfl) (.inOrder 1)

/-- What changes only in types that no variable comes down to is not told. -/
theorem check_eq_nil_of_agree {l' : Layout} (hstorage : l'.storage = l.storage)
    (hsame : ∀ v ∈ l.storage, ∀ id, l.Stores false v.type id → l'.resolve? id = l.resolve? id)
    (hbefore : (l.footprint hash).result = .ok before)
    (hafter : (l'.footprint hash).result = .ok after) (checkRemovals : Bool)
    {address : Option Text} {reader : Option Reader}
    (hoff : address = none ∨ address = some [] ∨ reader = none) (workers : Workers) :
    (check hash l l' checkRemovals address reader workers).result = .ok [] := by
  have hbytes := getElem?_footprint_of_agree hbefore hafter hstorage hsame
  refine check_eq_nil hbefore hafter (fun byte kind s c hfinding => ?_) hoff workers
  cases hfinding with
  | changed hs hc htable =>
    obtain rfl := Option.some.inj (hs.symm.trans ((hbytes byte).symm.trans hc))
    exact Comparison.not_table_of_sameVariable (Comparison.sameVariable_refl _) htable
  | removed _ hs hc => exact hc (ByteMap.mem_of_getElem? ((hbytes byte).trans hs))

/-- An array of two structs, in place. -/
def pairOfPairs : Layout :=
  pairsIn [("t_array(t_struct(Pair)1_storage)2_storage",
    { TypeInfo.elementary "struct Pair[2]" 64 with base := .text "t_struct(Pair)1_storage" })]
    "t_array(t_struct(Pair)1_storage)2_storage"

/-- In an array of a fixed length the new type is not told. -/
theorem retyped_in_fixed_array :
    ∃ m old new size, signed.Reinterprets pairOfPairs m old new size ∧
      pairOfPairs.LiesApart Keccak.digest ∧
      (∃ v ∈ pairOfPairs.storage, v.label ≠ gapLabel ∧
        pairOfPairs.Stores true v.type signed.struct) ∧
      (∃ before, (pairOfPairs.footprint Keccak.digest).result = .ok before) ∧
      (∃ after, ((signed.apply pairOfPairs).footprint Keccak.digest).result = .ok after) ∧
      (check Keccak.digest pairOfPairs (signed.apply pairOfPairs) false none none
        (.inOrder 1)).result = .ok [] := by
  obtain ⟨before, hbefore⟩ := exists_ok_of_toBool
    (show (pairOfPairs.footprint Keccak.digest).result.toBool = true by decide +kernel)
  obtain ⟨after, hafter⟩ := exists_ok_of_toBool
    (show ((signed.apply pairOfPairs).footprint Keccak.digest).result.toBool = true by
      decide +kernel)
  have hapart : pairOfPairs.LiesApart Keccak.digest :=
    ⟨_, hasLeaves_of_leaves (show pairOfPairs.leaves Keccak.digest = .ok _ from rfl),
      List.pairwise_singleton _ _⟩
  have hstores : pairOfPairs.Stores true "t_array(t_struct(Pair)1_storage)2_storage"
      signed.struct := .single (.inPlace rfl rfl rfl rfl rfl)
  refine ⟨_, _, _, _, signed_reinterprets _ _, hapart, ⟨_, List.mem_cons_self, by decide, hstores⟩,
    ⟨before, hbefore⟩, ⟨after, hafter⟩, ?_⟩
  refine check_eq_nil_of_agree (Retyping.storage_apply _ _) ?_ hbefore hafter false (.inl rfl) _
  -- an expansion comes down to the array itself, and the array has not changed
  refine List.forall_mem_singleton.mpr fun id hid => ?_
  obtain rfl := hid.eq_of_inplace (show pairOfPairs.resolve?
    "t_array(t_struct(Pair)1_storage)2_storage" = some _ from rfl) rfl rfl
  rfl

end Layout

end UpgradeSafety
