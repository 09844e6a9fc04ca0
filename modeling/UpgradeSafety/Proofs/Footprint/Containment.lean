import Mathlib.Logic.Relation
import UpgradeSafety.Proofs.Footprint.Correspondence

/-! What is stored in what. The storage of a struct has that of its members in it, and the storage of
a container that of its elements (`Layout.Contains`), at any depth (`Layout.Stores`). A variable
comes down to leaves by the types that its own type stores and by no others, so layouts that agree
on these have the same leaves for it (`HasLeaves.congr`); and wherever a type is stored, its leaves
are among those of the variable (`exists_spot_of_stores`). -/
namespace UpgradeSafety

/-! ### Types in types -/

theorem TypeInfo.hasMembers_of_mem {t : TypeInfo} {m : Variable} (h : m ∈ t.members) :
    t.hasMembers = true := by
  simpa [hasMembers] using List.ne_nil_of_mem h

theorem TypeInfo.members_eq_nil {t : TypeInfo} (h : t.hasMembers = false) : t.members = [] := by
  simpa [hasMembers] using h

/-- The storage of a type has storage of another type in it. Arrays of a fixed length lie in place, so
an expansion does not look into them; whether they count is a parameter. -/
inductive Layout.Contains (fixed : Bool) (l : Layout) (id : Text) : Text → Prop where
  | member {t : TypeInfo} {m : Variable} (ht : l.resolve? id = some t) (hm : m ∈ t.members) :
      Contains fixed l id m.type
  | value {t : TypeInfo} {element : Text} (ht : l.resolve? id = some t)
      (hplain : t.hasMembers = false) (henc : t.encoding = .mapping)
      (hvalue : t.value = .text element) : Contains fixed l id element
  | element {t : TypeInfo} {element : Text} (ht : l.resolve? id = some t)
      (hplain : t.hasMembers = false) (henc : t.encoding = .dynamicArray)
      (hbase : t.base = .text element) : Contains fixed l id element
  | inPlace {t : TypeInfo} {element : Text} (hfixed : fixed = true)
      (ht : l.resolve? id = some t) (hplain : t.hasMembers = false) (henc : t.encoding = .inplace)
      (hbase : t.base = .text element) : Contains fixed l id element

/-- The storage of a type has storage of another type in it, at some depth. -/
def Layout.Stores (fixed : Bool) (l : Layout) : Text → Text → Prop :=
  Relation.ReflTransGen (l.Contains fixed)

/-- A plain type stores nothing but itself. -/
theorem Layout.Stores.eq_of_inplace {l : Layout} {id id' : Text} (h : l.Stores false id id')
    {t : TypeInfo} (ht : l.resolve? id = some t) (hm : t.hasMembers = false)
    (henc : t.encoding = .inplace) : id' = id := by
  rcases h.cases_head with rfl | ⟨next, hstep, -⟩
  · rfl
  · cases hstep with
    | member ht' hmember =>
      obtain rfl := Option.some.inj (ht.symm.trans ht')
      exact absurd hmember (TypeInfo.members_eq_nil hm ▸ List.not_mem_nil)
    | value ht' _ henc' | element ht' _ henc' =>
      obtain rfl := Option.some.inj (ht.symm.trans ht')
      cases henc.symm.trans henc'
    | inPlace hfixed => cases hfixed

/-! ### Leaves of single variables -/

section Leaves
variable {hash : Hash} {l : Layout}

theorem HasLeaves.uncons {v : Spot} {rest : List Spot} {ls : List Leaf}
    (h : HasLeaves hash l (v :: rest) ls) :
    ∃ ms ls', HasLeaves hash l [v] ms ∧ HasLeaves hash l rest ls' ∧ ls = ms ++ ls' := by
  cases h with
  | plain ht hlabel hm harray hmapping hrest =>
    exact ⟨_, _, .plain ht hlabel hm harray hmapping .nil, hrest, rfl⟩
  | container ht hlabel hm he hsample hrest =>
    exact ⟨_, _, .container ht hlabel hm he hsample .nil, hrest, (List.append_assoc _ [_] _).symm⟩
  | struct ht hlabel hm hparts hrest =>
    exact ⟨_, _, .struct ht hlabel hm hparts .nil, hrest, by rw [List.append_nil]⟩

/-- The leaves of a struct are those of its members. -/
theorem HasLeaves.parts {v : Spot} {ms : List Leaf} (h : HasLeaves hash l [v] ms) {t : TypeInfo}
    (ht : l.resolve? v.type = some t) (hm : t.hasMembers = true) :
    ∃ typeLabel, Spot.typeLabel v.type t = .ok typeLabel ∧
      HasLeaves hash l (t.members.map (v.member typeLabel)) ms := by
  cases h with
  | plain ht' _ hm' | container ht' _ hm' =>
    obtain rfl := Option.some.inj (ht.symm.trans ht')
    exact absurd (hm'.symm.trans hm) Bool.false_ne_true
  | struct ht' hlabel _ hparts hrest =>
    obtain rfl := Option.some.inj (ht.symm.trans ht')
    cases hrest
    rw [List.append_nil]
    exact ⟨_, hlabel, hparts⟩

/-- A container has the leaves of its example. -/
theorem HasLeaves.sample {v : Spot} {ms : List Leaf} (h : HasLeaves hash l [v] ms) {t : TypeInfo}
    (ht : l.resolve? v.type = some t) (hm : t.hasMembers = false)
    (henc : t.encoding = .dynamicArray ∨ t.encoding = .mapping) :
    ∃ e sample, HasExample hash v t e ∧ HasLeaves hash l [e] sample ∧
      ∀ leaf ∈ sample, leaf ∈ ms := by
  cases h with
  | plain ht' _ _ harray hmapping =>
    obtain rfl := Option.some.inj (ht.symm.trans ht')
    exact (henc.elim harray hmapping).elim
  | container ht' _ _ he hsample =>
    obtain rfl := Option.some.inj (ht.symm.trans ht')
    exact ⟨_, _, he, hsample, fun leaf hleaf => List.mem_append_left _ hleaf⟩
  | struct ht' _ hm' =>
    obtain rfl := Option.some.inj (ht.symm.trans ht')
    exact absurd (hm.symm.trans hm') Bool.false_ne_true

/-- The leaves of a container are those of its example and then its own. -/
theorem HasLeaves.exists_sample {v e : Spot} {ms : List Leaf} (h : HasLeaves hash l [v] ms)
    {t : TypeInfo} (ht : l.resolve? v.type = some t) (hm : t.hasMembers = false)
    (he : HasExample hash v t e) :
    ∃ typeLabel sample, HasLeaves hash l [e] sample ∧ ms = sample ++ [v.leaf typeLabel t] := by
  cases h with
  | plain ht' _ _ harray hmapping =>
    obtain rfl := Option.some.inj (ht.symm.trans ht')
    exact (he.encoding.elim harray hmapping).elim
  | container ht' _ _ he' hsample hrest =>
    obtain rfl := Option.some.inj (ht.symm.trans ht')
    obtain rfl := he.unique he'
    cases hrest
    exact ⟨_, _, hsample, rfl⟩
  | struct ht' _ hm' =>
    obtain rfl := Option.some.inj (ht.symm.trans ht')
    exact absurd (hm.symm.trans hm') Bool.false_ne_true

/-- A variable of a plain type has one leaf. -/
theorem HasLeaves.own {v : Spot} {ms : List Leaf} (h : HasLeaves hash l [v] ms) {t : TypeInfo}
    (ht : l.resolve? v.type = some t) (hm : t.hasMembers = false) (henc : t.encoding = .inplace) :
    ∃ typeLabel, Spot.typeLabel v.type t = .ok typeLabel ∧ ms = [v.leaf typeLabel t] := by
  cases h with
  | plain ht' hlabel _ _ _ hrest =>
    obtain rfl := Option.some.inj (ht.symm.trans ht')
    cases hrest
    exact ⟨_, hlabel, rfl⟩
  | container ht' _ _ he =>
    obtain rfl := Option.some.inj (ht.symm.trans ht')
    rcases he.encoding with henc' | henc' <;> cases henc.symm.trans henc'
  | struct ht' _ hm' =>
    obtain rfl := Option.some.inj (ht.symm.trans ht')
    exact absurd (hm.symm.trans hm') Bool.false_ne_true

/-- A variable that is no struct has a leaf of its own, whatever leaves its example has. -/
theorem HasLeaves.exists_own {v : Spot} {ms : List Leaf} (h : HasLeaves hash l [v] ms)
    {t : TypeInfo} (ht : l.resolve? v.type = some t) (hm : t.hasMembers = false) :
    ∃ typeLabel, Spot.typeLabel v.type t = .ok typeLabel ∧ v.leaf typeLabel t ∈ ms := by
  cases h with
  | plain ht' hlabel =>
    obtain rfl := Option.some.inj (ht.symm.trans ht')
    exact ⟨_, hlabel, List.mem_cons_self⟩
  | container ht' hlabel =>
    obtain rfl := Option.some.inj (ht.symm.trans ht')
    exact ⟨_, hlabel, List.mem_append_right _ List.mem_cons_self⟩
  | struct ht' _ hm' =>
    obtain rfl := Option.some.inj (ht.symm.trans ht')
    exact absurd (hm.symm.trans hm') Bool.false_ne_true

/-- A variable among others has its own leaves among theirs. -/
theorem HasLeaves.of_mem {vs : List Spot} {ls : List Leaf} (h : HasLeaves hash l vs ls) {v : Spot}
    (hv : v ∈ vs) : ∃ ms, HasLeaves hash l [v] ms ∧ ∀ leaf ∈ ms, leaf ∈ ls := by
  induction vs generalizing ls with
  | nil => cases hv
  | cons w rest ih =>
    obtain ⟨ms, ls', hms, hls', rfl⟩ := h.uncons
    rcases List.mem_cons.mp hv with rfl | hv
    · exact ⟨ms, hms, fun leaf hleaf => List.mem_append_left _ hleaf⟩
    · obtain ⟨ns, hns, hin⟩ := ih hls' hv
      exact ⟨ns, hns, fun leaf hleaf => List.mem_append_right _ (hin leaf hleaf)⟩

/-- Each leaf of variables is a leaf of one of them. -/
theorem HasLeaves.exists_hasLeaf {vs : List Variable} {ls : List Leaf}
    (h : HasLeaves hash l (vs.map .ofVariable) ls) {leaf : Leaf} (hleaf : leaf ∈ ls) :
    ∃ v ∈ vs, l.HasLeaf hash v leaf := by
  induction vs generalizing ls with
  | nil =>
    cases h
    cases hleaf
  | cons w rest ih =>
    obtain ⟨ms, ls', hms, hls', rfl⟩ := h.uncons
    rcases List.mem_append.mp hleaf with hleaf | hleaf
    · exact ⟨w, List.mem_cons_self, ms, hms, hleaf⟩
    · obtain ⟨v, hv, hleaf⟩ := ih hls' hleaf
      exact ⟨v, List.mem_cons_of_mem _ hv, hleaf⟩

/-- The leaves of one of some variables are among those of all of them. -/
theorem HasLeaves.mem_of_hasLeaf {vs : List Variable} {ls : List Leaf}
    (h : HasLeaves hash l (vs.map .ofVariable) ls) {v : Variable} (hv : v ∈ vs) {leaf : Leaf}
    (hleaf : l.HasLeaf hash v leaf) : leaf ∈ ls := by
  obtain ⟨ms, hms, hin⟩ := h.of_mem (List.mem_map_of_mem hv)
  obtain ⟨ms', hms', hleaf⟩ := hleaf
  obtain rfl := hms.unique hms'
  exact hin leaf hleaf

/-- A leaf is the leaf of some variable, example or member. -/
theorem HasLeaves.exists_leaf_eq {vs : List Spot} {ls : List Leaf} (h : HasLeaves hash l vs ls) :
    ∀ leaf ∈ ls, ∃ (v : Spot) (typeLabel : Text) (t : TypeInfo), leaf = v.leaf typeLabel t := by
  induction h with
  | nil => nofun
  | plain _ _ _ _ _ _ ih => exact List.forall_mem_cons.mpr ⟨⟨_, _, _, rfl⟩, ih⟩
  | container _ _ _ _ _ _ ihsample ih =>
    exact List.forall_mem_append.mpr ⟨ihsample, List.forall_mem_cons.mpr ⟨⟨_, _, _, rfl⟩, ih⟩⟩
  | struct _ _ _ _ _ ihparts ih => exact List.forall_mem_append.mpr ⟨ihparts, ih⟩

/-- The example of a container is of a type that is stored in it. -/
theorem HasExample.contains {v e : Spot} {t : TypeInfo} (h : HasExample hash v t e)
    (ht : l.resolve? v.type = some t) (hplain : t.hasMembers = false) (fixed : Bool) :
    l.Contains fixed v.type e.type := by
  cases h with
  | array henc hbase => exact .element ht hplain henc hbase
  | mapping henc hvalue => exact .value ht hplain henc hvalue

/-- Layouts that agree on the types that some variables store have the same leaves for them. -/
theorem HasLeaves.congr {l' : Layout} {vs : List Spot} {ls : List Leaf} (h : HasLeaves hash l vs ls)
    (hsame : ∀ v ∈ vs, ∀ id, l.Stores false v.type id → l'.resolve? id = l.resolve? id) :
    HasLeaves hash l' vs ls := by
  induction h with
  | nil => exact .nil
  | plain ht hlabel hm harray hmapping _ ih =>
    obtain ⟨hv, hrest⟩ := List.forall_mem_cons.mp hsame
    exact .plain ((hv _ .refl).trans ht) hlabel hm harray hmapping (ih hrest)
  | container ht hlabel hm he _ _ ihsample ih =>
    obtain ⟨hv, hrest⟩ := List.forall_mem_cons.mp hsame
    refine .container ((hv _ .refl).trans ht) hlabel hm he (ihsample ?_) (ih hrest)
    rw [List.forall_mem_singleton]
    exact fun id hid => hv id (.head (he.contains ht hm false) hid)
  | struct ht hlabel hm _ _ ihparts ih =>
    obtain ⟨hv, hrest⟩ := List.forall_mem_cons.mp hsame
    refine .struct ((hv _ .refl).trans ht) hlabel hm (ihparts ?_) (ih hrest)
    rw [List.forall_mem_map]
    exact fun m hm id hid => hv id (.head (.member ht hm) hid)

/-! ### Leaves of types that are stored -/

/-- What a type has in it, its variable comes down to, and to the same in layouts that agree on the
type. -/
theorem Layout.Contains.exists_spot {l' : Layout} {v : Spot} {id : Text}
    (h : l.Contains false v.type id) (hsame : l'.resolve? v.type = l.resolve? v.type)
    {ms ms' : List Leaf} (hms : HasLeaves hash l [v] ms) (hms' : HasLeaves hash l' [v] ms') :
    ∃ w ns ns', w.type = id ∧ HasLeaves hash l [w] ns ∧ HasLeaves hash l' [w] ns' ∧
      (∀ leaf ∈ ns, leaf ∈ ms) ∧ ∀ leaf ∈ ns', leaf ∈ ms' := by
  cases h with
  | @member t m ht hm =>
    have hmembers := TypeInfo.hasMembers_of_mem hm
    obtain ⟨typeLabel, hlabel, hparts⟩ := hms.parts ht hmembers
    obtain ⟨typeLabel', hlabel', hparts'⟩ := hms'.parts (hsame.trans ht) hmembers
    obtain rfl := Except.ok.inj (hlabel.symm.trans hlabel')
    obtain ⟨ns, hns, hin⟩ := hparts.of_mem (List.mem_map_of_mem hm)
    obtain ⟨ns', hns', hin'⟩ := hparts'.of_mem (List.mem_map_of_mem hm)
    exact ⟨_, ns, ns', rfl, hns, hns', hin, hin'⟩
  | value ht hplain henc hvalue =>
    obtain ⟨e, ns, he, hns, hin⟩ := hms.sample ht hplain (.inr henc)
    obtain ⟨e', ns', he', hns', hin'⟩ := hms'.sample (hsame.trans ht) hplain (.inr henc)
    obtain rfl := he.unique he'
    refine ⟨e, ns, ns', ?_, hns, hns', hin, hin'⟩
    cases he with
    | array henc' => cases henc.symm.trans henc'
    | mapping _ hvalue' => exact Value.text.inj (hvalue'.symm.trans hvalue)
  | element ht hplain henc hbase =>
    obtain ⟨e, ns, he, hns, hin⟩ := hms.sample ht hplain (.inl henc)
    obtain ⟨e', ns', he', hns', hin'⟩ := hms'.sample (hsame.trans ht) hplain (.inl henc)
    obtain rfl := he.unique he'
    refine ⟨e, ns, ns', ?_, hns, hns', hin, hin'⟩
    cases he with
    | array _ hbase' => exact Value.text.inj (hbase'.symm.trans hbase)
    | mapping henc' => cases henc.symm.trans henc'
  | inPlace hfixed => cases hfixed

/-- Wherever a type is stored, at any depth, there is a variable of it, in the same place in layouts
that agree on all other types. -/
theorem exists_spot_of_stores {l' : Layout} {v : Spot} {id : Text} (h : l.Stores false v.type id)
    (hsame : ∀ other, other ≠ id → l'.resolve? other = l.resolve? other) {ms ms' : List Leaf}
    (hms : HasLeaves hash l [v] ms) (hms' : HasLeaves hash l' [v] ms') :
    ∃ w ns ns', w.type = id ∧ HasLeaves hash l [w] ns ∧ HasLeaves hash l' [w] ns' ∧
      (∀ leaf ∈ ns, leaf ∈ ms) ∧ ∀ leaf ∈ ns', leaf ∈ ms' := by
  generalize htype : v.type = start at h
  induction h using Relation.ReflTransGen.head_induction_on generalizing v ms ms' with
  | refl => exact ⟨v, ms, ms', htype, hms, hms', fun _ h => h, fun _ h => h⟩
  | head hstep _ ih =>
    subst htype
    by_cases hreached : v.type = id
    · exact ⟨v, ms, ms', hreached, hms, hms', fun _ h => h, fun _ h => h⟩
    · obtain ⟨u, ns, ns', hu, hns, hns', hin, hin'⟩ :=
        hstep.exists_spot (hsame _ hreached) hms hms'
      obtain ⟨w, ks, ks', hw, hks, hks', hsub, hsub'⟩ := ih hns hns' hu
      exact ⟨w, ks, ks', hw, hks, hks', fun leaf h => hin leaf (hsub leaf h),
        fun leaf h => hin' leaf (hsub' leaf h)⟩

end Leaves

/-! ### Bytes of variables -/

/-- Some of these variables take a byte. -/
def Layout.Takes (hash : Hash) (l : Layout) (vs : List Variable) (byte : Int) : Prop :=
  ∃ v ∈ vs, ∃ leaf, l.HasLeaf hash v leaf ∧ leaf.Covers byte

section Bytes
variable {hash : Hash} {l : Layout} {map : ByteMap} {byte : Int}

/-- What variables take are the bytes of their leaves. -/
theorem HasLeaves.takes_iff {vs : List Variable} {ls : List Leaf}
    (h : HasLeaves hash l (vs.map .ofVariable) ls) :
    l.Takes hash vs byte ↔ ∃ leaf ∈ ls, leaf.Covers byte := by
  constructor
  · intro htakes
    obtain ⟨v, hv, leaf, hleaf, hcovers⟩ := htakes
    exact ⟨leaf, h.mem_of_hasLeaf hv hleaf, hcovers⟩
  · intro hcovered
    obtain ⟨leaf, hleaf, hcovers⟩ := hcovered
    obtain ⟨v, hv, hleaf⟩ := h.exists_hasLeaf hleaf
    exact ⟨v, hv, leaf, hleaf, hcovers⟩

/-- A byte of a footprint is that of a leaf of some variable. -/
theorem exists_hasLeaf_of_footprint (h : (l.footprint hash).result = .ok map) {d : Detail}
    (hd : map[byte]? = some d) :
    ∃ v ∈ l.storage, ∃ leaf, l.HasLeaf hash v leaf ∧ leaf.Covers byte ∧ leaf.detail = d := by
  obtain ⟨ls, hls, hmap⟩ := exists_leaves_of_footprint h
  obtain ⟨leaf, hleaf, hcovers, hdetail⟩ := Leaf.exists_leaf_of_last? ((hmap byte).symm.trans hd)
  obtain ⟨v, hv, hleaf⟩ := hls.exists_hasLeaf hleaf
  exact ⟨v, hv, leaf, hleaf, hcovers, hdetail⟩

/-- Where no leaf lies over another, each has all of its bytes. -/
theorem Layout.LiesApart.getElem?_footprint (hapart : l.LiesApart hash)
    (h : (l.footprint hash).result = .ok map) {v : Variable} (hv : v ∈ l.storage) {leaf : Leaf}
    (hleaf : l.HasLeaf hash v leaf) (hcovers : leaf.Covers byte) :
    map[byte]? = some leaf.detail := by
  obtain ⟨ls, hls, hapart⟩ := hapart
  obtain ⟨ms, hms, hmap⟩ := exists_leaves_of_footprint h
  obtain rfl := hls.unique hms
  rw [hmap byte]
  exact Leaf.last?_of_apart hapart (hls.mem_of_hasLeaf hv hleaf) hcovers

/-- The variables of a layout with a footprint come down to leaves. -/
theorem exists_leaves_of_mem (h : (l.footprint hash).result = .ok map) {v : Variable}
    (hv : v ∈ l.storage) : ∃ ms, HasLeaves hash l [.ofVariable v] ms := by
  obtain ⟨ls, hls, -⟩ := exists_leaves_of_footprint h
  obtain ⟨ms, hms, -⟩ := hls.of_mem (List.mem_map_of_mem hv)
  exact ⟨ms, hms⟩

/-- A variable of a layout with a footprint has the same leaves in a layout that agrees on the types
that it stores. -/
theorem Layout.HasLeaf.of_agree {l' : Layout} (h : (l.footprint hash).result = .ok map)
    {v : Variable} (hv : v ∈ l.storage)
    (hsame : ∀ id, l.Stores false v.type id → l'.resolve? id = l.resolve? id) {leaf : Leaf}
    (hleaf : l'.HasLeaf hash v leaf) : l.HasLeaf hash v leaf := by
  obtain ⟨ms, hms⟩ := exists_leaves_of_mem h hv
  obtain ⟨ms', hms', hleaf⟩ := hleaf
  obtain rfl := (hms.congr (List.forall_mem_singleton.mpr hsame)).unique hms'
  exact ⟨ms, hms, hleaf⟩

/-- Layouts of the same variables that agree on the types that these store have one footprint. -/
theorem getElem?_footprint_of_agree {l' : Layout} {map' : ByteMap}
    (h : (l.footprint hash).result = .ok map) (h' : (l'.footprint hash).result = .ok map')
    (hstorage : l'.storage = l.storage) (hsame : ∀ v ∈ l.storage, ∀ id, l.Stores false v.type id →
      l'.resolve? id = l.resolve? id) (byte : Int) : map'[byte]? = map[byte]? := by
  obtain ⟨ls, hls, hmap⟩ := exists_leaves_of_footprint h
  obtain ⟨ls', hls', hmap'⟩ := exists_leaves_of_footprint h'
  rw [hstorage] at hls'
  obtain rfl := hls'.unique (hls.congr (List.forall_mem_map.mpr hsame))
  rw [hmap byte, hmap' byte]

end Bytes

end UpgradeSafety
