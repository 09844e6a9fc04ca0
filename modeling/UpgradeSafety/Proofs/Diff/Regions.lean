import UpgradeSafety.Proofs.Diff.Agreement
import UpgradeSafety.Proofs.Footprint.Existence

/-! Variables in different regions of storage. The footprint of some variables and some more has the
bytes of both (`exists_footprint_append`). Where neither the variables before nor those after share
a byte with the others, each byte has the finding that it has in its own region, and no finding is
told in two of them, since a detail has its own first byte. So a check of all the variables tells
what the checks of the two regions tell, merged in the order of storage (`Layout.check_append`). -/
namespace UpgradeSafety

section Footprints
variable {hash : Hash} {types : List (Text × TypeInfo)} {vs ws : List Variable} {a b : ByteMap}

/-- Variables and more variables have the leaves of the former and then those of the latter. -/
theorem leaves_append {ls ms : List Leaf} (hls : (Layout.mk vs types).leaves hash = .ok ls)
    (hms : (Layout.mk ws types).leaves hash = .ok ms) :
    (Layout.mk (vs ++ ws) types).leaves hash = .ok (ls ++ ms) := by
  have hsame (us us' : List Variable) (depth : Nat) (v : Spot) :
      leavesOf hash ⟨us', types⟩ depth v = leavesOf hash ⟨us, types⟩ depth v :=
    leavesOf_congr (show ∀ id, (Layout.mk us' types).resolve? id = types.lookup id from fun _ => rfl)
      depth v
  obtain ⟨parts, hparts, rfl⟩ := map_eq_ok_iff.mp hls
  obtain ⟨others, hothers, rfl⟩ := map_eq_ok_iff.mp hms
  refine map_eq_ok_iff.mpr ⟨parts ++ others, mapM_eq_ok_iff.mpr ?_, List.flatten_append⟩
  simp only [hsame vs (vs ++ ws)]
  simp only [hsame vs ws] at hothers
  exact List.rel_append (mapM_eq_ok_iff.mp hparts) (mapM_eq_ok_iff.mp hothers)

/-- Parts that take none of the bytes of a map are laid over it as they are laid over each other. -/
theorem exists_stack_of_disjoint {α : Type} {f : α → Journal Overlap ExpansionFault ByteMap}
    {xs : List α} {map map' top : ByteMap} (h : ByteMap.Stack f map xs top)
    (hmap : ∀ byte, byte ∈ map' ↔ byte ∈ a ∨ byte ∈ map) (hdisjoint : ∀ byte ∈ a, byte ∉ top) :
    ∃ top', ByteMap.Stack f map' xs top' := by
  induction h generalizing map' with
  | nil => exact ⟨map', .nil⟩
  | @cons map part top x rest hpart hfits hrest ih =>
    have hpartDisjoint : ∀ byte ∈ a, byte ∉ part := fun byte hbyte hmem =>
      hdisjoint byte hbyte (hrest.mem_of_mem (ByteMap.mem_union_iff.mpr (.inr hmem)))
    have hfits' : map'.Fits part := by
      intro first hfirst
      have hmem {byte : Int} (hbyte : byte ∈ map') (hpart : byte ∈ part) : byte ∈ map :=
        ((hmap byte).mp hbyte).resolve_left fun ha => hpartDisjoint byte ha hpart
      refine hfits first ⟨hmem hfirst.mem_lower hfirst.mem_upper, hfirst.mem_upper, fun byte hl hu => ?_⟩
      exact hfirst.least byte ((hmap byte).mpr (.inr hl)) hu
    have hmem (byte : Int) : byte ∈ map' ∪ part ↔ byte ∈ a ∨ byte ∈ map ∪ part := by
      rw [ByteMap.mem_union_iff, ByteMap.mem_union_iff, hmap, or_assoc]
    obtain ⟨top', htop'⟩ := ih hmem hdisjoint
    exact ⟨top', .cons hpart hfits' htop'⟩

/-- Variables and more variables that take none of their bytes take the bytes of both. -/
theorem exists_footprint_append (ha : ((Layout.mk vs types).footprint hash).result = .ok a)
    (hb : ((Layout.mk ws types).footprint hash).result = .ok b)
    (hdisjoint : ∀ byte ∈ a, byte ∉ b) :
    ∃ both, ((Layout.mk (vs ++ ws) types).footprint hash).result = .ok both ∧
      ∀ byte : Int, both[byte]? = b[byte]?.or a[byte]? := by
  obtain ⟨ls, hls, hwritten⟩ := exists_leaves_eq_of_footprint ha
  obtain ⟨ms, hms, hwritten'⟩ := exists_leaves_eq_of_footprint hb
  have hsame (us us' : List Variable) : (fun v => expand hash ⟨us, types⟩
      (Layout.mk us types).depth (.ofVariable v)) = fun v => expand hash ⟨us', types⟩
        (Layout.mk us' types).depth (.ofVariable v) :=
    funext fun v => (expand_congr (show ∀ id, (Layout.mk us types).resolve? id =
      (Layout.mk us' types).resolve? id from fun _ => rfl) (types.length + 1) (.ofVariable v))
  have hvs := footprint_eq_ok_iff.mp ha
  have hws := footprint_eq_ok_iff.mp hb
  rw [hsame vs (vs ++ ws)] at hvs
  rw [hsame ws (vs ++ ws)] at hws
  have hempty (byte : Int) : byte ∈ a ↔ byte ∈ a ∨ byte ∈ (∅ : ByteMap) := by simp
  obtain ⟨both, hstack⟩ := exists_stack_of_disjoint hws hempty hdisjoint
  have hboth : ((Layout.mk (vs ++ ws) types).footprint hash).result = .ok both :=
    footprint_eq_ok_iff.mpr (hvs.append hstack)
  obtain ⟨all, hall, hwritten''⟩ := exists_leaves_eq_of_footprint hboth
  obtain rfl := Except.ok.inj (hall.symm.trans (leaves_append hls hms))
  refine ⟨both, hboth, fun byte => ?_⟩
  rw [hwritten'' byte, Leaf.last?_append, hwritten byte, hwritten' byte]

/-- The byte that a detail of a footprint starts with is taken. -/
theorem start_mem_of_footprint {l : Layout} (ha : (l.footprint hash).result = .ok a) {byte : Int}
    {d : Detail} (hd : a[byte]? = some d) : d.startByte ∈ a := by
  obtain ⟨ls, -, hwritten⟩ := exists_leaves_of_footprint ha
  obtain ⟨leaf, hleaf, hcovers, rfl⟩ := Leaf.exists_leaf_of_last? ((hwritten byte).symm.trans hd)
  have hstart : leaf.Covers leaf.detail.startByte := by
    obtain ⟨hle, hlt⟩ := hcovers
    exact Leaf.covers_start (by omega)
  exact (hwritten.mem_iff _).mpr ⟨leaf, hleaf, hstart⟩

end Footprints

/-- What is found of a byte is found of a variable that takes it in the old layout. -/
theorem Finding.exists_reference {exempt : TypeInfo → TypeInfo → Prop} {src cmp : Layout}
    {before after : ByteMap} {checkRemovals : Bool} {byte : Int} {kind : DiffKind}
    {s c : Option Detail} (h : Finding exempt src cmp before after checkRemovals byte kind s c) :
    ∃ d, s = some d ∧ before[byte]? = some d := by
  cases h with
  | changed hs | removed _ hs => exact ⟨_, rfl, hs⟩

namespace Layout

section Regions
variable {hash : Hash} {types types' : List (Text × TypeInfo)} {vs ws vs' ws' : List Variable}
  {a b a' b' : ByteMap}

/-- Each byte has the finding that it has in its own region. -/
theorem finding_append (ha : ((Layout.mk vs types).footprint hash).result = .ok a)
    (hb : ((Layout.mk ws types).footprint hash).result = .ok b)
    (ha' : ((Layout.mk vs' types').footprint hash).result = .ok a')
    (hb' : ((Layout.mk ws' types').footprint hash).result = .ok b')
    (hdisjoint : ∀ byte : Int, byte ∈ a ∨ byte ∈ a' → byte ∉ b ∧ byte ∉ b') {both both' : ByteMap}
    (hboth : ∀ byte : Int, both[byte]? = b[byte]?.or a[byte]?)
    (hboth' : ∀ byte : Int, both'[byte]? = b'[byte]?.or a'[byte]?) (checkRemovals : Bool)
    (byte : Int) (kind : DiffKind) (s c : Option Detail) :
    Finding Comparison.Outright ⟨vs ++ ws, types⟩ ⟨vs' ++ ws', types'⟩ both both' checkRemovals byte
        kind s c ↔
      Finding Comparison.Outright ⟨vs, types⟩ ⟨vs', types'⟩ a a' checkRemovals byte kind s c ∨
        Finding Comparison.Outright ⟨ws, types⟩ ⟨ws', types'⟩ b b' checkRemovals byte kind s c := by
  have halike {us us' : List Variable} {ts : List (Text × TypeInfo)} {map : ByteMap}
      (hmap : ((Layout.mk us ts).footprint hash).result = .ok map) (d : Detail)
      (hd : map[byte]? = some d) : (Layout.mk us ts).LooksAlike (Layout.mk us' ts) d :=
    (settles_of_footprint hmap byte d hd).looksAlike fun _ => rfl
  -- whichever region has the byte, in the old layout or in the new one, the other has it in neither
  by_cases hregion : byte ∈ a ∨ byte ∈ a'
  · obtain ⟨hnot, hnot'⟩ := hdisjoint byte hregion
    have hsrc : both[byte]? = a[byte]? := by
      rw [hboth, ByteMap.getElem?_eq_none hnot, Option.none_or]
    have hcmp : both'[byte]? = a'[byte]? := by
      rw [hboth', ByteMap.getElem?_eq_none hnot', Option.none_or]
    refine (finding_congr hsrc hcmp (halike ha) (halike ha') checkRemovals kind s c).trans
      (or_iff_left fun hfinding => ?_).symm
    obtain ⟨d, -, hd⟩ := hfinding.exists_reference
    exact hnot (ByteMap.mem_of_getElem? hd)
  · obtain ⟨hnot, hnot'⟩ := not_or.mp hregion
    have hsrc : both[byte]? = b[byte]? := by
      rw [hboth, ByteMap.getElem?_eq_none hnot, Option.or_none]
    have hcmp : both'[byte]? = b'[byte]? := by
      rw [hboth', ByteMap.getElem?_eq_none hnot', Option.or_none]
    refine (finding_congr hsrc hcmp (halike hb) (halike hb') checkRemovals kind s c).trans
      (or_iff_right fun hfinding => ?_).symm
    obtain ⟨d, -, hd⟩ := hfinding.exists_reference
    exact hnot (ByteMap.mem_of_getElem? hd)

/-- **Variables that share no byte with the others are checked by themselves: without a chain, a
check of all of them tells what the checks of the two regions tell, merged by location.** -/
theorem check_append (ha : ((Layout.mk vs types).footprint hash).result = .ok a)
    (hb : ((Layout.mk ws types).footprint hash).result = .ok b)
    (ha' : ((Layout.mk vs' types').footprint hash).result = .ok a')
    (hb' : ((Layout.mk ws' types').footprint hash).result = .ok b')
    (hdisjoint : ∀ byte : Int, byte ∈ a ∨ byte ∈ a' → byte ∉ b ∧ byte ∉ b') (checkRemovals : Bool)
    {address : Option Text} {reader : Option Reader}
    (hoff : address = none ∨ address = some [] ∨ reader = none) (workers : Workers) :
    ∃ ds es,
      (check hash ⟨vs, types⟩ ⟨vs', types'⟩ checkRemovals address reader workers).result = .ok ds ∧
      (check hash ⟨ws, types⟩ ⟨ws', types'⟩ checkRemovals address reader workers).result = .ok es ∧
      (check hash ⟨vs ++ ws, types⟩ ⟨vs' ++ ws', types'⟩ checkRemovals address reader
          workers).result = .ok (ds.merge es fun d e => d.location.le e.location) := by
  obtain ⟨both, hmap, hboth⟩ := exists_footprint_append ha hb fun byte hbyte =>
    (hdisjoint byte (.inl hbyte)).1
  obtain ⟨both', hmap', hboth'⟩ := exists_footprint_append ha' hb' fun byte hbyte =>
    (hdisjoint byte (.inr hbyte)).2
  have hsplit := finding_append ha hb ha' hb' hdisjoint hboth hboth' checkRemovals
  obtain ⟨ds, hds, hordered, hmem⟩ := exists_told ha ha' checkRemovals hoff workers
  obtain ⟨es, hes, hordered', hmem'⟩ := exists_told hb hb' checkRemovals hoff workers
  obtain ⟨all, hall, horderedAll, hmemAll⟩ := exists_told hmap hmap' checkRemovals hoff workers
  -- one finding in both regions would be of a detail that starts in both
  have hregions {byte other : Int} {kind kind' : DiffKind} {s c c' : Option Detail}
      (h : Finding Comparison.Outright ⟨vs, types⟩ ⟨vs', types'⟩ a a' checkRemovals byte kind s c)
      (h' : Finding Comparison.Outright ⟨ws, types⟩ ⟨ws', types'⟩ b b' checkRemovals other kind' s
        c') : False := by
    obtain ⟨d, rfl, hd⟩ := h.exists_reference
    obtain ⟨e, heq, he⟩ := h'.exists_reference
    obtain rfl := Option.some.inj heq
    exact (hdisjoint _ (.inl (start_mem_of_footprint ha hd))).1 (start_mem_of_footprint hb he)
  refine ⟨ds, es, hds, hes, hall.trans (congrArg Except.ok ?_)⟩
  refine Diff.eq_merge_of_mem_iff horderedAll hordered hordered' (fun d hd hd' => ?_) fun d => ?_
  · obtain ⟨byte, kind, s, c, hfinding, -, rfl⟩ := (hmem d).mp hd
    obtain ⟨other, kind', s', c', hfinding', -, heq⟩ := (hmem' _).mp hd'
    obtain rfl : s = s' := congrArg Diff.reference heq
    exact hregions hfinding hfinding'
  · rw [hmem, hmem', hmemAll]
    simp only [hsplit]
    constructor
    · intro htold
      obtain ⟨byte, kind, s, c, hfinding | hfinding, hleast, rfl⟩ := htold
      · exact .inl ⟨byte, kind, s, c, hfinding, fun other h => hleast other (.inl h), rfl⟩
      · exact .inr ⟨byte, kind, s, c, hfinding, fun other h => hleast other (.inr h), rfl⟩
    · intro htold
      rcases htold with ⟨byte, kind, s, c, hfinding, hleast, rfl⟩ |
        ⟨byte, kind, s, c, hfinding, hleast, rfl⟩
      · refine ⟨byte, kind, s, c, .inl hfinding, fun other h => ?_, rfl⟩
        exact h.elim (hleast other) fun h => (hregions hfinding h).elim
      · refine ⟨byte, kind, s, c, .inr hfinding, fun other h => ?_, rfl⟩
        exact h.elim (fun h => (hregions h hfinding).elim) (hleast other)

end Regions

/-- Types of one byte. -/
def byteTypes : List (Text × TypeInfo) :=
  [("t_uint8", .elementary "uint8" 1), ("t_bool", .elementary "bool" 1)]

/-- A variable of one byte. -/
def flag (type : Text) (offset : Int) : Variable :=
  ⟨"flag", type, 0, offset, .null, .null⟩

theorem footprint_flag {type : Text} (htype : type = "t_uint8" ∨ type = "t_bool") (offset : Int) :
    ∃ map, ((Layout.mk [flag type offset] byteTypes).footprint lengthHash).result = .ok map ∧
      ∀ byte : Int, byte ∈ map ↔ byte = offset := by
  obtain ⟨typeLabel, hleaves⟩ : ∃ typeLabel,
      (Layout.mk [flag type offset] byteTypes).leaves lengthHash =
        .ok [⟨⟨"flag", type, 0, offset, "flag", typeLabel, 0 * wordSize + offset, none⟩, 1⟩] := by
    rcases htype with rfl | rfl
    · exact ⟨"uint8", rfl⟩
    · exact ⟨"bool", rfl⟩
  have hplain (id : Text) (t : TypeInfo) (_ : (Layout.mk [flag type offset] byteTypes).Uses id)
      (ht : (Layout.mk [flag type offset] byteTypes).resolve? id = some t) : ¬t.DropsExample := by
    rcases mem_types_of_resolve? ht with _ | ⟨_, _ | ⟨_, hnone⟩⟩
    · exact fun h => Bool.false_ne_true h.1
    · exact fun h => Bool.false_ne_true h.1
    · cases hnone
  obtain ⟨map, hmap, hwritten⟩ :=
    exists_footprint_of_apart hleaves hplain (List.pairwise_singleton _ _)
  refine ⟨map, hmap, fun byte => (hwritten.mem_iff byte).trans ?_⟩
  simp only [List.mem_singleton, exists_eq_left, Leaf.Covers]
  omega

/-- Two variables of one name are retyped alike, and both changes are told. -/
theorem check_append_flags : ∃ ds es,
    (check lengthHash ⟨[flag "t_uint8" 0], byteTypes⟩ ⟨[flag "t_bool" 0], byteTypes⟩ true none none
      (.inOrder 1)).result = .ok ds ∧
    (check lengthHash ⟨[flag "t_uint8" 1], byteTypes⟩ ⟨[flag "t_bool" 1], byteTypes⟩ true none none
      (.inOrder 1)).result = .ok es ∧
    (check lengthHash ⟨[flag "t_uint8" 0] ++ [flag "t_uint8" 1], byteTypes⟩
      ⟨[flag "t_bool" 0] ++ [flag "t_bool" 1], byteTypes⟩ true none none (.inOrder 1)).result =
        .ok (ds.merge es fun d e => d.location.le e.location) := by
  obtain ⟨a, ha, hbytes⟩ := footprint_flag (.inl rfl) 0
  obtain ⟨a', ha', hbytes'⟩ := footprint_flag (.inr rfl) 0
  obtain ⟨b, hb, hothers⟩ := footprint_flag (.inl rfl) 1
  obtain ⟨b', hb', hothers'⟩ := footprint_flag (.inr rfl) 1
  refine check_append ha hb ha' hb' (fun byte hbyte => ?_) true (.inl rfl) (.inOrder 1)
  rw [hbytes, hbytes'] at hbyte
  rw [hothers, hothers']
  omega

end Layout

end UpgradeSafety
