import UpgradeSafety.Proofs.Diff.Check
import UpgradeSafety.Proofs.Footprint.Containment

/-! Two variables of one type that exchange their places. Where the variables are no structs, each
finds the other's name on its bytes, and a check tells one of the names at least
(`Layout.exists_finding_exchange`). The bytes of structs go by the names of their members, and these
are the same in both, so structs that exchange their places pass as structs with other names, and
a check tells nothing (`Layout.check_renamed_structs`). There is no third case
(`Layout.check_exchanged`). -/
namespace UpgradeSafety

/-! ### The members of a struct under another name -/

/-- A leaf that has kept its bytes, its type and its label; its full label may be another one. -/
structure Leaf.Kept (a b : Leaf) : Prop where
  aligned : a.Aligned b
  type : b.detail.type = a.detail.type
  label : b.detail.label = a.detail.label

theorem Leaf.Kept.refl (a : Leaf) : a.Kept a := ⟨⟨rfl, rfl⟩, rfl, rfl⟩

/-- What is in a struct, and the same in a struct of another name. -/
def Spot.Reparented (v v' : Spot) : Prop :=
  ∃ p p', v.parent = some p ∧ v' = { v with parent := some p' }

section Reparented
variable {hash : Hash} {l : Layout}

theorem HasExample.reparented {v v' e : Spot} {t : TypeInfo} (h : HasExample hash v t e)
    (hv : v.Reparented v') : ∃ e', HasExample hash v' t e' ∧ e.Reparented e' := by
  obtain ⟨p, p', hparent, rfl⟩ := hv
  cases h with
  | array henc hbase hslot => exact ⟨_, .array henc hbase hslot, p, p', hparent, rfl⟩
  | mapping henc hvalue hkey hslot =>
    exact ⟨_, .mapping henc hvalue hkey hslot, p, p', hparent, rfl⟩

/-- The name of a struct is in the full labels of what it has in it, and nowhere else. -/
theorem HasLeaves.reparented {vs vs' : List Spot} {ls : List Leaf} (h : HasLeaves hash l vs ls)
    (hvs : List.Forall₂ Spot.Reparented vs vs') :
    ∃ ls', HasLeaves hash l vs' ls' ∧ List.Forall₂ Leaf.Kept ls ls' := by
  induction h generalizing vs' with
  | nil =>
    cases hvs
    exact ⟨[], .nil, .nil⟩
  | plain ht hlabel hm harray hmapping _ ih =>
    obtain ⟨v', rest', ⟨p, p', -, rfl⟩, hrest, rfl⟩ := List.forall₂_cons_left_iff.mp hvs
    obtain ⟨ls', hls', hkept⟩ := ih hrest
    exact ⟨_, .plain ht hlabel hm harray hmapping hls', .cons ⟨⟨rfl, rfl⟩, rfl, rfl⟩ hkept⟩
  | container ht hlabel hm he _ _ ihsample ih =>
    obtain ⟨v', rest', hv, hrest, rfl⟩ := List.forall₂_cons_left_iff.mp hvs
    obtain ⟨e', he', hexample⟩ := he.reparented hv
    obtain ⟨sample', hsample', hsamples⟩ := ihsample (.cons hexample .nil)
    obtain ⟨ls', hls', hkept⟩ := ih hrest
    obtain ⟨p, p', -, rfl⟩ := hv
    exact ⟨_, .container ht hlabel hm he' hsample' hls',
      List.rel_append hsamples (.cons ⟨⟨rfl, rfl⟩, rfl, rfl⟩ hkept)⟩
  | @struct v t typeLabel _ _ _ ht hlabel hm _ _ ihparts ih =>
    obtain ⟨v', rest', ⟨p, p', -, rfl⟩, hrest, rfl⟩ := List.forall₂_cons_left_iff.mp hvs
    -- the members go by the label of the inner struct, which is no other one
    have hmembers : List.Forall₂ Spot.Reparented (t.members.map (v.member typeLabel))
        (t.members.map (({ v with parent := some p' } : Spot).member typeLabel)) := by
      rw [List.forall₂_map_left_iff, List.forall₂_map_right_iff, List.forall₂_same]
      exact fun m _ => ⟨⟨v.label, typeLabel⟩, ⟨v.label, typeLabel⟩, rfl, rfl⟩
    obtain ⟨parts', hparts', hall⟩ := ihparts hmembers
    obtain ⟨ls', hls', hkept⟩ := ih hrest
    exact ⟨_, .struct ht hlabel hm hparts' hls', List.rel_append hall hkept⟩

end Reparented

/-! ### Variables in the place of others -/

/-- Another variable of one type stands in the place of a variable, under the same name unless the
type is that of a struct. -/
structure Layout.StandsFor (l : Layout) (v v' : Variable) : Prop where
  type : v'.type = v.type
  slot : v'.slot = v.slot
  offset : v'.offset = v.offset
  name : v'.label = v.label ∨ ∃ t, l.resolve? v.type = some t ∧ t.hasMembers = true

namespace Layout
variable {hash : Hash} {l l' : Layout} {before after : ByteMap}

theorem StandsFor.refl (l : Layout) (v : Variable) : l.StandsFor v v :=
  ⟨rfl, rfl, rfl, .inl rfl⟩

theorem StandsFor.symm {v v' : Variable} (h : l.StandsFor v v') : l.StandsFor v' v := by
  refine ⟨h.type.symm, h.slot.symm, h.offset.symm, h.name.imp Eq.symm ?_⟩
  rw [h.type]
  exact id

theorem StandsFor.ofVariable_eq {v v' : Variable} (h : l.StandsFor v v') :
    Spot.ofVariable v' = { Spot.ofVariable v with label := v'.label } := by
  simp only [Spot.ofVariable, h.type, h.slot, h.offset]

/-- Layouts with one table of types have the same leaves for a variable. -/
theorem HasLeaf.of_types (h : l'.types = l.types) {v : Variable} {leaf : Leaf}
    (hleaf : l.HasLeaf hash v leaf) : l'.HasLeaf hash v leaf := by
  obtain ⟨ms, hms, hleaf⟩ := hleaf
  exact ⟨ms, hms.congr fun _ _ id _ => by rw [resolve?, resolve?, h], hleaf⟩

/-- What stands in the place of a variable has its leaves, with their types and their labels. -/
theorem HasLeaf.exists_kept {v v' : Variable} (h : l.StandsFor v v') {leaf : Leaf}
    (hleaf : l.HasLeaf hash v leaf) : ∃ leaf', l.HasLeaf hash v' leaf' ∧ leaf.Kept leaf' := by
  obtain ⟨ms, hms, hleaf⟩ := hleaf
  rcases h.name with hname | ⟨t, ht, hm⟩
  · have hsame : Spot.ofVariable v' = Spot.ofVariable v := by
      rw [h.ofVariable_eq, hname]
      rfl
    exact ⟨leaf, ⟨ms, hsame ▸ hms, hleaf⟩, .refl leaf⟩
  · obtain ⟨typeLabel, hlabel, hparts⟩ := hms.parts ht hm
    have hmembers : List.Forall₂ Spot.Reparented
        (t.members.map ((Spot.ofVariable v).member typeLabel))
        (t.members.map ((Spot.ofVariable v').member typeLabel)) := by
      rw [h.ofVariable_eq, List.forall₂_map_left_iff, List.forall₂_map_right_iff, List.forall₂_same]
      exact fun m _ => ⟨⟨v.label, typeLabel⟩, ⟨v'.label, typeLabel⟩, rfl, rfl⟩
    obtain ⟨ms', hms', hkept⟩ := hparts.reparented hmembers
    have htype : (Spot.ofVariable v').type = (Spot.ofVariable v).type := h.type
    have hstruct := HasLeaves.struct (htype ▸ ht) (htype ▸ hlabel) hm hms' .nil
    rw [List.append_nil] at hstruct
    obtain ⟨leaf', hleaf', hpair⟩ := exists_mem_of_forall₂ hkept hleaf
    exact ⟨leaf', ⟨ms', hstruct, hleaf'⟩, hpair⟩

/-- A byte of a leaf is in the footprint. -/
theorem HasLeaf.mem_footprint (h : (l.footprint hash).result = .ok before) {v : Variable}
    (hv : v ∈ l.storage) {leaf : Leaf} (hleaf : l.HasLeaf hash v leaf) {byte : Int}
    (hcovers : leaf.Covers byte) : byte ∈ before := by
  obtain ⟨ls, hls, hwritten⟩ := exists_leaves_of_footprint h
  exact (hwritten.mem_iff byte).mpr ⟨leaf, hls.mem_of_hasLeaf hv hleaf, hcovers⟩

/-- **Structs under other names, each in the place of one of its type, pass: without a chain a check
tells nothing, whichever variables have stayed as they are.** -/
theorem check_renamed_structs (hapart : l.LiesApart hash)
    (hbefore : (l.footprint hash).result = .ok before)
    (hafter : (l'.footprint hash).result = .ok after) (htypes : l'.types = l.types)
    (hto : ∀ v ∈ l.storage, ∃ v' ∈ l'.storage, l.StandsFor v v')
    (hfrom : ∀ v' ∈ l'.storage, ∃ v ∈ l.storage, l.StandsFor v v') (checkRemovals : Bool)
    {address : Option Text} {reader : Option Reader}
    (hoff : address = none ∨ address = some [] ∨ reader = none) (workers : Workers) :
    (check hash l l' checkRemovals address reader workers).result = .ok [] := by
  refine check_eq_nil hbefore hafter (fun byte kind s c hfinding => ?_) hoff workers
  cases hfinding with
  | changed hs hc htable =>
    obtain ⟨v', hv', leaf', hleaf', hcovers, rfl⟩ := exists_hasLeaf_of_footprint hafter hc
    obtain ⟨v, hv, hstands⟩ := hfrom v' hv'
    obtain ⟨leaf, hleaf, hkept⟩ := (hleaf'.of_types htypes.symm).exists_kept hstands.symm
    have hcovers' : leaf.Covers byte := (hkept.aligned.covers_iff byte).mpr hcovers
    obtain rfl := Option.some.inj
      (hs.symm.trans (hapart.getElem?_footprint hbefore hv hleaf hcovers'))
    cases htable with
    | renamed _ _ _ _ hlabel => exact hlabel hkept.label.symm
    | replaced _ _ _ htype => exact htype hkept.type.symm
    | retyped _ _ htype => exact htype (congrArg _ hkept.type.symm)
  | removed _ hs hc =>
    obtain ⟨v, hv, leaf, hleaf, hcovers, rfl⟩ := exists_hasLeaf_of_footprint hbefore hs
    obtain ⟨v', hv', hstands⟩ := hto v hv
    obtain ⟨leaf', hleaf', hkept⟩ := hleaf.exists_kept hstands
    exact hc ((hleaf'.of_types htypes).mem_footprint hafter hv'
      ((hkept.aligned.covers_iff byte).mpr hcovers))

end Layout

/-! ### Two variables that exchange their places -/

/-- A variable in the place of another one. -/
def Variable.inPlaceOf (v w : Variable) : Variable :=
  { v with slot := w.slot, offset := w.offset }

namespace Layout

/-- The layout in which two of the variables have exchanged their places in storage. The order of
their declaration stays. -/
def exchange (l : Layout) (i j : Fin l.storage.length) : Layout where
  storage := (l.storage.set i (l.storage[i].inPlaceOf l.storage[j])).set j
    (l.storage[j].inPlaceOf l.storage[i])
  types := l.types

section Exchange
variable {hash : Hash} {l l' : Layout} {i j : Fin l.storage.length} {before after : ByteMap}

theorem mem_exchange (hne : i ≠ j) (v : Variable) : v ∈ (l.exchange i j).storage ↔
    v = l.storage[i].inPlaceOf l.storage[j] ∨ v = l.storage[j].inPlaceOf l.storage[i] ∨
      ∃ k, k ≠ i ∧ k ≠ j ∧ v = l.storage[k] := by
  have hval : (i : Nat) ≠ j := fun h => hne (Fin.ext h)
  have hlength : (l.exchange i j).storage.length = l.storage.length := by
    simp only [exchange, List.length_set]
  have hbound (k : Fin l.storage.length) : (k : Nat) < (l.exchange i j).storage.length := by
    rw [hlength]
    exact k.2
  have hget (k : Fin l.storage.length) (hk : k < (l.exchange i j).storage.length) :
      (l.exchange i j).storage[(k : Nat)] =
        if (j : Nat) = k then l.storage[j].inPlaceOf l.storage[i]
        else if (i : Nat) = k then l.storage[i].inPlaceOf l.storage[j] else l.storage[k] := by
    simp only [exchange, List.getElem_set, Fin.getElem_fin]
  rw [List.mem_iff_getElem]
  constructor
  · rintro ⟨k, hk, rfl⟩
    have hk' : k < l.storage.length := by rwa [hlength] at hk
    rw [hget ⟨k, hk'⟩ hk]
    split
    · exact .inr (.inl rfl)
    · next hj =>
      split
      · exact .inl rfl
      · next hi => exact .inr (.inr ⟨_, fun h => hi (h ▸ rfl), fun h => hj (h ▸ rfl), rfl⟩)
  · rintro (rfl | rfl | ⟨k, hi, hj, rfl⟩)
    · exact ⟨i, hbound i, by rw [hget, if_neg (Ne.symm hval), if_pos rfl]⟩
    · exact ⟨j, hbound j, by rw [hget, if_pos rfl]⟩
    · have hi' : (i : Nat) ≠ k := fun h => hi (Fin.ext h.symm)
      have hj' : (j : Nat) ≠ k := fun h => hj (Fin.ext h.symm)
      exact ⟨k, hbound k, by rw [hget, if_neg hj', if_neg hi']⟩

/-- Structs that exchange their places stand in for each other, every other variable for itself. -/
theorem standsFor_exchange (hne : i ≠ j) (htype : l.storage[j].type = l.storage[i].type)
    {t : TypeInfo} (ht : l.resolve? l.storage[i].type = some t) (hm : t.hasMembers = true) :
    (∀ v ∈ l.storage, ∃ v' ∈ (l.exchange i j).storage, l.StandsFor v v') ∧
      ∀ v' ∈ (l.exchange i j).storage, ∃ v ∈ l.storage, l.StandsFor v v' := by
  have hi : l.StandsFor l.storage[i] (l.storage[j].inPlaceOf l.storage[i]) :=
    ⟨htype, rfl, rfl, .inr ⟨t, ht, hm⟩⟩
  have hj : l.StandsFor l.storage[j] (l.storage[i].inPlaceOf l.storage[j]) :=
    ⟨htype.symm, rfl, rfl, .inr ⟨t, htype ▸ ht, hm⟩⟩
  constructor
  · intro v hv
    obtain ⟨k, rfl⟩ := List.mem_iff_get.mp hv
    by_cases hki : k = i
    · exact ⟨_, (mem_exchange hne _).mpr (.inr (.inl rfl)), hki ▸ hi⟩
    · by_cases hkj : k = j
      · exact ⟨_, (mem_exchange hne _).mpr (.inl rfl), hkj ▸ hj⟩
      · exact ⟨_, (mem_exchange hne _).mpr (.inr (.inr ⟨k, hki, hkj, rfl⟩)), .refl l _⟩
  · intro v' hv'
    rcases (mem_exchange hne v').mp hv' with rfl | rfl | ⟨k, -, -, rfl⟩
    · exact ⟨_, List.getElem_mem _, hj⟩
    · exact ⟨_, List.getElem_mem _, hi⟩
    · exact ⟨_, List.getElem_mem _, .refl l _⟩

/-- A name in which the name of a struct stands is longer than that name. -/
theorem length_lt_of_encloses {v w : Variable} {typeLabel : Text}
    (h : Comparison.Encloses ((Spot.ofVariable v).detail typeLabel)
      ({ Spot.ofVariable v with label := w.label }.detail typeLabel)) :
    v.label.length < w.label.length := by
  have hleads : Text.startsWith w.label ("(" ++ typeLabel ++ " " ++ v.label ++ ")") = true := h.2
  have hle := (List.isPrefixOf_iff_prefix.mp hleads).length_le
  simp only [List.length_append] at hle
  have hparen : (Text.ofString "(").length = 1 := rfl
  omega

/-- A variable of a plain type, a mapping or an array has its first byte, and so has the one that
comes into its place. -/
theorem exists_details_inPlaceOf (hapart : l.LiesApart hash)
    (hbefore : (l.footprint hash).result = .ok before) (hapart' : l'.LiesApart hash)
    (hafter : (l'.footprint hash).result = .ok after) (htypes : l'.types = l.types)
    {v w : Variable} (hv : v ∈ l.storage) (hw : w.inPlaceOf v ∈ l'.storage)
    (htype : w.type = v.type) {t : TypeInfo} (ht : l.resolve? v.type = some t)
    (hm : t.hasMembers = false) (hcount : 1 ≤ t.byteCount) :
    ∃ (byte : Int) (typeLabel : Text),
      before[byte]? = some ((Spot.ofVariable v).detail typeLabel) ∧
      after[byte]? = some ({ Spot.ofVariable v with label := w.label }.detail typeLabel) := by
  obtain ⟨ms, hms⟩ := exists_leaves_of_mem hbefore hv
  obtain ⟨ms', hms'⟩ := exists_leaves_of_mem hafter hw
  have ht' : l'.resolve? (w.inPlaceOf v).type = some t := by
    rw [resolve?, htypes]
    exact htype ▸ ht
  obtain ⟨typeLabel, hlabel, hleaf⟩ := hms.exists_own ht hm
  obtain ⟨typeLabel', hlabel', hleaf'⟩ := hms'.exists_own ht' hm
  obtain rfl : typeLabel' = typeLabel :=
    Except.ok.inj (hlabel'.symm.trans (typeLabel_of_label rfl hlabel))
  have hplace : Spot.ofVariable (w.inPlaceOf v) = { Spot.ofVariable v with label := w.label } := by
    simp only [Spot.ofVariable, Variable.inPlaceOf, htype]
  have hs := hapart.getElem?_footprint hbefore hv ⟨ms, hms, hleaf⟩ (Leaf.covers_start hcount)
  have hc := hapart'.getElem?_footprint hafter hw ⟨ms', hms', hleaf'⟩ (Leaf.covers_start hcount)
  rw [hplace] at hc
  exact ⟨_, typeLabel', hs, hc⟩

/-- Where none of the two only reserves room, one of the two names is told: each finds the other's
on its own bytes, and not both can stand for a place inside the other. -/
theorem exists_finding_exchange (hapart : l.LiesApart hash)
    (hbefore : (l.footprint hash).result = .ok before) (hapart' : (l.exchange i j).LiesApart hash)
    (hafter : ((l.exchange i j).footprint hash).result = .ok after)
    (htype : l.storage[j].type = l.storage[i].type) {t : TypeInfo}
    (ht : l.resolve? l.storage[i].type = some t) (hm : t.hasMembers = false)
    (hcount : 1 ≤ t.byteCount) (hname : l.storage[i].label ≠ l.storage[j].label)
    (hi : l.storage[i].label ≠ gapLabel) (hj : l.storage[j].label ≠ gapLabel)
    (checkRemovals : Bool) :
    ∃ byte s c, Finding Comparison.Outright l (l.exchange i j) before after checkRemovals byte
      .label s c := by
  have hne : i ≠ j := fun h => hname (h ▸ rfl)
  obtain ⟨byte, typeLabel, hs, hc⟩ := exists_details_inPlaceOf hapart hbefore hapart' hafter rfl
    (List.getElem_mem i.2) ((mem_exchange hne _).mpr (.inr (.inl rfl))) htype ht hm hcount
  obtain ⟨byte', typeLabel', hs', hc'⟩ := exists_details_inPlaceOf hapart hbefore hapart' hafter rfl
    (List.getElem_mem j.2) ((mem_exchange hne _).mpr (.inl rfl)) htype.symm (htype ▸ ht) hm hcount
  have hrenamed (v w : Variable) (typeLabel : Text) (hv : v.label ≠ gapLabel)
      (hw : w.label ≠ gapLabel) (hname : w.label ≠ v.label)
      (hunused : ¬Comparison.Encloses ((Spot.ofVariable v).detail typeLabel)
        ({ Spot.ofVariable v with label := w.label }.detail typeLabel)) :
      Comparison.Table Comparison.Outright l (l.exchange i j)
        ((Spot.ofVariable v).detail typeLabel)
        ({ Spot.ofVariable v with label := w.label }.detail typeLabel) .label :=
    .renamed (not_or.mpr ⟨hv, hw⟩) hname hunused rfl hname
  by_cases hunused : Comparison.Encloses ((Spot.ofVariable l.storage[i]).detail typeLabel)
      ({ Spot.ofVariable l.storage[i] with label := l.storage[j].label }.detail typeLabel)
  · have htable := hrenamed l.storage[j] l.storage[i] typeLabel' hj hi hname fun hunused' =>
      Nat.lt_asymm (length_lt_of_encloses hunused) (length_lt_of_encloses hunused')
    exact ⟨byte', _, _, .changed hs' hc' htable⟩
  · have htable := hrenamed l.storage[i] l.storage[j] typeLabel hi hj hname.symm hunused
    exact ⟨byte, _, _, .changed hs hc htable⟩

/-- **Two variables of one type that exchange their places are passed over if they are structs, and
only then: without a chain, a check of any other two tells one of their names at least.** -/
theorem check_exchanged (hapart : l.LiesApart hash)
    (hbefore : (l.footprint hash).result = .ok before) (hapart' : (l.exchange i j).LiesApart hash)
    (hafter : ((l.exchange i j).footprint hash).result = .ok after)
    (htype : l.storage[j].type = l.storage[i].type) {t : TypeInfo}
    (ht : l.resolve? l.storage[i].type = some t) (hown : t.hasMembers = false → 1 ≤ t.byteCount)
    (hname : l.storage[i].label ≠ l.storage[j].label) (hi : l.storage[i].label ≠ gapLabel)
    (hj : l.storage[j].label ≠ gapLabel) (checkRemovals : Bool) {address : Option Text}
    {reader : Option Reader} (hoff : address = none ∨ address = some [] ∨ reader = none)
    (workers : Workers) :
    ∃ ds, (check hash l (l.exchange i j) checkRemovals address reader workers).result = .ok ds ∧
      (ds = [] ↔ t.hasMembers = true) := by
  cases hm : t.hasMembers with
  | true =>
    have hne : i ≠ j := fun h => hname (h ▸ rfl)
    obtain ⟨hto, hfrom⟩ := standsFor_exchange hne htype ht hm
    exact ⟨[], check_renamed_structs hapart hbefore hafter rfl hto hfrom checkRemovals hoff workers,
      ⟨fun _ => rfl, fun _ => rfl⟩⟩
  | false =>
    obtain ⟨byte, s, c, hfinding⟩ := exists_finding_exchange hapart hbefore hapart' hafter htype ht
      hm (hown hm) hname hi hj checkRemovals
    obtain ⟨ds, hds, hcomplete⟩ := check_tells_findings hbefore hafter checkRemovals hoff workers
    obtain ⟨d, hd, -⟩ := (hcomplete.told _ _ _).mpr ⟨byte, hfinding⟩
    exact ⟨ds, hds, fun h => absurd (h ▸ hd) List.not_mem_nil, nofun⟩

end Exchange

/-- Two structs of one type and two bytes, each in a slot of its own. -/
def pairs : Layout where
  storage := [⟨"x", "t_struct(Pair)1_storage", 0, 0, .null, .null⟩,
    ⟨"y", "t_struct(Pair)1_storage", 1, 0, .null, .null⟩, ⟨"a", "t_uint8", 2, 0, .null, .null⟩,
    ⟨"b", "t_uint8", 3, 0, .null, .null⟩]
  types := overlapping.types

/-- The two bytes have exchanged their places. -/
theorem check_exchanged_bytes :
    ∃ ds, (check lengthHash pairs (pairs.exchange ⟨2, by decide⟩ ⟨3, by decide⟩) true none none
      (.inOrder 1)).result = .ok ds ∧ ds ≠ [] := by
  have hbefore : ∃ map, (pairs.footprint lengthHash).result = .ok map :=
    exists_ok_of_toBool (by decide +kernel)
  have hafter : ∃ map,
      ((pairs.exchange ⟨2, by decide⟩ ⟨3, by decide⟩).footprint lengthHash).result = .ok map :=
    exists_ok_of_toBool (by decide +kernel)
  obtain ⟨before, hbefore⟩ := hbefore
  obtain ⟨after, hafter⟩ := hafter
  obtain ⟨ds, hds, hnil⟩ := check_exchanged (liesApart_of_leaves rfl (by decide)) hbefore
    (liesApart_of_leaves rfl (by decide)) hafter rfl
    (show _ = some (TypeInfo.elementary "uint8" 1) from rfl) (fun _ => by decide) (by decide)
    (by decide) (by decide) true (.inl rfl) (.inOrder 1)
  exact ⟨ds, hds, fun h => Bool.false_ne_true (hnil.mp h)⟩

/-- Nothing is told of two structs that have exchanged their places, though each has members in the
place that it leaves. -/
theorem exchanged_structs_pass :
    ∃ i j : Fin pairs.storage.length, pairs.storage[i].type = pairs.storage[j].type ∧
      pairs.storage[i].label ≠ pairs.storage[j].label ∧ pairs.storage[i].label ≠ gapLabel ∧
      pairs.storage[j].label ≠ gapLabel ∧ pairs.LiesApart Keccak.digest ∧
      (pairs.exchange i j).LiesApart Keccak.digest ∧
      (∃ leaf, pairs.HasLeaf Keccak.digest pairs.storage[i] leaf ∧
        leaf.Covers (pairs.storage[i].slot * wordSize)) ∧
      (check Keccak.digest pairs (pairs.exchange i j) true none none (.inOrder 1)).result =
        .ok [] := by
  let i : Fin pairs.storage.length := ⟨0, by decide⟩
  let j : Fin pairs.storage.length := ⟨1, by decide⟩
  have hapart : pairs.LiesApart Keccak.digest := liesApart_of_leaves rfl (by decide)
  have hapart' : (pairs.exchange i j).LiesApart Keccak.digest := liesApart_of_leaves rfl (by decide)
  have hmembers : leavesOf Keccak.digest pairs pairs.depth (.ofVariable pairs.storage[i]) =
      .ok [_, _] := rfl
  obtain ⟨before, hbefore, -⟩ := exists_footprint_of_toBool
    (show pairs.leaves Keccak.digest = .ok _ from rfl) (by decide +kernel)
  obtain ⟨after, hafter, -⟩ := exists_footprint_of_toBool
    (show (pairs.exchange i j).leaves Keccak.digest = .ok _ from rfl) (by decide +kernel)
  obtain ⟨hto, hfrom⟩ := standsFor_exchange (show i ≠ j by decide) rfl
    (show pairs.resolve? pairs.storage[i].type = some _ from rfl) rfl
  refine ⟨i, j, rfl, by decide, by decide, by decide, hapart, hapart',
    ⟨_, ⟨_, hasLeaves_of_leavesOf hmembers, List.mem_cons_self⟩, by decide⟩, ?_⟩
  exact check_renamed_structs hapart hbefore hafter rfl hto hfrom true (.inl rfl) (.inOrder 1)

end Layout

end UpgradeSafety
