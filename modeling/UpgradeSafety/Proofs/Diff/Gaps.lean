import UpgradeSafety.Proofs.Chain.Reading
import UpgradeSafety.Proofs.Diff.Check
import UpgradeSafety.Proofs.Footprint.Containment

/-! Room that is put to use. A layout may give up variables that only reserve room and declare new
variables in their bytes, or in bytes that were free (`Layout.Refills`). A check finds no difference
in this, however the room is split up; but all that is new and not itself reserved counts as added,
so a chain is asked about it (`check_refilled`). -/
namespace UpgradeSafety

/-! ### Reserved room -/

/-- Only a variable outside of structs has a full label without a bracket in front. -/
theorem Spot.label_of_fullLabel {v : Spot} (h : v.fullLabel = gapLabel) : v.label = gapLabel := by
  unfold fullLabel at h
  split at h
  · exact h
  · have hfirst : Point.char '(' = .char '_' := Option.some.inj (congrArg List.head? h)
    exact absurd hfirst (by decide)

theorem Layout.HasLeaf.label_of_fullLabel {hash : Hash} {l : Layout} {v : Variable} {leaf : Leaf}
    (hleaf : l.HasLeaf hash v leaf) (h : leaf.detail.fullLabel = gapLabel) :
    leaf.detail.label = gapLabel := by
  obtain ⟨ls, hls, hleaf⟩ := hleaf
  obtain ⟨w, typeLabel, t, rfl⟩ := hls.exists_leaf_eq leaf hleaf
  exact w.label_of_fullLabel h

/-- A variable that only reserves room, of a plain type. -/
structure Variable.ReservesRoom (l : Layout) (v : Variable) : Prop where
  label : v.label = gapLabel
  type : ∃ t, l.resolve? v.type = some t ∧ t.encoding = .inplace ∧ t.hasMembers = false

/-- Reserved room comes down to the bytes of the variable itself. -/
theorem Variable.ReservesRoom.of_hasLeaf {hash : Hash} {l : Layout} {v : Variable}
    (h : v.ReservesRoom l) {leaf : Leaf} (hleaf : l.HasLeaf hash v leaf) :
    leaf.detail.label = gapLabel ∧ leaf.detail.fullLabel = gapLabel := by
  obtain ⟨t, ht, henc, hm⟩ := h.type
  obtain ⟨ls, hls, hleaf⟩ := hleaf
  obtain ⟨typeLabel, -, rfl⟩ := hls.own ht hm henc
  obtain rfl := List.mem_singleton.mp hleaf
  exact ⟨h.label, h.label⟩

namespace Layout
open CheckEvent

/-- A layout keeps some variables of another one, as they are, gives up room that the others reserve,
and has new ones. -/
structure Refills (l cmp : Layout) (kept gaps new : List Variable) : Prop where
  before : l.storage.Perm (kept ++ gaps)
  after : cmp.storage.Perm (kept ++ new)
  reserved : ∀ v ∈ gaps, v.ReservesRoom l
  types : ∀ v ∈ kept, ∀ id, l.Stores false v.type id → cmp.resolve? id = l.resolve? id

section Refills
variable {hash : Hash} {l cmp : Layout} {kept gaps new : List Variable} {before after : ByteMap}

/-- The bytes of room that is given up have been reserved. -/
theorem Refills.reserved_of_takes (h : l.Refills cmp kept gaps new) (hapart : l.LiesApart hash)
    (hbefore : (l.footprint hash).result = .ok before) {byte : Int} (hgap : l.Takes hash gaps byte) :
    ∃ s, before[byte]? = some s ∧ s.label = gapLabel ∧ s.fullLabel = gapLabel := by
  obtain ⟨v, hv, leaf, hleaf, hcovers⟩ := hgap
  have hstorage := h.before.mem_iff.mpr (List.mem_append_right kept hv)
  exact ⟨leaf.detail, hapart.getElem?_footprint hbefore hstorage hleaf hcovers,
    (h.reserved v hv).of_hasLeaf hleaf⟩

/-- On a byte of both layouts there is one variable, or room that is given up. -/
theorem Refills.eq_or_reserved (h : l.Refills cmp kept gaps new) (hapart : l.LiesApart hash)
    (hbefore : (l.footprint hash).result = .ok before)
    (hafter : (cmp.footprint hash).result = .ok after)
    (hfree : ∀ byte, cmp.Takes hash new byte → before[byte]? = none ∨ l.Takes hash gaps byte)
    {byte : Int} {s c : Detail} (hs : before[byte]? = some s) (hc : after[byte]? = some c) :
    s = c ∨ s.label = gapLabel := by
  obtain ⟨v, hv, leaf, hleaf, hcovers, rfl⟩ := exists_hasLeaf_of_footprint hafter hc
  rcases List.mem_append.mp (h.after.mem_iff.mp hv) with hkept | hnew
  · have hv := h.before.mem_iff.mpr (List.mem_append_left gaps hkept)
    have hleaf := hleaf.of_agree hbefore hv (h.types v hkept)
    exact .inl (Option.some.inj (hs.symm.trans (hapart.getElem?_footprint hbefore hv hleaf hcovers)))
  · rcases hfree byte ⟨v, hnew, leaf, hleaf, hcovers⟩ with hnone | hgap
    · cases hnone.symm.trans hs
    · obtain ⟨s', hs', hlabel, -⟩ := h.reserved_of_takes hapart hbefore hgap
      obtain rfl := Option.some.inj (hs.symm.trans hs')
      exact .inr hlabel

/-- What is new and takes room that was reserved, or none, counts as added. -/
theorem Refills.adds (h : l.Refills cmp kept gaps new) (hapart : l.LiesApart hash)
    (hbefore : (l.footprint hash).result = .ok before)
    (hafter : (cmp.footprint hash).result = .ok after) {byte : Int}
    (hfree : before[byte]? = none ∨ l.Takes hash gaps byte) {c : Detail}
    (hc : after[byte]? = some c) (hlabel : c.label ≠ gapLabel) :
    Comparison.Adds before after ⟨.ofByte byte, c⟩ := by
  refine ⟨byte, hc, rfl, hfree.imp_right fun hgap => ?_⟩
  obtain ⟨s, hs, hgap, hfull⟩ := h.reserved_of_takes hapart hbefore hgap
  refine ⟨s, hs, .inl ⟨?_, .inl hgap⟩⟩
  rw [← Bool.not_eq_true]
  intro hsame
  obtain ⟨v, -, leaf, hleaf, -, rfl⟩ := exists_hasLeaf_of_footprint hafter hc
  exact hlabel (hleaf.label_of_fullLabel
    ((Comparison.fullLabel_eq_of_sameVariable hsame).2.trans hfull))

/-- **Room that is put to use makes no difference, and every byte of what is new, unless it is
reserved itself, is asked about.** -/
theorem check_refilled (h : l.Refills cmp kept gaps new) (hapart : l.LiesApart hash)
    (hbefore : (l.footprint hash).result = .ok before)
    (hafter : (cmp.footprint hash).result = .ok after)
    (hfree : ∀ byte, cmp.Takes hash new byte → before[byte]? = none ∨ l.Takes hash gaps byte) :
    (∀ address reader workers, address = none ∨ address = some [] ∨ reader = none →
      (check hash l cmp false address reader workers).result = .ok []) ∧
    ∀ (byte : Int) (c : Detail), after[byte]? = some c → cmp.Takes hash new byte →
      c.label ≠ gapLabel → Comparison.Adds before after ⟨.ofByte byte, c⟩ ∧
        ∀ checkRemovals address reader workers, address ≠ [] → (Location.ofByte byte).slot ∈
          requested (check hash l cmp checkRemovals (some address) (some reader) workers).notes := by
  constructor
  · intro address reader workers hoff
    refine check_eq_nil hbefore hafter (fun byte kind s c hfinding => ?_) hoff workers
    cases hfinding with
    | changed hs hc htable =>
      rcases h.eq_or_reserved hapart hbefore hafter hfree hs hc with rfl | hgap
      · exact Comparison.not_table_of_sameVariable (Comparison.sameVariable_refl _) htable
      · exact htable.not_reserves (.inl hgap)
    | removed hremovals => cases hremovals
  · intro byte c hc htakes hlabel
    have hadds := h.adds hapart hbefore hafter (hfree byte htakes) hc hlabel
    refine ⟨hadds, fun checkRemovals address reader workers haddress => ?_⟩
    obtain ⟨found, -, -, hmem, hcheck⟩ := exists_check hbefore hafter checkRemovals
    rw [(hcheck (some address) (some reader) workers).2]
    exact ((Added.requested_check found.added haddress reader workers).2 _).mpr
      ⟨_, (hmem _).mpr hadds, rfl⟩

end Refills

/-- A byte, and two words of room behind it. -/
def roomy : Layout where
  storage := [⟨"x", "t_uint8", 0, 0, .null, .null⟩,
    ⟨"__gap", "t_array(t_uint256)2_storage", 1, 0, .null, .null⟩]
  types := [
    ("t_uint8", .elementary "uint8" 1),
    ("t_array(t_uint256)2_storage", .elementary "uint256[2]" 64)]

/-- A mapping has taken the first of the two words. -/
def refilled : Layout where
  storage := [⟨"x", "t_uint8", 0, 0, .null, .null⟩, ⟨"y", "t_mapping", 1, 0, .null, .null⟩,
    ⟨"__gap", "t_array(t_uint256)1_storage", 2, 0, .null, .null⟩]
  types := [
    ("t_uint8", .elementary "uint8" 1),
    ("t_mapping", { TypeInfo.elementary "mapping(uint8 => uint8)" 32 with
      encoding := .mapping, key := .text "t_uint8", value := .text "t_uint8" }),
    ("t_array(t_uint256)1_storage", .elementary "uint256[1]" 32)]

/-- A mapping has taken the first of two words of room, with an example elsewhere; the slots of both
are asked about. -/
theorem check_refilled_mapping :
    (check lengthHash roomy refilled false none none (.inOrder 1)).result = .ok [] ∧
      ∀ slot ∈ [1, 64], slot ∈ requested (check lengthHash roomy refilled false (some "0x0")
        (some (.single fun _ _ => pure (List.replicate wordSize 0))) (.inOrder 1)).notes := by
  obtain ⟨before, hbefore, hold⟩ := exists_footprint_of_toBool
    (show roomy.leaves lengthHash = .ok _ from rfl) (by decide +kernel)
  obtain ⟨after, hafter, hnew⟩ := exists_footprint_of_toBool
    (show refilled.leaves lengthHash = .ok _ from rfl) (by decide +kernel)
  have hapart : roomy.LiesApart lengthHash := by
    refine ⟨_, hasLeaves_of_leaves (show roomy.leaves lengthHash = .ok _ from rfl), ?_⟩
    refine List.Pairwise.imp Leaf.apart_of_le ?_
    decide
  have hrefills : roomy.Refills refilled (roomy.storage.take 1) (roomy.storage.drop 1)
      (refilled.storage.drop 1) := by
    refine ⟨.refl _, .refl _, ?_, ?_⟩
    · exact List.forall_mem_singleton.mpr ⟨rfl, _, rfl, rfl, rfl⟩
    · refine List.forall_mem_singleton.mpr fun id hid => ?_
      obtain rfl := hid.eq_of_inplace (show roomy.resolve? "t_uint8" = some _ from rfl) rfl rfl
      rfl
  -- the leaves of the room, and of the mapping and the room that is left
  have hgaps : HasLeaves lengthHash roomy ((roomy.storage.drop 1).map .ofVariable)
      [⟨⟨"__gap", "t_array(t_uint256)2_storage", 1, 0, "__gap", "uint256[2]", 32, none⟩, 64⟩] :=
    hasLeaves_of_mapM roomy.depth rfl
  have hnews : HasLeaves lengthHash refilled ((refilled.storage.drop 1).map .ofVariable)
      [⟨⟨"y[0]", "t_uint8", 64, 0, "y[0]", "uint8", 2048, none⟩, 1⟩,
        ⟨⟨"y", "t_mapping", 1, 0, "y", "mapping(uint8 => uint8)", 32, none⟩, 32⟩,
        ⟨⟨"__gap", "t_array(t_uint256)1_storage", 2, 0, "__gap", "uint256[1]", 64, none⟩, 32⟩] :=
    hasLeaves_of_mapM refilled.depth rfl
  have hfree (byte : Int) (htakes : refilled.Takes lengthHash (refilled.storage.drop 1) byte) :
      before[byte]? = none ∨ roomy.Takes lengthHash (roomy.storage.drop 1) byte := by
    rw [hgaps.takes_iff]
    obtain ⟨leaf, hleaf, hcovers⟩ := hnews.takes_iff.mp htakes
    simp only [List.mem_cons, List.not_mem_nil, or_false] at hleaf
    rcases hleaf with rfl | rfl | rfl
    · obtain ⟨hle, hlt⟩ : (2048 : Int) ≤ byte ∧ byte < 2048 + 1 := hcovers
      obtain rfl : byte = 2048 := by omega
      exact .inl (hold 2048)
    · obtain ⟨hle, hlt⟩ : (32 : Int) ≤ byte ∧ byte < 32 + 32 := hcovers
      exact .inr ⟨_, List.mem_cons_self, show (32 : Int) ≤ byte ∧ byte < 32 + 64 by omega⟩
    · obtain ⟨hle, hlt⟩ : (64 : Int) ≤ byte ∧ byte < 64 + 32 := hcovers
      exact .inr ⟨_, List.mem_cons_self, show (32 : Int) ≤ byte ∧ byte < 32 + 64 by omega⟩
  obtain ⟨hnil, hadds⟩ := check_refilled hrefills hapart hbefore hafter hfree
  have hasked (byte : Int) (c : Detail) (hc : after[byte]? = some c) (hlabel : c.label ≠ gapLabel)
      (htakes : refilled.Takes lengthHash (refilled.storage.drop 1) byte) :=
    (hadds byte c hc htakes hlabel).2 false "0x0" (.single fun _ _ => pure (List.replicate wordSize 0))
      (.inOrder 1) (by decide)
  refine ⟨hnil none none _ (.inl rfl), List.forall_mem_cons.mpr ⟨?_, List.forall_mem_singleton.mpr ?_⟩⟩
  · exact hasked 32 _ (hnew 32) (by decide)
      (hnews.takes_iff.mpr ⟨_, List.mem_cons_of_mem _ List.mem_cons_self, by decide⟩)
  · exact hasked 2048 _ (hnew 2048) (by decide)
      (hnews.takes_iff.mpr ⟨_, List.mem_cons_self, by decide⟩)

end Layout

end UpgradeSafety
