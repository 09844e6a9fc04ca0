import Mathlib.Algebra.Ring.Nat
import Mathlib.Data.Finset.Card
import Mathlib.Data.Finset.Lattice.Lemmas
import UpgradeSafety.Proofs.Footprint.Correspondence
import UpgradeSafety.Proofs.Footprint.Merges

/-! How many bytes are taken more than once. A map that is laid over another takes bytes away from it,
and the overlap that is noted says how many and which is the first (`Merge.Warns`). The bytes of a
footprint and those of all its overlaps together are the bytes of its leaves, each leaf counted for
itself, so nothing is noted exactly where the leaves lie apart (`footprint_accounts`). A struct that
is encoded as a container is left out: its example is expanded and then dropped. -/
namespace UpgradeSafety

/-! ### The bytes that leaves cover -/

namespace Leaf

/-- How many bytes leaves take, each leaf counted for itself. -/
def room (ls : List Leaf) : Nat :=
  (ls.map fun leaf => leaf.count.toNat).sum

theorem room_append (ls ms : List Leaf) : room (ls ++ ms) = room ls + room ms := by
  rw [room, List.map_append, List.sum_append]
  rfl

/-- The bytes of a leaf. -/
def bytes (leaf : Leaf) : Finset Int :=
  (Finset.range leaf.count.toNat).image fun i : Nat => leaf.detail.startByte + i

theorem mem_bytes {leaf : Leaf} {byte : Int} : byte ∈ leaf.bytes ↔ leaf.Covers byte := by
  simp only [bytes, Finset.mem_image, Finset.mem_range, Covers]
  constructor
  · rintro ⟨i, hi, rfl⟩
    omega
  · intro h
    exact ⟨(byte - leaf.detail.startByte).toNat, by omega, by omega⟩

theorem card_bytes (leaf : Leaf) : leaf.bytes.card = leaf.count.toNat := by
  have hinjective : Function.Injective fun i : Nat => leaf.detail.startByte + i := by
    intro i j (h : leaf.detail.startByte + i = leaf.detail.startByte + j)
    omega
  rw [bytes, Finset.card_image_of_injective _ hinjective, Finset.card_range]

/-- The bytes that some leaf covers. -/
def covered (ls : List Leaf) : Finset Int :=
  ls.foldr (fun leaf rest => leaf.bytes ∪ rest) ∅

theorem mem_covered {ls : List Leaf} {byte : Int} :
    byte ∈ covered ls ↔ ∃ leaf ∈ ls, leaf.Covers byte := by
  induction ls with
  | nil => simp [covered]
  | cons leaf rest ih =>
    rw [List.exists_mem_cons_iff, ← ih, ← mem_bytes]
    exact Finset.mem_union

/-- Of a leaf and others, the bytes that both have are counted once. -/
theorem card_covered_cons (leaf : Leaf) (rest : List Leaf) :
    (covered (leaf :: rest)).card + (leaf.bytes ∩ covered rest).card =
      leaf.count.toNat + (covered rest).card := by
  rw [← card_bytes]
  exact Finset.card_union_add_card_inter leaf.bytes (covered rest)

theorem card_covered_le (ls : List Leaf) : (covered ls).card ≤ room ls := by
  induction ls with
  | nil => exact Nat.le_refl 0
  | cons leaf rest ih =>
    have hcons := card_covered_cons leaf rest
    have hroom : room (leaf :: rest) = leaf.count.toNat + room rest := List.sum_cons
    omega

theorem inter_covered_eq_empty_iff {leaf : Leaf} {rest : List Leaf} :
    leaf.bytes ∩ covered rest = ∅ ↔ ∀ other ∈ rest, leaf.Apart other := by
  rw [Finset.eq_empty_iff_forall_notMem]
  simp only [Finset.mem_inter, mem_bytes, mem_covered, Apart]
  constructor
  · intro h other hother byte hboth
    exact h byte ⟨hboth.1, other, hother, hboth.2⟩
  · intro h byte hboth
    obtain ⟨hcovers, other, hother, hcovers'⟩ := hboth
    exact h other hother byte ⟨hcovers, hcovers'⟩

/-- As many bytes are covered as there is room for exactly where the leaves lie apart. -/
theorem card_covered_eq_room_iff (ls : List Leaf) :
    (covered ls).card = room ls ↔ ls.Pairwise Apart := by
  induction ls with
  | nil => exact ⟨fun _ => .nil, fun _ => rfl⟩
  | cons leaf rest ih =>
    have hcons := card_covered_cons leaf rest
    have hle := card_covered_le rest
    have hroom : room (leaf :: rest) = leaf.count.toNat + room rest := List.sum_cons
    rw [List.pairwise_cons, ← ih, ← inter_covered_eq_empty_iff, ← Finset.card_eq_zero]
    omega

end Leaf

/-! ### One map over another -/

namespace Merge

/-- An overlap that tells of the bytes that both maps have: how many there are, and the least of
them. -/
structure Warns (m : Merge) (o : Overlap) : Prop where
  context : o.context = m.context
  shared : m.Shares o.first
  least : ∀ byte, m.Shares byte → o.first ≤ byte
  count : ∃ bytes : Finset Int, (∀ byte, byte ∈ bytes ↔ m.Shares byte) ∧ o.count = bytes.card

/-- An overlap tells of one byte at least. -/
theorem Warns.count_pos {m : Merge} {o : Overlap} (h : m.Warns o) : 0 < o.count := by
  obtain ⟨bytes, hbytes, hcount⟩ := h.count
  rw [hcount]
  exact Finset.card_pos.mpr ⟨o.first, (hbytes o.first).mpr h.shared⟩

end Merge

namespace ByteMap

/-- How many bytes overlaps tell of, together. -/
def overlapped (notes : List Overlap) : Nat :=
  (notes.map Overlap.count).sum

theorem overlapped_append (xs ys : List Overlap) :
    overlapped (xs ++ ys) = overlapped xs + overlapped ys := by
  rw [overlapped, List.map_append, List.sum_append]
  rfl

theorem overlapped_eq_zero_iff {notes : List Overlap} (h : ∀ o ∈ notes, 0 < o.count) :
    overlapped notes = 0 ↔ notes = [] := by
  cases notes with
  | nil => exact ⟨fun _ => rfl, fun _ => rfl⟩
  | cons o rest =>
    have hcount := h o List.mem_cons_self
    have hsum : overlapped (o :: rest) = o.count + overlapped rest := List.sum_cons
    exact ⟨fun hzero => by omega, nofun⟩

section Overlay
variable {lower upper : ByteMap} {context : Text}

theorem card_bytes (map : ByteMap) : map.bytes.toFinset.card = map.size := by
  rw [List.toFinset_card_of_nodup map.nodup_bytes, length_bytes]

/-- The bytes that both maps have are those of neither more than the other. -/
theorem size_union_add_length_common :
    (lower ∪ upper).size + (common lower upper).length = lower.size + upper.size := by
  have hunion : (lower ∪ upper).bytes.toFinset = lower.bytes.toFinset ∪ upper.bytes.toFinset := by
    ext byte
    simp only [Finset.mem_union, List.mem_toFinset, mem_bytes_iff, mem_union_iff]
  have hinter : (common lower upper).toFinset = lower.bytes.toFinset ∩ upper.bytes.toFinset := by
    ext byte
    simp only [Finset.mem_inter, List.mem_toFinset, mem_bytes_iff, mem_common_iff]
  rw [← card_bytes, ← card_bytes, ← card_bytes, hunion,
    ← List.toFinset_card_of_nodup (nodup_common lower upper), hinter]
  exact Finset.card_union_add_card_inter _ _

/-- Of a map that fits over another, the bytes that both have are noted, if there are any. -/
theorem notes_lay (context : Text) (h : lower.Fits upper) :
    common lower upper = [] ∧ (lay lower upper context).notes = [] ∨
      ∃ first hshort, lower.Meets upper first ∧ (lay lower upper context).notes =
        [⟨context, (common lower upper).length, first, hshort⟩] := by
  unfold lay
  rcases overlay_cases lower upper context with
    ⟨hnone, hlaid⟩ | ⟨first, hmem, hleast, ⟨hshort, hlaid⟩ | ⟨hlong, hlaid⟩⟩
  · exact .inl ⟨hnone, by rw [hlaid]; rfl⟩
  · exact .inr ⟨first, hshort, meets_iff.mpr ⟨hmem, hleast⟩, by rw [hlaid]; rfl⟩
  · exact absurd (h first (meets_iff.mpr ⟨hmem, hleast⟩)) hlong

theorem size_lay (h : lower.Fits upper) (context : Text) :
    (lower ∪ upper).size + overlapped (lay lower upper context).notes =
      lower.size + upper.size := by
  rw [← size_union_add_length_common]
  rcases notes_lay context h with ⟨hnone, hnotes⟩ | ⟨first, hshort, -, hnotes⟩
  · rw [hnotes, hnone]
    rfl
  · rw [hnotes]
    rfl

/-- What is noted of two maps tells of the bytes that both have, whichever of them has more. -/
theorem warns_of_mem_lay {ls ms : List Leaf} (hlower : lower.WrittenBy ls)
    (hupper : upper.WrittenBy ms) (hfits : lower.Fits upper) {o : Overlap}
    (h : o ∈ (lay lower upper context).notes) : (Merge.mk context ls ms).Warns o := by
  have hshares {byte : Int} : (Merge.mk context ls ms).Shares byte ↔ byte ∈ lower ∧ byte ∈ upper :=
    Merge.shares_iff hlower hupper
  rcases notes_lay context hfits with ⟨-, hnotes⟩ | ⟨first, hshort, hmeets, hnotes⟩
  · rw [hnotes] at h
    cases h
  · rw [hnotes] at h
    obtain rfl := List.mem_singleton.mp h
    refine ⟨rfl, hshares.mpr ⟨hmeets.mem_lower, hmeets.mem_upper⟩, fun byte hbyte => ?_, ?_⟩
    · exact hmeets.least byte (hshares.mp hbyte).1 (hshares.mp hbyte).2
    · refine ⟨(common lower upper).toFinset, fun byte => ?_, ?_⟩
      · rw [List.mem_toFinset, mem_common_iff, hshares]
      · exact (List.toFinset_card_of_nodup (nodup_common lower upper)).symm

end Overlay

/-- A map has as many bytes as the leaves cover that have written it. -/
theorem WrittenBy.size_eq {map : ByteMap} {ls : List Leaf} (h : map.WrittenBy ls) :
    map.size = (Leaf.covered ls).card := by
  have hbytes : map.bytes.toFinset = Leaf.covered ls := by
    ext byte
    rw [List.mem_toFinset, mem_bytes_iff, h.mem_iff, Leaf.mem_covered]
  rw [← hbytes, card_bytes]

end ByteMap

/-! ### The maps that an expansion lays over each other -/

/-- A computation of a map that leaves write: no byte of theirs is lost, as what the map has not is
what the overlaps tell of, and each overlap tells of two maps of a kind. -/
structure Accounted (M : Merge → Prop) (j : Journal Overlap ExpansionFault ByteMap) (map : ByteMap)
    (ls : List Leaf) : Prop where
  result : j.result = .ok map
  written : map.WrittenBy ls
  balance : map.size + ByteMap.overlapped j.notes = Leaf.room ls
  warned : ∀ o ∈ j.notes, ∃ m, M m ∧ m.Warns o

namespace Accounted
variable {M N : Merge → Prop} {j : Journal Overlap ExpansionFault ByteMap}
  {lower upper map : ByteMap} {ls ms : List Leaf} {context : Text}

theorem mono (h : Accounted M j map ls) (hN : ∀ m, M m → N m) : Accounted N j map ls := by
  refine ⟨h.result, h.written, h.balance, fun o ho => ?_⟩
  obtain ⟨m, hm, hwarns⟩ := h.warned o ho
  exact ⟨m, hN m hm, hwarns⟩

theorem empty : Accounted M (pure ∅) ∅ [] :=
  ⟨rfl, .empty, rfl, fun _ ho => absurd ho List.not_mem_nil⟩

/-- A map that takes so many bytes from one place on. -/
theorem interval (v : Spot) (typeLabel : Text) (t : TypeInfo) :
    Accounted M (pure (.interval (v.detail typeLabel) v.startByte t.byteCount))
      (.interval (v.detail typeLabel) v.startByte t.byteCount) [v.leaf typeLabel t] := by
  refine ⟨rfl, .interval v typeLabel t, ?_, fun _ ho => absurd ho List.not_mem_nil⟩
  rw [(ByteMap.WrittenBy.interval v typeLabel t).size_eq]
  exact (Leaf.card_covered_eq_room_iff _).mpr (List.pairwise_singleton _ _)

/-- One map over another loses what is noted. -/
theorem overlay (h : Accounted M j lower ls) {k : Journal Overlap ExpansionFault ByteMap}
    (hk : Accounted M k upper ms) (hfits : lower.Fits upper) (hM : M ⟨context, ls, ms⟩) :
    Accounted M (do lay (← j) (← k) context) (lower ∪ upper) (ls ++ ms) := by
  have hnotes : (do lay (← j) (← k) context).notes =
      j.notes ++ (k.notes ++ (lay lower upper context).notes) := by
    rw [Journal.notes_bind_ok _ h.result, Journal.notes_bind_ok _ hk.result]
  refine ⟨?_, h.written.union hk.written, ?_, fun o ho => ?_⟩
  · rw [Journal.result_bind_ok _ h.result, Journal.result_bind_ok _ hk.result]
    exact lay_eq_ok_iff.mpr ⟨hfits, rfl⟩
  · have hsize := ByteMap.size_lay hfits context
    have hlower := h.balance
    have hupper := hk.balance
    rw [hnotes, ByteMap.overlapped_append, ByteMap.overlapped_append, Leaf.room_append]
    omega
  · rw [hnotes, List.mem_append, List.mem_append] at ho
    rcases ho with ho | ho | ho
    · exact h.warned o ho
    · exact hk.warned o ho
    · exact ⟨_, hM, ByteMap.warns_of_mem_lay h.written hk.written hfits ho⟩

/-- Maps laid over each other in turn: each is laid over those before it. -/
theorem stack {α : Type} {f : α → Journal Overlap ExpansionFault ByteMap}
    {R : α → List Leaf → Prop} {xs : List α} {top : ByteMap} (name : α → Text)
    (hstack : ByteMap.Stack f map xs top) (h : Accounted M j map ls)
    (hparts : ∀ x ∈ xs, ∀ upper, (f x).result = .ok upper →
      ∃ part, R x part ∧ Accounted M (f x) upper part)
    (hM : ∀ before x after parts' part, xs = before ++ x :: after → List.Forall₂ R before parts' →
      R x part → M ⟨name x, ls ++ parts'.flatten, part⟩) :
    ∃ parts, List.Forall₂ R xs parts ∧
      Accounted M (do xs.foldlM (fun map x => do lay map (← f x) (name x)) (← j)) top
        (ls ++ parts.flatten) := by
  induction hstack generalizing j ls with
  | nil => exact ⟨[], .nil, by simpa using h⟩
  | @cons map upper top x rest hupper hfits _ ih =>
    obtain ⟨part, hR, hpart⟩ := hparts x List.mem_cons_self upper hupper
    have hhead : M ⟨name x, ls, part⟩ := by
      simpa using hM [] x rest [] part rfl .nil hR
    obtain ⟨parts, hall, hrest⟩ := ih (h.overlay hpart hfits hhead)
      (fun y hy => hparts y (List.mem_cons_of_mem x hy))
      (fun before y after parts' part' hsplit hbefore hy => by
        have hy' := hM (x :: before) y after (part :: parts') part' (congrArg _ hsplit)
          (.cons hR hbefore) hy
        rwa [List.flatten_cons, ← List.append_assoc] at hy')
    refine ⟨part :: parts, .cons hR hall, ?_⟩
    rw [List.flatten_cons, ← List.append_assoc]
    simpa only [List.foldlM_cons, bind_assoc] using hrest

end Accounted

section Expansion
variable {hash : Hash} {l : Layout}

/-- No struct is encoded as something that keeps storage elsewhere. -/
def Layout.StructsArePlain (l : Layout) : Prop :=
  ∀ id t, l.resolve? id = some t → t.hasMembers = true →
    t.encoding ≠ .mapping ∧ t.encoding ≠ .dynamicArray

/-- Where no byte of single variables is lost on so many levels, none is where each is laid over
those before it. -/
theorem exists_accounted_of_stack {M : Merge → Prop} {α : Type} {spot : α → Spot} {depth : Nat}
    {xs : List α} {top : ByteMap} (name : α → Text)
    (h : ByteMap.Stack (fun x => expand hash l depth (spot x)) ∅ xs top)
    (hstep : ∀ x ∈ xs, ∀ map, (expand hash l depth (spot x)).result = .ok map →
      ∃ ls, HasLeaves hash l [spot x] ls ∧ Accounted M (expand hash l depth (spot x)) map ls)
    (hM : ∀ before x after lower upper, xs = before ++ x :: after →
      HasLeaves hash l (before.map spot) lower → HasLeaves hash l [spot x] upper →
        M ⟨name x, lower, upper⟩) :
    ∃ ls, HasLeaves hash l (xs.map spot) ls ∧ Accounted M (xs.foldlM (fun map x => do
      lay map (← expand hash l depth (spot x)) (name x)) ∅) top ls := by
  obtain ⟨parts, hparts, hlaid⟩ := Accounted.empty.stack name h hstep
    fun before x after parts' part hsplit hbefore hx =>
      hM before x after parts'.flatten part hsplit (.ofParts hbefore) hx
  exact ⟨parts.flatten, .ofParts hparts, by simpa using hlaid⟩

/-- No byte of the leaves of a variable is lost on any level. -/
theorem exists_accounted_of_expand (hplain : l.StructsArePlain) {depth : Nat} {v : Spot}
    {map : ByteMap} (h : (expand hash l depth v).result = .ok map) :
    ∃ ls, HasLeaves hash l [v] ls ∧
      Accounted (Spot.Merges hash l v) (expand hash l depth v) map ls := by
  induction depth generalizing v map with
  | zero => cases h
  | succ depth ih =>
    obtain ⟨t, sample, typeLabel, ht, hsample, hlabel, hown⟩ := expand_succ_eq_ok_iff.mp h
    have hlabel' : (Journal.ofExcept (Spot.typeLabel v.type t) :
        Journal Overlap ExpansionFault Text) = pure typeLabel := congrArg Journal.ofExcept hlabel
    rw [expand, ht]
    simp only [hlabel', pure_bind]
    rcases hown with ⟨hm, hfits, rfl⟩ | ⟨hm, hstack⟩
    · have hinterval := Accounted.interval (M := Spot.Merges hash l v) v typeLabel t
      simp only [hm, Bool.false_eq_true, if_false]
      rcases hsample with ⟨hnone, rfl⟩ | ⟨e, he, hsample⟩
      · obtain ⟨harray, hmapping⟩ := not_container_of_example? hnone
        have hleaves : HasLeaves hash l [v] ([] ++ [v.leaf typeLabel t]) :=
          .plain ht hlabel hm harray hmapping .nil
        rw [hnone]
        exact ⟨_, hleaves, by simpa using Accounted.empty.overlay hinterval hfits (.own ht hm hleaves)⟩
      · obtain ⟨ls, hls, hmap⟩ := ih hsample
        have he' := hasExample_of_example? he
        have hleaves := HasLeaves.container ht hlabel hm he' hls .nil
        have hmap' := hmap.mono fun _ => Spot.Merges.sample ht he'
        rw [he]
        exact ⟨_, hleaves, by simpa using hmap'.overlay hinterval hfits (.own ht hm hleaves)⟩
    · -- a plain struct has no example that would be expanded and dropped
      obtain ⟨hmapping, harray⟩ := hplain _ t ht hm
      obtain ⟨ls, hls, hlaid⟩ := exists_accounted_of_stack (M := Spot.Merges hash l v)
        (fun m => v.fullLabel ++ "." ++ m.label) hstack
        (fun m hmem part hpart => by
          obtain ⟨ls, hls, hmap⟩ := ih hpart
          exact ⟨ls, hls, hmap.mono fun _ => .inside ht hlabel hmem⟩)
        (fun before m after lower upper hsplit => .member ht hlabel hsplit)
      refine ⟨ls, by simpa using HasLeaves.struct ht hlabel hm hls .nil, ?_⟩
      rw [example?_eq_none_iff.mpr ⟨harray, hmapping⟩]
      simpa [hm] using hlaid

/-- No byte of the leaves of a layout is lost. -/
theorem exists_accounted_footprint (hplain : l.StructsArePlain) {map : ByteMap}
    (h : (l.footprint hash).result = .ok map) :
    ∃ ls, HasLeaves hash l (l.storage.map .ofVariable) ls ∧
      Accounted (l.Merges hash) (l.footprint hash) map ls := by
  refine exists_accounted_of_stack Variable.label (footprint_eq_ok_iff.mp h) (fun v hv part hpart => ?_)
    (fun before v after lower upper hsplit => .declared hsplit)
  obtain ⟨ls, hls, hmap⟩ := exists_accounted_of_expand hplain hpart
  exact ⟨ls, hls, hmap.mono fun _ => .inside hv⟩

/-- **A footprint has as many bytes as its leaves take together, less those that the overlaps tell of.
None is told of exactly where the leaves lie apart, and then each leaf has all its bytes; and an
overlap tells of the least byte that two maps have, one of which was laid over the other.** -/
theorem footprint_accounts {map : ByteMap} (hplain : l.StructsArePlain)
    (h : (l.footprint hash).result = .ok map) :
    ∃ ls, HasLeaves hash l (l.storage.map .ofVariable) ls ∧
      map.size + ((l.footprint hash).notes.map Overlap.count).sum =
        (ls.map fun leaf => leaf.count.toNat).sum ∧
      ((l.footprint hash).notes = [] ↔ ls.Pairwise Leaf.Apart) ∧
      ((l.footprint hash).notes = [] →
        ∀ leaf ∈ ls, ∀ byte, leaf.Covers byte → map[byte]? = some leaf.detail) ∧
      ∀ o ∈ (l.footprint hash).notes, ∃ m, l.Merges hash m ∧ m.Warns o := by
  obtain ⟨ls, hls, hmap⟩ := exists_accounted_footprint hplain h
  have hquiet : (l.footprint hash).notes = [] ↔ ls.Pairwise Leaf.Apart := by
    have hnone := ByteMap.overlapped_eq_zero_iff fun o ho => by
      obtain ⟨m, -, hwarns⟩ := hmap.warned o ho
      exact hwarns.count_pos
    have hbalance := hmap.balance
    rw [← hnone, ← Leaf.card_covered_eq_room_iff, ← hmap.written.size_eq]
    omega
  refine ⟨ls, hls, hmap.balance, hquiet, fun hnotes leaf hleaf byte hcovers => ?_,
    hmap.warned⟩
  rw [hmap.written, Leaf.last?_of_apart (hquiet.mp hnotes) hleaf hcovers]

end Expansion

/-- The two members of the example, the mapping and the later variable take seven bytes, one of them
twice. -/
theorem footprint_accounts_overlapping :
    Layout.overlapping.StructsArePlain ∧
      ∃ map, (Layout.overlapping.footprint lengthHash).result = .ok map ∧ map.size + 1 = 7 ∧
        ∃ m, Layout.overlapping.Merges lengthHash m ∧ m.Warns ⟨"extra", 1, 2, by decide +kernel⟩ := by
  have hplain : Layout.overlapping.StructsArePlain := by
    intro id t ht hm
    rcases Layout.mem_types_of_resolve? ht with _ | ⟨_, _ | ⟨_, _ | ⟨_, hnone⟩⟩⟩
    · cases hm
    · exact ⟨nofun, nofun⟩
    · cases hm
    · cases hnone
  obtain ⟨map, hmap, -⟩ := exists_footprint_of_toBool
    (show Layout.overlapping.leaves lengthHash = .ok _ from rfl) (by decide +kernel)
  have hnotes : (Layout.overlapping.footprint lengthHash).notes =
      [⟨"extra", 1, 2, by decide +kernel⟩] := by
    decide +kernel
  obtain ⟨ls, hls, hsize, -, -, hwarned⟩ := footprint_accounts hplain hmap
  obtain rfl := hls.unique (hasLeaves_of_leaves rfl)
  rw [hnotes] at hsize hwarned
  exact ⟨hplain, map, hmap, hsize, hwarned _ List.mem_cons_self⟩

end UpgradeSafety
