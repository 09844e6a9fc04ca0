import UpgradeSafety.Proofs.Footprint.Existence

/-! Layouts that say the same in another order. The variables of a layout, and the members of its
structs, may be declared in another order and carry other numbers and names of contracts, and types
that no variable comes down to may be there or not (`Layout.Rearranged`). The leaves are then the
same in another order (`exists_leaves_rearranged`), so where they lie apart, the footprint is the
same byte by byte (`exists_footprint_rearranged`). -/
namespace UpgradeSafety

/-! ### The same in another order -/

/-- A declaration without what an expansion makes no use of. -/
def Variable.bare (v : Variable) : Variable :=
  { v with astId := .null, contract := .null }

/-- A type whose members may be declared in another order. -/
structure TypeInfo.Rearranged (t t' : TypeInfo) : Prop where
  encoding : t'.encoding = t.encoding
  label : t'.label = t.label
  size : t'.size = t.size
  base : t'.base = t.base
  key : t'.key = t.key
  value : t'.value = t.value
  members : (t.members.map Variable.bare).Perm (t'.members.map Variable.bare)

/-- A layout whose variables may be declared in another order, and that has the types of the other
layout where this one makes use of them. -/
structure Layout.Rearranged (l l' : Layout) : Prop where
  storage : (l.storage.map Variable.bare).Perm (l'.storage.map Variable.bare)
  types : ∀ id, l.Uses id → ∀ t, l.resolve? id = some t →
    ∃ t', l'.resolve? id = some t' ∧ t.Rearranged t'

/-! ### Leaves in another order -/

namespace Leaf

theorem Apart.symm {a b : Leaf} (h : a.Apart b) : b.Apart a :=
  fun byte hboth => h byte ⟨hboth.2, hboth.1⟩

/-- Of leaves that lie apart, the order does not matter. -/
theorem last?_of_perm {ls ms : List Leaf} (h : ls.Perm ms) (hapart : ls.Pairwise Apart)
    (byte : Int) : last? ms byte = last? ls byte := by
  have hapart' : ms.Pairwise Apart := (h.pairwise_iff Apart.symm).mp hapart
  by_cases hcovered : ∃ leaf ∈ ls, leaf.Covers byte
  · obtain ⟨leaf, hleaf, hcovers⟩ := hcovered
    rw [last?_of_apart hapart hleaf hcovers, last?_of_apart hapart' (h.mem_iff.mp hleaf) hcovers]
  · have hcovered' : ¬∃ leaf ∈ ms, leaf.Covers byte :=
      fun ⟨leaf, hleaf, hcovers⟩ => hcovered ⟨leaf, h.mem_iff.mpr hleaf, hcovers⟩
    rw [← last?_isSome_iff, Option.not_isSome_iff_eq_none] at hcovered hcovered'
    rw [hcovered, hcovered']

end Leaf

section Leaves
variable {hash : Hash} {l l' : Layout}

theorem TypeInfo.Rearranged.hasMembers {t t' : TypeInfo} (h : t.Rearranged t') :
    t'.hasMembers = t.hasMembers := by
  have hlength := h.members.length_eq
  rw [List.length_map, List.length_map] at hlength
  refine congrArg not (Bool.eq_iff_iff.mpr ?_)
  rw [List.isEmpty_iff_length_eq_zero, List.isEmpty_iff_length_eq_zero, hlength]

/-- Where each declaration comes to the same leaves in some order, so do the declarations in another
order. -/
theorem exists_mapM_of_perm_bare {f g : Variable → Except ExpansionFault (List Leaf)}
    (hf : ∀ v, f v.bare = f v) (hg : ∀ v, g v.bare = g v) {vs vs' : List Variable}
    (h : (vs.map Variable.bare).Perm (vs'.map Variable.bare))
    (hstep : ∀ v ∈ vs, ∀ ls, f v = .ok ls → ∃ ms, g v = .ok ms ∧ ls.Perm ms)
    {parts : List (List Leaf)} (hparts : vs.mapM f = .ok parts) :
    ∃ parts', vs'.mapM g = .ok parts' ∧ parts.flatten.Perm parts'.flatten := by
  have hbare (vs : List Variable) : (vs.map Variable.bare).mapM f = vs.mapM f := by
    rw [List.mapM_map]
    exact mapM_congr fun v _ => hf v
  obtain ⟨same, hsame, hperm⟩ := exists_mapM_of_perm h ((hbare vs).trans hparts)
  rw [hbare] at hsame
  have hmem : List.Forall₂ (fun v v' => v' = v ∧ v ∈ vs') vs' vs' :=
    List.forall₂_same.mpr fun v hv => ⟨rfl, hv⟩
  have hstep' : ∀ v v', v' = v ∧ v ∈ vs' → ∀ ls, f v = .ok ls →
      ∃ ms, g v' = .ok ms ∧ ls.Perm ms := by
    rintro v _ ⟨rfl, hv⟩ ls hls
    obtain ⟨w, hw, heq⟩ := List.mem_map.mp (h.mem_iff.mpr (List.mem_map_of_mem hv))
    rw [← hf, ← heq, hf] at hls
    rw [← hg, ← heq, hg]
    exact hstep w hw ls hls
  obtain ⟨parts', hparts', hall⟩ := exists_mapM_of_forall₂ hmem hstep' hsame
  exact ⟨parts', hparts', hperm.flatten.trans (List.Perm.flatten_congr hall)⟩

theorem example?_rearranged {t t' : TypeInfo} (h : t.Rearranged t') (v : Spot) :
    v.example? hash t' = v.example? hash t := by
  unfold Spot.example?
  rw [h.encoding, h.base, h.value]

/-- A variable whose types are there, perhaps rearranged, has the same leaves in some order. -/
theorem exists_leavesOf_rearranged {depth : Nat} {v : Spot}
    (htypes : ∀ id, l.Reaches v.type id → ∀ t, l.resolve? id = some t →
      ∃ t', l'.resolve? id = some t' ∧ t.Rearranged t')
    {ls : List Leaf} (h : leavesOf hash l depth v = .ok ls) :
    ∃ ms, leavesOf hash l' depth v = .ok ms ∧ ls.Perm ms := by
  induction depth generalizing v ls with
  | zero => cases h
  | succ depth ih =>
    obtain ⟨t, sample, typeLabel, ht, hsample, hlabel, hown⟩ := leavesOf_succ_eq_ok_iff.mp h
    obtain ⟨t', ht', hsame⟩ := htypes _ .refl t ht
    have hbelow {w : Spot} (hw : l.LeadsTo v.type w.type) {ms : List Leaf}
        (hms : leavesOf hash l depth w = .ok ms) :
        ∃ ms', leavesOf hash l' depth w = .ok ms' ∧ ms.Perm ms' :=
      ih (fun id hid => htypes id (.head hw hid)) hms
    obtain ⟨sample', hsample', hsamples⟩ : ∃ sample', (v.example? hash t' = .ok none ∧ sample' = [] ∨
        ∃ e, v.example? hash t' = .ok (some e) ∧ leavesOf hash l' depth e = .ok sample') ∧
          sample.Perm sample' := by
      rw [example?_rearranged hsame]
      rcases hsample with ⟨hnone, rfl⟩ | ⟨e, he, hsample⟩
      · exact ⟨[], .inl ⟨hnone, rfl⟩, .nil⟩
      · obtain ⟨sample', hsample', hsamples⟩ :=
          hbelow (.element ht (hasExample_of_example? he).hasElement) hsample
        exact ⟨sample', .inr ⟨e, he, hsample'⟩, hsamples⟩
    simp only [leavesOf_succ_eq_ok_iff]
    have hlabel' : Spot.typeLabel v.type t' = .ok typeLabel := typeLabel_of_label hsame.label hlabel
    rcases hown with ⟨hm, rfl⟩ | ⟨hm, parts, hparts, rfl⟩
    · refine ⟨_, ⟨t', sample', typeLabel, ht', hsample', hlabel',
        .inl ⟨hsame.hasMembers.trans hm, rfl⟩⟩, hsamples.append (.of_eq ?_)⟩
      rw [Spot.leaf, Spot.leaf, TypeInfo.byteCount, TypeInfo.byteCount, hsame.size]
    · obtain ⟨parts', hparts', hall⟩ := exists_mapM_of_perm_bare
        (g := fun m => leavesOf hash l' depth (v.member typeLabel m)) (fun _ => rfl) (fun _ => rfl)
        hsame.members (fun m hm _ hpart => hbelow (.member ht hm) hpart) hparts
      exact ⟨_, ⟨t', sample', typeLabel, ht', hsample', hlabel',
        .inr ⟨hsame.hasMembers.trans hm, parts', hparts', rfl⟩⟩, hall⟩

/-- A rearranged layout has the same leaves in some order. -/
theorem exists_leaves_rearranged (h : l.Rearranged l') {ls : List Leaf}
    (hls : l.leaves hash = .ok ls) : ∃ ms, l'.leaves hash = .ok ms ∧ ls.Perm ms := by
  obtain ⟨parts, hparts, rfl⟩ := map_eq_ok_iff.mp hls
  have hvariable : ∀ v ∈ l.storage, ∀ part, leavesOf hash l l.depth (.ofVariable v) = .ok part →
      ∃ part', leavesOf hash l' l'.depth (.ofVariable v) = .ok part' ∧ part.Perm part' := by
    intro v hv part hpart
    obtain ⟨part', hpart', hperm⟩ :=
      exists_leavesOf_rearranged (fun id hid => h.types id ⟨v, hv, hid⟩) hpart
    -- the other layout may have fewer types, and so fewer levels
    exact ⟨part', leavesOf_depth hpart', hperm⟩
  obtain ⟨parts', hparts', hall⟩ := exists_mapM_of_perm_bare
    (g := fun v => leavesOf hash l' l'.depth (.ofVariable v)) (fun _ => rfl) (fun _ => rfl)
    h.storage hvariable hparts
  exact ⟨_, map_eq_ok_iff.mpr ⟨parts', hparts', rfl⟩, hall⟩

/-- The details of a footprint are of types that the layout makes use of. -/
theorem uses_of_footprint {map : ByteMap} (h : (l.footprint hash).result = .ok map) {byte : Int}
    {d : Detail} (hd : map[byte]? = some d) : l.Uses d.type := by
  obtain ⟨ls, hls, hmap⟩ := exists_leaves_of_footprint h
  obtain ⟨leaf, hleaf, -, rfl⟩ := Leaf.exists_leaf_of_last? ((hmap byte).symm.trans hd)
  obtain ⟨_, hspot, hreach⟩ := hls.exists_reaches leaf hleaf
  obtain ⟨v, hv, rfl⟩ := List.mem_map.mp hspot
  exact ⟨v, hv, hreach⟩

/-- Where the leaves lie apart, a rearranged layout has the same footprint, unless maps clash that
belong to an example that is dropped. -/
theorem exists_footprint_rearranged (h : l.Rearranged l') (hapart : l.LiesApart hash)
    {map : ByteMap} (hmap : (l.footprint hash).result = .ok map) :
    (∃ map', (l'.footprint hash).result = .ok map' ∧ ∀ byte : Int, map'[byte]? = map[byte]?) ∨
      ∃ n id t, (l'.footprint hash).result = .error (.longNumber n) ∧ ¬Numeral.Short n.number ∧
        l'.Uses id ∧ l'.resolve? id = some t ∧ t.DropsExample := by
  obtain ⟨ls, hls, hwritten⟩ := exists_leaves_eq_of_footprint hmap
  obtain ⟨ms, hms, hperm⟩ := exists_leaves_rearranged h hls
  obtain ⟨ls', hls', hapart⟩ := hapart
  obtain rfl := hls'.unique (hasLeaves_of_leaves hls)
  rcases exists_footprint_or_clashes hms with ⟨map', hmap', hwritten'⟩ | ⟨n, hfault, hclash⟩
  · refine .inl ⟨map', hmap', fun byte => ?_⟩
    rw [hwritten byte, hwritten' byte, Leaf.last?_of_perm hperm hapart]
  · obtain ⟨m, -, hlong⟩ := id hclash
    rcases hclash.exists_shared (hasLeaves_of_leaves hms) with hshared | ⟨id, t, hdrops⟩
    · have hapart' := (hperm.pairwise_iff Leaf.Apart.symm).mp hapart
      exact absurd (hapart'.imp fun hab ha hb => hab n.number ⟨ha, hb⟩) hshared
    · exact .inr ⟨n, id, t, hfault, hlong.long, hdrops⟩

end Leaves

end UpgradeSafety
