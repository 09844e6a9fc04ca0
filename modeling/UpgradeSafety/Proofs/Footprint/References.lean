import UpgradeSafety.Proofs.Footprint.Leaves

/-! What the details of a footprint refer to. Building a footprint follows every reference that a
comparison of its details follows again: the type of a detail is known, and so is the type of the
elements of a container (`settles_of_footprint`). -/
namespace UpgradeSafety

/-- The type of a detail is known, has bytes of its own, and leads on to types that are known. -/
def Layout.Settles (l : Layout) (d : Detail) : Prop :=
  ∃ t, l.resolve? d.type = some t ∧ t.hasMembers = false ∧
    (t.encoding = .dynamicArray → ∃ e, l.resolve t.base = .ok e) ∧
    (t.encoding = .mapping → ∃ e, l.resolve t.value = .ok e)

/-- What every detail of a map refers to is known. -/
def Layout.SettlesAll (l : Layout) (map : ByteMap) : Prop :=
  ∀ (byte : Int) (d : Detail), map[byte]? = some d → l.Settles d

section Settles
variable {hash : Hash} {l : Layout}

theorem HasLeaves.resolve_head {v : Spot} {rest : List Spot} {ls : List Leaf}
    (h : HasLeaves hash l (v :: rest) ls) : ∃ e, l.resolve (.text v.type) = .ok e := by
  cases h with
  | plain ht | container ht | struct ht => exact ⟨_, Layout.resolve_text ht⟩

theorem HasLeaves.settles {vs : List Spot} {ls : List Leaf} (h : HasLeaves hash l vs ls) :
    ∀ leaf ∈ ls, l.Settles leaf.detail := by
  induction h with
  | nil => nofun
  | plain ht _ hm harray hmapping _ ih =>
    rw [List.forall_mem_cons]
    exact ⟨⟨_, ht, hm, fun h => absurd h harray, fun h => absurd h hmapping⟩, ih⟩
  | container ht _ hm he hsample _ ihsample ih =>
    rw [List.forall_mem_append, List.forall_mem_cons]
    refine ⟨ihsample, ⟨_, ht, hm, ?_⟩, ih⟩
    have hknown := hsample.resolve_head
    cases he with
    | array henc hbase => exact ⟨fun _ => hbase ▸ hknown, fun h => (nomatch henc.symm.trans h)⟩
    | mapping henc hvalue => exact ⟨fun h => (nomatch henc.symm.trans h), fun _ => hvalue ▸ hknown⟩
  | struct _ _ _ _ _ ihparts ih =>
    rw [List.forall_mem_append]
    exact ⟨ihparts, ih⟩

theorem settles_of_footprint {map : ByteMap} (h : (l.footprint hash).result = .ok map) :
    l.SettlesAll map := by
  intro byte d hd
  obtain ⟨ls, hls, hmap⟩ := exists_leaves_of_footprint h
  obtain ⟨leaf, hleaf, _, rfl⟩ := Leaf.exists_leaf_of_last? ((hmap byte).symm.trans hd)
  exact hls.settles leaf hleaf

end Settles

end UpgradeSafety
