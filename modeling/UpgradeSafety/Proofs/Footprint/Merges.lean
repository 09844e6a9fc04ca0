import UpgradeSafety.Proofs.Footprint.Leaves

/-! The maps that an expansion lays over each other, each as the leaves that have written it
(`Layout.Merges`). Where two of them share bytes, the first one is noted, and where it is too long to
be shown the maps clash (`Merge.Clashes`). What has been expanded has no maps that clash
(`not_clashes_of_footprint`). -/
namespace UpgradeSafety

/-- One map laid over another, each as the leaves that have written it. -/
structure Merge where
  /-- The variable whose map is laid over the other. -/
  context : Text
  lower : List Leaf
  upper : List Leaf

namespace Merge

/-- Both maps have the byte. -/
def Shares (m : Merge) (byte : Int) : Prop :=
  (∃ leaf ∈ m.lower, leaf.Covers byte) ∧ ∃ leaf ∈ m.upper, leaf.Covers byte

/-- The maps share bytes, and the first one is too long to be shown. -/
structure Clashes (m : Merge) (n : LongNumber) : Prop where
  shared : m.Shares n.number
  least : ∀ byte, m.Shares byte → n.number ≤ byte
  long : ¬Numeral.Short n.number

end Merge

/-- The expansion of a variable lays one map over another: the own bytes of a variable over those of
its example, or the bytes of a member over those of the members before it. -/
inductive Spot.Merges (hash : Hash) (l : Layout) : Spot → Merge → Prop where
  | own {v : Spot} {t : TypeInfo} {typeLabel : Text} {sample : List Leaf}
      (ht : l.resolve? v.type = some t) (hm : t.hasMembers = false)
      (h : HasLeaves hash l [v] (sample ++ [v.leaf typeLabel t])) :
      Merges hash l v ⟨v.fullLabel, sample, [v.leaf typeLabel t]⟩
  | sample {v e : Spot} {t : TypeInfo} {m : Merge} (ht : l.resolve? v.type = some t)
      (he : HasExample hash v t e) (h : Merges hash l e m) : Merges hash l v m
  | member {v : Spot} {t : TypeInfo} {typeLabel : Text} {before after : List Variable}
      {m : Variable} {lower upper : List Leaf} (ht : l.resolve? v.type = some t)
      (hlabel : Spot.typeLabel v.type t = .ok typeLabel)
      (hsplit : t.members = before ++ m :: after)
      (hlower : HasLeaves hash l (before.map (v.member typeLabel)) lower)
      (hupper : HasLeaves hash l [v.member typeLabel m] upper) :
      Merges hash l v ⟨v.fullLabel ++ "." ++ m.label, lower, upper⟩
  | inside {v : Spot} {t : TypeInfo} {typeLabel : Text} {m : Variable} {merge : Merge}
      (ht : l.resolve? v.type = some t) (hlabel : Spot.typeLabel v.type t = .ok typeLabel)
      (hm : m ∈ t.members) (h : Merges hash l (v.member typeLabel m) merge) : Merges hash l v merge

/-- The expansion of a layout lays one map over another: the bytes of a variable over those of the
variables before it, or two maps within a variable. -/
inductive Layout.Merges (hash : Hash) (l : Layout) : Merge → Prop where
  | declared {v : Variable} {before after : List Variable} {lower upper : List Leaf}
      (hsplit : l.storage = before ++ v :: after)
      (hlower : HasLeaves hash l (before.map .ofVariable) lower)
      (hupper : HasLeaves hash l [.ofVariable v] upper) : Merges hash l ⟨v.label, lower, upper⟩
  | inside {v : Variable} {m : Merge} (hv : v ∈ l.storage)
      (h : Spot.Merges hash l (.ofVariable v) m) : Merges hash l m

/-- Two maps clash that an expansion would lay over each other. -/
def Layout.Clashes (hash : Hash) (l : Layout) (n : LongNumber) : Prop :=
  ∃ m, l.Merges hash m ∧ m.Clashes n

section Merges
variable {hash : Hash} {l : Layout} {lower upper : ByteMap} {ls ms : List Leaf} {context : Text}

theorem Merge.shares_iff (hlower : lower.WrittenBy ls) (hupper : upper.WrittenBy ms) {byte : Int} :
    (Merge.mk context ls ms).Shares byte ↔ byte ∈ lower ∧ byte ∈ upper := by
  rw [hlower.mem_iff, hupper.mem_iff]
  rfl

/-- Maps clash where the first byte that both have is too long to be shown. -/
theorem Merge.clashes_of_meets (hlower : lower.WrittenBy ls) (hupper : upper.WrittenBy ms)
    {first : Int} (h : lower.Meets upper first) (hlong : ¬Numeral.Short first) :
    (Merge.mk context ls ms).Clashes ⟨first⟩ := by
  refine ⟨(shares_iff hlower hupper).mpr ⟨h.mem_lower, h.mem_upper⟩, fun byte hbyte => ?_, hlong⟩
  obtain ⟨hl, hu⟩ := (shares_iff hlower hupper).mp hbyte
  exact h.least byte hl hu

/-- A map that fits over another does not clash with it. -/
theorem Merge.not_clashes_of_fits (hlower : lower.WrittenBy ls) (hupper : upper.WrittenBy ms)
    (h : lower.Fits upper) (n : LongNumber) : ¬(Merge.mk context ls ms).Clashes n := by
  intro hclash
  obtain ⟨hl, hu⟩ := (shares_iff hlower hupper).mp hclash.shared
  exact hclash.long (h n.number ⟨hl, hu, fun byte hl hu =>
    hclash.least byte ((shares_iff hlower hupper).mpr ⟨hl, hu⟩)⟩)

/-- The leaves of variables whose maps have been laid over each other. -/
theorem exists_hasLeaves_of_stack {α : Type} {spot : α → Spot} {depth : Nat} {xs : List α}
    {map : ByteMap} (h : ByteMap.Stack (fun x => expand hash l depth (spot x)) ∅ xs map) :
    ∃ ls, HasLeaves hash l (xs.map spot) ls ∧ map.WrittenBy ls := by
  obtain ⟨parts, hparts, hwritten⟩ := ByteMap.WrittenBy.stack h
    (fun _ _ _ hpart => exists_leavesOf_of_expand hpart) .empty
  exact ⟨_, .ofParts ((mapM_eq_ok_iff.mp hparts).imp fun _ _ => hasLeaves_of_leavesOf), hwritten⟩

theorem exists_hasLeaves_of_expand {depth : Nat} {v : Spot} {map : ByteMap}
    (h : (expand hash l depth v).result = .ok map) :
    ∃ ls, HasLeaves hash l [v] ls ∧ map.WrittenBy ls := by
  obtain ⟨ls, hls, hwritten⟩ := exists_leavesOf_of_expand h
  exact ⟨ls, hasLeaves_of_leavesOf hls, hwritten⟩

/-- Of maps that have been laid over each other in turn, none clashes with those before it. -/
theorem not_clashes_of_stack {α : Type} {spot : α → Spot} {depth : Nat} {before after : List α} {x : α}
    {map : ByteMap}
    (h : ByteMap.Stack (fun x => expand hash l depth (spot x)) ∅ (before ++ x :: after) map)
    (hls : HasLeaves hash l (before.map spot) ls) (hms : HasLeaves hash l [spot x] ms)
    (n : LongNumber) : ¬(Merge.mk context ls ms).Clashes n := by
  obtain ⟨mid, part, hmid, hpart, hfits⟩ := h.exists_part
  obtain ⟨ls', hls', hlower⟩ := exists_hasLeaves_of_stack hmid
  obtain ⟨ms', hms', hupper⟩ := exists_hasLeaves_of_expand hpart
  obtain rfl := hls.unique hls'
  obtain rfl := hms.unique hms'
  exact Merge.not_clashes_of_fits hlower hupper hfits n

/-- A variable that has been expanded has no maps that clash. -/
theorem not_clashes_of_expand {depth : Nat} {v : Spot} {map : ByteMap}
    (h : (expand hash l depth v).result = .ok map) {m : Merge} (hm : Spot.Merges hash l v m)
    (n : LongNumber) : ¬m.Clashes n := by
  induction depth generalizing v map with
  | zero => cases h
  | succ depth ih =>
    obtain ⟨t, sample, typeLabel, ht, hsample, hlabel, hown⟩ := expand_succ_eq_ok_iff.mp h
    cases hm with
    | @own _ t' typeLabel' ls ht' hm' hleaves =>
      obtain rfl := Option.some.inj (ht.symm.trans ht')
      obtain ⟨-, hfits, -⟩ := hown.resolve_right fun hstruct => by simp [hm'] at hstruct
      obtain ⟨ls', hls', hlower⟩ :=
        exists_leavesOf_of_sample (fun _ _ => exists_leavesOf_of_expand) hsample
      have hwhole := hasLeaves_of_leavesOf
        (leavesOf_succ_eq_ok_iff.mpr ⟨t, ls', typeLabel, ht, hls', hlabel, .inl ⟨hm', rfl⟩⟩)
      obtain ⟨rfl, hleaf⟩ := List.append_inj' (hwhole.unique hleaves) rfl
      rw [← hleaf]
      exact Merge.not_clashes_of_fits hlower (.interval v typeLabel t) hfits n
    | sample ht' he hm =>
      obtain rfl := Option.some.inj (ht.symm.trans ht')
      rcases hsample with ⟨hnone, -⟩ | ⟨w, hw, hsample⟩
      · obtain ⟨harray, hmapping⟩ := not_container_of_example? hnone
        exact (he.encoding.elim harray hmapping).elim
      · obtain rfl := he.unique (hasExample_of_example? hw)
        exact ih hsample hm
    | member ht' hlabel' hsplit hlower hupper =>
      obtain rfl := Option.some.inj (ht.symm.trans ht')
      obtain rfl := Except.ok.inj (hlabel.symm.trans hlabel')
      obtain ⟨-, hstack⟩ := hown.resolve_left fun hplain => by
        simp [TypeInfo.hasMembers, hsplit] at hplain
      rw [hsplit] at hstack
      exact not_clashes_of_stack hstack hlower hupper n
    | inside ht' hlabel' hmem hm =>
      obtain rfl := Option.some.inj (ht.symm.trans ht')
      obtain rfl := Except.ok.inj (hlabel.symm.trans hlabel')
      obtain ⟨before, after, hsplit⟩ := List.append_of_mem hmem
      obtain ⟨-, hstack⟩ := hown.resolve_left fun hplain => by
        simp [TypeInfo.hasMembers, hsplit] at hplain
      rw [hsplit] at hstack
      obtain ⟨mid, part, -, hpart, -⟩ := hstack.exists_part
      exact ih hpart hm

/-- A layout that has a footprint has no maps that clash. -/
theorem not_clashes_of_footprint {map : ByteMap} (h : (l.footprint hash).result = .ok map)
    (n : LongNumber) : ¬l.Clashes hash n := by
  rintro ⟨m, hm, hclash⟩
  have hstack := footprint_eq_ok_iff.mp h
  cases hm with
  | declared hsplit hlower hupper =>
    rw [hsplit] at hstack
    exact not_clashes_of_stack hstack hlower hupper n hclash
  | inside hv hm =>
    obtain ⟨before, after, hsplit⟩ := List.append_of_mem hv
    rw [hsplit] at hstack
    obtain ⟨mid, part, -, hpart, -⟩ := hstack.exists_part
    exact not_clashes_of_expand hpart hm n hclash

end Merges

end UpgradeSafety
