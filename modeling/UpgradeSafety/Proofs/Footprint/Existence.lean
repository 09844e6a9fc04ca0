import UpgradeSafety.Proofs.Footprint.Containment
import UpgradeSafety.Proofs.Footprint.Levels

/-! Where a layout that has leaves has a footprint. It has none only where two maps clash
(`exists_footprint_or_clashes`). The maps that are laid over each other are written by leaves of the
layout, one part before the other (`Layout.Merges.sublist`), except those of an example that a struct
drops; so leaves that lie apart, or that share no bytes but such as can be shown, make a footprint
(`exists_footprint_of_apart`, `exists_footprint_of_short`). -/
namespace UpgradeSafety

/-- A type that a variable of the layout comes down to. -/
def Layout.Uses (l : Layout) (id : Text) : Prop :=
  ∃ v ∈ l.storage, l.Reaches v.type id

/-- A struct is encoded as something that keeps storage elsewhere. Its example is expanded, and makes
no difference to its leaves. -/
def TypeInfo.DropsExample (t : TypeInfo) : Prop :=
  t.hasMembers = true ∧ (t.encoding = .mapping ∨ t.encoding = .dynamicArray)

section Existence
variable {hash : Hash} {l : Layout} {ls : List Leaf}

/-- A layout that has leaves has a footprint, or two of its maps clash. -/
theorem exists_footprint_or_clashes (h : l.leaves hash = .ok ls) :
    (∃ map, (l.footprint hash).result = .ok map ∧ map.WrittenBy ls) ∨
      ∃ n, (l.footprint hash).result = .error (.longNumber n) ∧ l.Clashes hash n := by
  cases hresult : (l.footprint hash).result with
  | ok map =>
    obtain ⟨ms, hms, hwritten⟩ := exists_leaves_eq_of_footprint hresult
    obtain rfl := Except.ok.inj (hms.symm.trans h)
    exact .inl ⟨map, rfl, hwritten⟩
  | error e =>
    have hrecursive : ∀ v ∈ l.storage, ¬l.Recursive v.type := by
      intro v hv
      obtain ⟨ms, hms⟩ := exists_leavesOf_of_leaves h hv
      exact not_recursive_of_leavesOf (v := .ofVariable v) hms
    rcases exists_hasFault_of_footprint hrecursive hresult with ⟨v, hv, hfault⟩ | ⟨n, rfl, hclash⟩
    · obtain ⟨ms, hms⟩ := exists_leavesOf_of_leaves h hv
      exact absurd hms (hfault.leavesOf_ne_ok _ _)
    · exact .inr ⟨n, rfl, hclash⟩

/-- The leaves of variables and of more variables are those of the former and those of the latter. -/
theorem HasLeaves.exists_append {vs ws : List Spot} (h : HasLeaves hash l (vs ++ ws) ls) :
    ∃ ms ns, HasLeaves hash l vs ms ∧ HasLeaves hash l ws ns ∧ ls = ms ++ ns := by
  induction vs generalizing ls with
  | nil => exact ⟨[], ls, .nil, h, rfl⟩
  | cons v vs ih =>
    obtain ⟨own, rest, hown, hrest, rfl⟩ := h.uncons
    obtain ⟨ms, ns, hms, hns, rfl⟩ := ih hrest
    exact ⟨own ++ ms, ns, hown.append hms, hns, (List.append_assoc own ms ns).symm⟩

/-- One of some variables after others has its own leaves after theirs. -/
theorem HasLeaves.exists_split {α : Type} {spot : α → Spot} {before after : List α} {x : α}
    (h : HasLeaves hash l ((before ++ x :: after).map spot) ls) :
    ∃ lower upper, HasLeaves hash l (before.map spot) lower ∧ HasLeaves hash l [spot x] upper ∧
      (lower ++ upper).Sublist ls := by
  rw [List.map_append, List.map_cons] at h
  obtain ⟨lower, rest, hlower, hrest, rfl⟩ := h.exists_append
  obtain ⟨upper, others, hupper, -, rfl⟩ := hrest.uncons
  refine ⟨lower, upper, hlower, hupper, ?_⟩
  rw [← List.append_assoc]
  exact List.sublist_append_left _ others

/-- The maps that the expansion of a variable lays over each other are written by leaves of it, unless
they belong to an example that is dropped. -/
theorem Spot.Merges.sublist {v : Spot} {m : Merge} (h : Spot.Merges hash l v m)
    (hls : HasLeaves hash l [v] ls) : (m.lower ++ m.upper).Sublist ls ∨
      ∃ id t, l.Reaches v.type id ∧ l.resolve? id = some t ∧ t.DropsExample := by
  induction h generalizing ls with
  | own _ _ hleaves =>
    obtain rfl := hls.unique hleaves
    exact .inl (.refl _)
  | @sample _ _ t _ ht he _ ih =>
    by_cases hm : t.hasMembers = true
    · exact .inr ⟨_, t, .refl, ht, hm, he.encoding.symm⟩
    · obtain ⟨typeLabel, sample, hsample, rfl⟩ := hls.exists_sample ht (by simpa using hm) he
      refine (ih hsample).imp (fun hsub => hsub.trans (List.sublist_append_left _ _)) fun hdrops => ?_
      obtain ⟨id, t, hreach, hdrops⟩ := hdrops
      exact ⟨id, t, .head (.element ht he.hasElement) hreach, hdrops⟩
  | member ht hlabel hsplit hlower hupper =>
    obtain ⟨typeLabel, hlabel', hparts⟩ := hls.parts ht (by simp [TypeInfo.hasMembers, hsplit])
    obtain rfl := Except.ok.inj (hlabel.symm.trans hlabel')
    rw [hsplit] at hparts
    obtain ⟨lower, upper, hlower', hupper', hsub⟩ := hparts.exists_split
    obtain rfl := hlower.unique hlower'
    obtain rfl := hupper.unique hupper'
    exact .inl hsub
  | inside ht hlabel hm _ ih =>
    obtain ⟨typeLabel, hlabel', hparts⟩ := hls.parts ht (TypeInfo.hasMembers_of_mem hm)
    obtain rfl := Except.ok.inj (hlabel.symm.trans hlabel')
    obtain ⟨before, after, hsplit⟩ := List.append_of_mem hm
    rw [hsplit] at hparts
    obtain ⟨lower, upper, -, hupper, hsub⟩ := hparts.exists_split
    refine (ih hupper).imp (fun h => h.trans ((List.sublist_append_right _ _).trans hsub))
      fun hdrops => ?_
    obtain ⟨id, t, hreach, hdrops⟩ := hdrops
    exact ⟨id, t, .head (.member ht hm) hreach, hdrops⟩

/-- So are those of a layout. -/
theorem Layout.Merges.sublist {m : Merge} (h : l.Merges hash m)
    (hls : HasLeaves hash l (l.storage.map .ofVariable) ls) : (m.lower ++ m.upper).Sublist ls ∨
      ∃ id t, l.Uses id ∧ l.resolve? id = some t ∧ t.DropsExample := by
  cases h with
  | declared hsplit hlower hupper =>
    rw [hsplit] at hls
    obtain ⟨lower, upper, hlower', hupper', hsub⟩ := hls.exists_split
    obtain rfl := hlower.unique hlower'
    obtain rfl := hupper.unique hupper'
    exact .inl hsub
  | inside hv h =>
    obtain ⟨before, after, hsplit⟩ := List.append_of_mem hv
    rw [hsplit] at hls
    obtain ⟨lower, upper, -, hupper, hsub⟩ := hls.exists_split
    refine (h.sublist hupper).imp (fun h => h.trans ((List.sublist_append_right _ _).trans hsub))
      fun hdrops => ?_
    obtain ⟨id, t, hreach, hdrops⟩ := hdrops
    exact ⟨id, t, ⟨_, hv, hreach⟩, hdrops⟩

/-- Where two maps clash and no example is dropped, two leaves share the byte. -/
theorem Layout.Clashes.exists_shared {n : LongNumber} (h : l.Clashes hash n)
    (hls : HasLeaves hash l (l.storage.map .ofVariable) ls) :
    ¬ls.Pairwise (fun a b => a.Covers n.number → b.Covers n.number → False) ∨
      ∃ id t, l.Uses id ∧ l.resolve? id = some t ∧ t.DropsExample := by
  obtain ⟨m, hm, hclash⟩ := h
  obtain ⟨⟨a, ha, hacovers⟩, b, hb, hbcovers⟩ := hclash.shared
  refine (hm.sublist hls).imp_left fun hsub hpairwise => ?_
  exact (List.pairwise_append.mp (hpairwise.sublist hsub)).2.2 a ha b hb hacovers hbcovers

/-- Where no example is dropped, a layout whose leaves share no bytes but such as can be shown has a
footprint. -/
theorem exists_footprint_of_short (h : l.leaves hash = .ok ls)
    (hplain : ∀ id t, l.Uses id → l.resolve? id = some t → ¬t.DropsExample)
    (hshort : ls.Pairwise fun a b => ∀ byte, a.Covers byte → b.Covers byte → Numeral.Short byte) :
    ∃ map, (l.footprint hash).result = .ok map ∧ map.WrittenBy ls := by
  rcases exists_footprint_or_clashes h with hmap | ⟨n, -, hclash⟩
  · exact hmap
  · obtain ⟨m, -, hlong⟩ := id hclash
    rcases hclash.exists_shared (hasLeaves_of_leaves h) with hshared | ⟨id, t, hid, ht, hdrops⟩
    · exact absurd (hshort.imp fun hab ha hb => hlong.long (hab _ ha hb)) hshared
    · exact absurd hdrops (hplain id t hid ht)

/-- Where no example is dropped, a layout whose leaves lie apart has a footprint. -/
theorem exists_footprint_of_apart (h : l.leaves hash = .ok ls)
    (hplain : ∀ id t, l.Uses id → l.resolve? id = some t → ¬t.DropsExample)
    (hapart : ls.Pairwise Leaf.Apart) :
    ∃ map, (l.footprint hash).result = .ok map ∧ map.WrittenBy ls :=
  exists_footprint_of_short h hplain
    (hapart.imp fun hab byte ha hb => (hab byte ⟨ha, hb⟩).elim)

end Existence

end UpgradeSafety
