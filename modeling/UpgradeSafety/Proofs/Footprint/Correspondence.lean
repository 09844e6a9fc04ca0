import UpgradeSafety.Proofs.Footprint.Leaves

/-! Layouts that come down to leaves alike. Where every variable of one layout has a counterpart in
another, and counterparts bring forth counterparts (`Counterparts`), the leaves of the two layouts
correspond one by one, and where one layout has a footprint so has the other
(`exists_footprint_of_corresponds`). Corresponding leaves that take the same bytes write maps that
correspond byte by byte (`Leaf.last?_of_aligned`), and lie apart in one layout as in the other
(`Layout.LiesApart.of_aligned`). -/
namespace UpgradeSafety

/-! ### Leaves and the bytes that they take -/

namespace Leaf

/-- No byte is covered by both. -/
def Apart (a b : Leaf) : Prop :=
  ∀ byte, ¬(a.Covers byte ∧ b.Covers byte)

/-- Both take the same bytes. -/
def Aligned (a b : Leaf) : Prop :=
  b.detail.startByte = a.detail.startByte ∧ b.count = a.count

theorem Aligned.covers_iff {a b : Leaf} (h : a.Aligned b) (byte : Int) :
    b.Covers byte ↔ a.Covers byte := by
  unfold Covers
  rw [h.1, h.2]

/-- A leaf that has a byte covers its first one. -/
theorem covers_start {leaf : Leaf} (h : 1 ≤ leaf.count) : leaf.Covers leaf.detail.startByte :=
  ⟨Int.le_refl _, by omega⟩

/-- Leaves lie apart where one ends before the other starts. -/
theorem apart_of_le {a b : Leaf} (h : a.detail.startByte + a.count ≤ b.detail.startByte ∨
    b.detail.startByte + b.count ≤ a.detail.startByte) : a.Apart b := by
  intro byte hboth
  obtain ⟨⟨ha, ha'⟩, hb, hb'⟩ := hboth
  omega

/-- Of leaves that lie apart, the one that covers a byte has it. -/
theorem last?_of_apart {ls : List Leaf} {leaf : Leaf} {byte : Int} (h : ls.Pairwise Apart)
    (hleaf : leaf ∈ ls) (hcovers : leaf.Covers byte) : last? ls byte = some leaf.detail := by
  obtain ⟨before, after, rfl⟩ := List.append_of_mem hleaf
  have hafter := (List.pairwise_append.mp h).2.1
  refine last?_split hcovers fun other hother hother' => ?_
  exact List.rel_of_pairwise_cons hafter hother byte ⟨hcovers, hother'⟩

section Correspondence
variable {P : Leaf → Leaf → Prop} {ls ms : List Leaf}

/-- Of leaves that correspond and take the same bytes, corresponding ones have a byte last, or none
has it. -/
theorem last?_of_aligned (h : List.Forall₂ P ls ms) (hP : ∀ a b, P a b → a.Aligned b)
    (byte : Int) : last? ls byte = none ∧ last? ms byte = none ∨ ∃ a b, P a b ∧ a.Covers byte ∧
      last? ls byte = some a.detail ∧ last? ms byte = some b.detail := by
  induction h with
  | nil => exact .inl ⟨rfl, rfl⟩
  | @cons a b rest rest' hab _ ih =>
    rw [← List.singleton_append, last?_append, ← List.singleton_append (l := rest'), last?_append,
      last?_singleton, last?_singleton, if_congr ((hP a b hab).covers_iff byte) rfl rfl]
    rcases ih with ⟨hls, hms⟩ | ⟨a', b', hab', hcovers, hls, hms⟩
    · rw [hls, hms]
      by_cases hcovers : a.Covers byte
      · rw [if_pos hcovers, if_pos hcovers]
        exact .inr ⟨a, b, hab, hcovers, rfl, rfl⟩
      · rw [if_neg hcovers, if_neg hcovers]
        exact .inl ⟨rfl, rfl⟩
    · rw [hls, hms]
      exact .inr ⟨a', b', hab', hcovers, rfl, rfl⟩

theorem pairwise_apart_of_aligned (h : List.Forall₂ P ls ms) (hP : ∀ a b, P a b → a.Aligned b)
    (hls : ls.Pairwise Apart) : ms.Pairwise Apart := by
  induction h with
  | nil => exact .nil
  | @cons a b rest rest' hab hrest ih =>
    obtain ⟨hhead, htail⟩ := List.pairwise_cons.mp hls
    refine .cons (fun other hother byte hboth => ?_) (ih htail)
    obtain ⟨other', hother', halike⟩ := exists_mem_of_forall₂ hrest.flip hother
    exact hhead other' hother' byte ⟨((hP a b hab).covers_iff byte).mp hboth.1,
      ((hP other' other halike).covers_iff byte).mp hboth.2⟩

end Correspondence

end Leaf

/-- No two leaves of the variables of a layout cover one byte. -/
def Layout.LiesApart (hash : Hash) (l : Layout) : Prop :=
  ∃ ls, HasLeaves hash l (l.storage.map .ofVariable) ls ∧ ls.Pairwise Leaf.Apart

/-- A layout lies apart where of any two of its leaves one ends before the other starts. -/
theorem Layout.liesApart_of_leaves {hash : Hash} {l : Layout} {ls : List Leaf}
    (h : l.leaves hash = .ok ls)
    (hls : ls.Pairwise fun a b => a.detail.startByte + a.count ≤ b.detail.startByte ∨
      b.detail.startByte + b.count ≤ a.detail.startByte) : l.LiesApart hash :=
  ⟨ls, hasLeaves_of_leaves h, hls.imp Leaf.apart_of_le⟩

/-- A variable comes down to a leaf, beside others. -/
def Layout.HasLeaf (hash : Hash) (l : Layout) (v : Variable) (leaf : Leaf) : Prop :=
  ∃ ls, HasLeaves hash l [.ofVariable v] ls ∧ leaf ∈ ls

/-- Where the leaves of a layout can be computed, so can those of each of its variables. -/
theorem exists_leavesOf_of_leaves {hash : Hash} {l : Layout} {ls : List Leaf}
    (h : l.leaves hash = .ok ls) {v : Variable} (hv : v ∈ l.storage) :
    ∃ ms, leavesOf hash l l.depth (.ofVariable v) = .ok ms := by
  obtain ⟨parts, hparts, -⟩ := map_eq_ok_iff.mp h
  obtain ⟨ms, -, hms⟩ := exists_mem_of_forall₂ (mapM_eq_ok_iff.mp hparts) hv
  exact ⟨ms, hms⟩

/-- A layout whose leaves take the same bytes as those of a layout that lies apart lies apart. -/
theorem Layout.LiesApart.of_aligned {hash : Hash} {l l' : Layout} (h : l.LiesApart hash)
    {P : Leaf → Leaf → Prop} {ls ms : List Leaf} (hls : l.leaves hash = .ok ls)
    (hms : l'.leaves hash = .ok ms) (hall : List.Forall₂ P ls ms)
    (hP : ∀ a b, P a b → a.Aligned b) : l'.LiesApart hash := by
  obtain ⟨ls', hls', hapart⟩ := h
  obtain rfl := hls'.unique (hasLeaves_of_leaves hls)
  exact ⟨ms, hasLeaves_of_leaves hms, Leaf.pairwise_apart_of_aligned hall hP hapart⟩

/-! ### Examples -/

section Examples
variable {hash : Hash} {v e : Spot} {t : TypeInfo}

theorem follow_text {type field id : Text} (h : id ≠ []) :
    Spot.follow type field (.text id) = .ok id := by
  have hvacant : (Value.text id).isVacant = false := by
    simpa [Value.isVacant] using h
  rw [Spot.follow, hvacant]
  rfl

theorem ne_empty_of_follow {type field id : Text} {reference : Value}
    (h : Spot.follow type field reference = .ok id) : id ≠ [] := by
  obtain rfl := follow_eq_ok h
  intro hid
  subst hid
  cases h

/-- A type that is neither an array nor a mapping has no example, and no other type is without. -/
theorem example?_eq_none_iff :
    v.example? hash t = .ok none ↔ t.encoding ≠ .dynamicArray ∧ t.encoding ≠ .mapping := by
  refine ⟨not_container_of_example?, fun h => ?_⟩
  unfold Spot.example?
  split
  · next henc => exact absurd henc h.1
  · next henc => exact absurd henc h.2
  · rfl

/-- An example is found where there is one whose type is named. -/
theorem example?_eq_some_iff :
    v.example? hash t = .ok (some e) ↔ HasExample hash v t e ∧ e.type ≠ [] := by
  constructor
  · intro h
    refine ⟨hasExample_of_example? h, ?_⟩
    unfold Spot.example? at h
    split at h
    · split at h
      · cases h
      · obtain ⟨type, hfollow, hsome⟩ := map_eq_ok_iff.mp h
        rw [← Option.some.inj hsome]
        exact ne_empty_of_follow hfollow
    · split at h
      · cases h
      · obtain ⟨type, hfollow, hsome⟩ := map_eq_ok_iff.mp h
        rw [← Option.some.inj hsome]
        exact ne_empty_of_follow hfollow
    · cases h
  · intro h
    obtain ⟨he, hne⟩ := h
    cases he with
    | array henc hbase hslot =>
      simp only [Spot.example?, henc, Slot.ofElement?, hslot, Option.map_some, hbase, Int.add_zero]
      exact map_eq_ok_iff.mpr ⟨_, follow_text hne, rfl⟩
    | mapping henc hvalue hkey hslot =>
      simp only [Spot.example?, henc, Slot.ofKey?, hkey, hslot, hvalue]
      exact map_eq_ok_iff.mpr ⟨_, follow_text hne, rfl⟩

end Examples

/-- The label of a type is written out of the label that a report gives it, whatever its id. -/
theorem typeLabel_of_label {id id' typeLabel : Text} {t t' : TypeInfo} (h : t'.label = t.label)
    (hlabel : Spot.typeLabel id t = .ok typeLabel) : Spot.typeLabel id' t' = .ok typeLabel := by
  unfold Spot.typeLabel at hlabel ⊢
  rw [h]
  split at hlabel
  · exact hlabel
  · cases hlabel

/-! ### Counterparts -/

/-- What a variable and its counterpart, each with its type, have in common: both are laid out in one
way, an example that can be found has a counterpart, and so have the members and the leaf of the
variable itself. -/
structure Counterparts (hash : Hash) (R : Spot → Spot → Prop) (P : Leaf → Leaf → Prop)
    (v v' : Spot) (t t' : TypeInfo) : Prop where
  encoding : t'.encoding = t.encoding
  struct : t'.hasMembers = t.hasMembers
  sample : ∀ e, HasExample hash v t e → e.type ≠ [] →
    ∃ e', HasExample hash v' t' e' ∧ e'.type ≠ [] ∧ R e e'
  parts : ∀ typeLabel, Spot.typeLabel v.type t = .ok typeLabel →
    ∃ typeLabel', Spot.typeLabel v'.type t' = .ok typeLabel' ∧
      P (v.leaf typeLabel t) (v'.leaf typeLabel' t') ∧
      List.Forall₂ (fun m m' => R (v.member typeLabel m) (v'.member typeLabel' m')) t.members
        t'.members

/-- Steps of one traversal that have answers like those of another make up an answer like its. -/
theorem exists_mapM_of_forall₂ {ε α α' β β' : Type} {S : α → α' → Prop} {Q : β → β' → Prop}
    {f : α → Except ε β} {g : α' → Except ε β'} {xs : List α} {xs' : List α'} {ys : List β}
    (h : List.Forall₂ S xs xs')
    (hstep : ∀ x x', S x x' → ∀ y, f x = .ok y → ∃ y', g x' = .ok y' ∧ Q y y')
    (hys : xs.mapM f = .ok ys) : ∃ ys', xs'.mapM g = .ok ys' ∧ List.Forall₂ Q ys ys' := by
  simp only [mapM_eq_ok_iff] at hys ⊢
  induction h generalizing ys with
  | nil =>
    cases hys
    exact ⟨[], .nil, .nil⟩
  | cons hx _ ih =>
    obtain ⟨y, rest, hy, hrest, rfl⟩ := List.forall₂_cons_left_iff.mp hys
    obtain ⟨y', hy', hQ⟩ := hstep _ _ hx y hy
    obtain ⟨rest', hrest', hQrest⟩ := ih hrest
    exact ⟨y' :: rest', .cons hy' hrest', .cons hQ hQrest⟩

/-- An example of a variable that can be found has a counterpart, also where a struct makes no use of
it. -/
theorem Counterparts.exists_example? {hash : Hash} {R : Spot → Spot → Prop} {P : Leaf → Leaf → Prop}
    {v v' : Spot} {t t' : TypeInfo} (h : Counterparts hash R P v v' t t') {w? : Option Spot}
    (hw : v.example? hash t = .ok w?) :
    ∃ w'?, v'.example? hash t' = .ok w'? ∧ Option.Rel R w? w'? := by
  cases w? with
  | none =>
    rw [example?_eq_none_iff, ← h.encoding] at hw
    exact ⟨none, example?_eq_none_iff.mpr hw, .none⟩
  | some w =>
    obtain ⟨hexample, hne⟩ := example?_eq_some_iff.mp hw
    obtain ⟨w', hexample', hne', hpair⟩ := h.sample w hexample hne
    exact ⟨some w', example?_eq_some_iff.mpr ⟨hexample', hne'⟩, .some hpair⟩

/-- What a variable comes to on so many levels, another one of another layout comes to as well: leaves
that correspond, and a map of the same bytes. -/
structure Corresponds (hash : Hash) (P : Leaf → Leaf → Prop) (l l' : Layout) (depth depth' : Nat)
    (v v' : Spot) : Prop where
  leaves : ∀ ls, leavesOf hash l depth v = .ok ls →
    ∃ ls', leavesOf hash l' depth' v' = .ok ls' ∧ List.Forall₂ P ls ls'
  bytes : ∀ map, (expand hash l depth v).result = .ok map →
    ∃ map', (expand hash l' depth' v').result = .ok map' ∧ map.SameBytes map'

section Counterparts
variable {hash : Hash} {l l' : Layout} {R : Spot → Spot → Prop} {P : Leaf → Leaf → Prop}

/-- What comes of the example of a variable, if there is one, comes of that of its counterpart. -/
theorem Counterparts.exists_sample {v v' : Spot} {t t' : TypeInfo}
    (h : Counterparts hash R P v v' t t') {α : Type} (f g : Spot → Except ExpansionFault α)
    (Q : α → α → Prop) {empty sample : α}
    (hsample : v.example? hash t = .ok none ∧ sample = empty ∨
      ∃ w, v.example? hash t = .ok (some w) ∧ f w = .ok sample)
    (hpair : ∀ w w', R w w' → f w = .ok sample → ∃ sample', g w' = .ok sample' ∧ Q sample sample')
    (hempty : Q empty empty) :
    ∃ sample', (v'.example? hash t' = .ok none ∧ sample' = empty ∨
      ∃ w, v'.example? hash t' = .ok (some w) ∧ g w = .ok sample') ∧ Q sample sample' := by
  rcases hsample with ⟨hnone, rfl⟩ | ⟨w, hw, hsample⟩
  · obtain ⟨_, hnone', ⟨⟩⟩ := h.exists_example? hnone
    exact ⟨_, .inl ⟨hnone', rfl⟩, hempty⟩
  · obtain ⟨_, hw', ⟨hw⟩⟩ := h.exists_example? hw
    obtain ⟨sample', hsample', hsamples⟩ := hpair _ _ hw hsample
    exact ⟨sample', .inr ⟨_, hw', hsample'⟩, hsamples⟩

section Step
variable {depth : Nat} {v v' : Spot} {t t' : TypeInfo}

/-- Counterparts have leaves that correspond if what is on the level below them corresponds. -/
theorem Counterparts.exists_leavesOf (h : Counterparts hash R P v v' t t')
    (ht' : l'.resolve? v'.type = some t')
    (ih : ∀ {w w'}, R w w' → Corresponds hash P l l' depth depth w w') {ls : List Leaf}
    (ht : l.resolve? v.type = some t) (hls : leavesOf hash l (depth + 1) v = .ok ls) :
    ∃ ls', leavesOf hash l' (depth + 1) v' = .ok ls' ∧ List.Forall₂ P ls ls' := by
  obtain ⟨t, sample, typeLabel, heq, hsample, hlabel, hown⟩ := leavesOf_succ_eq_ok_iff.mp hls
  obtain rfl := Option.some.inj (ht.symm.trans heq)
  obtain ⟨typeLabel', hlabel', hleaf, hmembers⟩ := h.parts typeLabel hlabel
  obtain ⟨sample', hsample', hsamples⟩ := h.exists_sample (leavesOf hash l depth)
    (leavesOf hash l' depth) (List.Forall₂ P) hsample (fun _ _ hw => (ih hw).leaves sample) .nil
  simp only [leavesOf_succ_eq_ok_iff]
  rcases hown with ⟨hm, rfl⟩ | ⟨hm, parts, hparts, rfl⟩
  · exact ⟨_, ⟨t', sample', typeLabel', ht', hsample', hlabel', .inl ⟨h.struct.trans hm, rfl⟩⟩,
      List.rel_append hsamples (.cons hleaf .nil)⟩
  · obtain ⟨parts', hparts', hall⟩ := exists_mapM_of_forall₂ hmembers
      (fun _ _ hm part hpart => (ih hm).leaves part hpart) hparts
    exact ⟨_, ⟨t', sample', typeLabel', ht', hsample', hlabel',
      .inr ⟨h.struct.trans hm, parts', hparts', rfl⟩⟩, List.rel_flatten hall⟩

/-- And they have maps of the same bytes. -/
theorem Counterparts.exists_expand (h : Counterparts hash R P v v' t t')
    (ht' : l'.resolve? v'.type = some t') (hP : ∀ a b, P a b → a.Aligned b)
    (ih : ∀ {w w'}, R w w' → Corresponds hash P l l' depth depth w w') {map : ByteMap}
    (ht : l.resolve? v.type = some t) (hmap : (expand hash l (depth + 1) v).result = .ok map) :
    ∃ map', (expand hash l' (depth + 1) v').result = .ok map' ∧ map.SameBytes map' := by
  obtain ⟨t, sample, typeLabel, heq, hsample, hlabel, hown⟩ := expand_succ_eq_ok_iff.mp hmap
  obtain rfl := Option.some.inj (ht.symm.trans heq)
  obtain ⟨typeLabel', hlabel', hleaf, hmembers⟩ := h.parts typeLabel hlabel
  obtain ⟨sample', hsample', hsamples⟩ := h.exists_sample (fun w => (expand hash l depth w).result)
    (fun w => (expand hash l' depth w).result) ByteMap.SameBytes hsample
    (fun _ _ hw => (ih hw).bytes sample) fun _ => .rfl
  simp only [expand_succ_eq_ok_iff]
  rcases hown with ⟨hm, hfits, rfl⟩ | ⟨hm, hstack⟩
  · obtain ⟨hstart, hcount⟩ := hP _ _ hleaf
    have hinterval : (ByteMap.interval (v.detail typeLabel) v.startByte t.byteCount).SameBytes
        (.interval (v'.detail typeLabel') v'.startByte t'.byteCount) := by
      intro byte
      rw [ByteMap.mem_interval_iff, ByteMap.mem_interval_iff]
      change v'.startByte = v.startByte at hstart
      change t'.byteCount = t.byteCount at hcount
      rw [hstart, hcount]
    exact ⟨_, ⟨t', sample', typeLabel', ht', hsample', hlabel', .inl ⟨h.struct.trans hm,
      hfits.of_sameBytes hsamples hinterval, rfl⟩⟩, hsamples.union hinterval⟩
  · obtain ⟨map', hstack', hsame⟩ := hstack.exists_sameBytes hmembers
      (fun _ _ hm part hpart => (ih hm).bytes part hpart) (fun _ => .rfl)
    exact ⟨map', ⟨t', sample', typeLabel', ht', hsample', hlabel',
      .inr ⟨h.struct.trans hm, hstack'⟩⟩, hsame⟩

end Step

/-- Counterparts correspond where leaves and counterparts take the same bytes, down to so many levels
of types. -/
theorem corresponds_of_counterparts (hP : ∀ a b, P a b → a.Aligned b)
    (hstep : ∀ v v' t, R v v' → l.resolve? v.type = some t →
      ∃ t', l'.resolve? v'.type = some t' ∧ Counterparts hash R P v v' t t')
    {depth : Nat} {v v' : Spot} (hv : R v v') : Corresponds hash P l l' depth depth v v' := by
  induction depth generalizing v v' with
  | zero => exact ⟨nofun, nofun⟩
  | succ depth ih =>
    constructor
    · intro ls hls
      obtain ⟨t, _, _, ht, -⟩ := leavesOf_succ_eq_ok_iff.mp hls
      obtain ⟨t', ht', hboth⟩ := hstep v v' t hv ht
      exact hboth.exists_leavesOf ht' ih ht hls
    · intro map hmap
      obtain ⟨t, _, _, ht, -⟩ := expand_succ_eq_ok_iff.mp hmap
      obtain ⟨t', ht', hboth⟩ := hstep v v' t hv ht
      exact hboth.exists_expand ht' hP ih ht hmap

variable {S : Variable → Variable → Prop}

/-- Where all the variables of a layout correspond to their counterparts, so do the leaves of the
layouts. -/
theorem exists_leaves_of_corresponds {ls : List Leaf}
    (hstorage : List.Forall₂ S l.storage l'.storage)
    (hstep : ∀ v v', S v v' →
      Corresponds hash P l l' l.depth l'.depth (.ofVariable v) (.ofVariable v'))
    (h : l.leaves hash = .ok ls) : ∃ ls', l'.leaves hash = .ok ls' ∧ List.Forall₂ P ls ls' := by
  obtain ⟨parts, hparts, rfl⟩ := map_eq_ok_iff.mp h
  obtain ⟨parts', hparts', hall⟩ :=
    exists_mapM_of_forall₂ hstorage (fun v v' hv => (hstep v v' hv).leaves) hparts
  exact ⟨parts'.flatten, map_eq_ok_iff.mpr ⟨parts', hparts', rfl⟩, List.rel_flatten hall⟩

/-- And the layout of the counterparts has a footprint where the other one has, too, each written by
its leaves. -/
theorem exists_footprint_of_corresponds {before : ByteMap}
    (hstorage : List.Forall₂ S l.storage l'.storage)
    (hstep : ∀ v v', S v v' →
      Corresponds hash P l l' l.depth l'.depth (.ofVariable v) (.ofVariable v'))
    (h : (l.footprint hash).result = .ok before) :
    ∃ after ls ls', (l'.footprint hash).result = .ok after ∧ l.leaves hash = .ok ls ∧
      l'.leaves hash = .ok ls' ∧ List.Forall₂ P ls ls' ∧ before.WrittenBy ls ∧
      after.WrittenBy ls' := by
  obtain ⟨ls, hls, hwritten⟩ := exists_leaves_eq_of_footprint h
  obtain ⟨ls', hls', hall⟩ := exists_leaves_of_corresponds hstorage hstep hls
  obtain ⟨after, hstack, -⟩ := (footprint_eq_ok_iff.mp h).exists_sameBytes hstorage
    (fun v v' hv => (hstep v v' hv).bytes) (fun _ => .rfl)
  have hafter := footprint_eq_ok_iff.mpr hstack
  obtain ⟨ms, hms, hwritten'⟩ := exists_leaves_eq_of_footprint hafter
  obtain rfl := Except.ok.inj (hms.symm.trans hls')
  exact ⟨after, ls, ms, hafter, hls, hms, hall, hwritten, hwritten'⟩

end Counterparts

end UpgradeSafety
