import UpgradeSafety.Proofs.Diff.Check
import UpgradeSafety.Proofs.Footprint.Containment
import UpgradeSafety.Proofs.Footprint.Levels

/-! Containers in containers. A variable keeps values in mappings and arrays, each the element of the
one before, and the layout to come has another type at every level (`Nesting`). A container lets a
change of its elements pass where these are compared themselves, and all but the innermost do. So
the change is told of the innermost container and of the values in it, and of nothing above
(`Layout.check_nested`). -/
namespace UpgradeSafety

/-! ### Labels of elements -/

/-- Where brackets are filled in, one of them stands in the result. -/
theorem Text.replaceFirst_brackets (s : Text) :
    Text.replaceFirst s "[]" "[0]" = s ∨ .char '[' ∈ Text.replaceFirst s "[]" "[0]" := by
  induction s with
  | nil => exact .inl rfl
  | cons p rest ih =>
    unfold Text.replaceFirst
    split
    · exact .inr (List.mem_append_left _ List.mem_cons_self)
    · exact ih.imp (congrArg (p :: ·)) (List.mem_cons_of_mem p)

/-- What has a bracket in it is not the label of room. -/
theorem ne_gapLabel_of_mem {label : Text} (h : .char '[' ∈ label) : label ≠ gapLabel := by
  rintro rfl
  exact absurd h (by decide)

/-- The element of an array is not called like room, unless the array is. -/
theorem replaceFirst_ne_gapLabel {label : Text} (h : label ≠ gapLabel) :
    Text.replaceFirst label "[]" "[0]" ≠ gapLabel := by
  rcases Text.replaceFirst_brackets label with hsame | hmem
  · rwa [hsame]
  · exact ne_gapLabel_of_mem hmem

theorem append_index_ne_gapLabel (label : Text) : label ++ "[0]" ≠ gapLabel :=
  ne_gapLabel_of_mem (List.mem_append_right _ List.mem_cons_self)

/-! ### Versions of a variable -/

/-- A variable of the layout in use, and one of the layout to come. -/
structure Versions where
  old : Spot
  new : Spot

/-- Both versions start at one slot, under one name, and are no room. -/
structure Versions.SamePlace (w : Versions) : Prop where
  label : w.new.label = w.old.label
  parent : w.new.parent = w.old.parent
  slot : w.new.slot = w.old.slot
  start : w.old.startByte = w.old.slot * wordSize
  start' : w.new.startByte = w.old.slot * wordSize
  named : w.old.label ≠ gapLabel

/-- The difference that tells another type of a variable at its first byte. -/
def Versions.retyped (w : Versions) (label label' : Text) : Diff :=
  ⟨.variableType, ⟨w.old.slot, 0⟩, none, some (w.old.detail label), some (w.new.detail label'), none⟩

/-- Both versions are containers of one kind, each of a word, and have the other variable for their
example; but their types are not of one name. -/
structure Wraps (hash : Hash) (src cmp : Layout) (w e : Versions) (t t' : TypeInfo) : Prop where
  old : src.resolve? w.old.type = some t
  new : cmp.resolve? w.new.type = some t'
  plain : t.hasMembers = false
  plain' : t'.hasMembers = false
  size : t.byteCount = wordSize
  size' : t'.byteCount = wordSize
  encoding : t'.encoding = t.encoding
  key : t.encoding = .mapping → t'.key.same t.key = true
  element : HasExample hash w.old t e.old
  element' : HasExample hash w.new t' e.new
  ids : TypeId.strip w.new.type ≠ TypeId.strip w.old.type

/-- Both versions are plain values, of types that are neither of one name nor both addresses. -/
structure Elementary (src cmp : Layout) (y : Versions) (t t' : TypeInfo) : Prop where
  old : src.resolve? y.old.type = some t
  new : cmp.resolve? y.new.type = some t'
  plain : t.hasMembers = false
  plain' : t'.hasMembers = false
  size : 1 ≤ t.byteCount
  size' : 1 ≤ t'.byteCount
  encoding : t.encoding = .inplace
  encoding' : t'.encoding = .inplace
  ids : TypeId.strip y.new.type ≠ TypeId.strip y.old.type
  addresses : ¬(TypeId.isAddressLike y.old.type = true ∧ TypeId.isAddressLike y.new.type = true)

/-- A variable is a container of containers, down to a container `x` of plain values `y`; the slots
are those of the containers around `x`, from the outermost on. -/
inductive Nesting (hash : Hash) (src cmp : Layout) :
    Versions → List Int → Versions → Versions → Prop where
  | last {x y : Versions} {t t' u u' : TypeInfo} (hx : Wraps hash src cmp x y t t')
      (hy : Elementary src cmp y u u') : Nesting hash src cmp x [] x y
  | next {w v x y : Versions} {t t' : TypeInfo} {outer : List Int}
      (hw : Wraps hash src cmp w v t t') (h : Nesting hash src cmp v outer x y) :
      Nesting hash src cmp w (w.old.slot :: outer) x y

section Nesting
variable {hash : Hash} {src cmp : Layout} {w e f x y : Versions} {t t' u u' : TypeInfo}
  {outer : List Int}

/-- The examples of containers at one place are at one place. -/
theorem Wraps.samePlace (h : Wraps hash src cmp w e t t') (hw : w.SamePlace) : e.SamePlace := by
  obtain ⟨old, new⟩ := e
  have hold : HasExample hash w.old t old := h.element
  have hnew : HasExample hash w.new t' new := h.element'
  cases hold with
  | array henc _ hslot =>
    cases hnew with
    | array _ _ hslot' =>
      rw [hw.slot, hslot] at hslot'
      obtain rfl := Option.some.inj hslot'
      exact ⟨congrArg (Text.replaceFirst · "[]" "[0]") hw.label, hw.parent, rfl, rfl, rfl,
        replaceFirst_ne_gapLabel hw.named⟩
    | mapping henc' => cases henc.symm.trans (h.encoding.symm.trans henc')
  | mapping henc _ hkey hslot =>
    cases hnew with
    | array henc' => cases henc.symm.trans (h.encoding.symm.trans henc')
    | mapping _ _ hkey' hslot' =>
      rw [hw.slot, hslot] at hslot'
      obtain rfl := Option.some.inj hslot'
      obtain rfl := Option.some.inj (hkey.symm.trans hkey')
      exact ⟨congrArg (· ++ Text.ofString "[0]") hw.label, hw.parent, rfl, rfl, rfl,
        append_index_ne_gapLabel _⟩

theorem Nesting.wraps (h : Nesting hash src cmp w outer x y) :
    ∃ v t t', Wraps hash src cmp w v t t' := by
  cases h with
  | last hx => exact ⟨_, _, _, hx⟩
  | next hw => exact ⟨_, _, _, hw⟩

/-- What the elements of both versions are, by the kind of the containers. -/
theorem Wraps.references (h : Wraps hash src cmp w e t t') :
    (t.encoding = .mapping ∧ t'.encoding = .mapping ∧ t.value = .text e.old.type ∧
        t'.value = .text e.new.type) ∨
      (t.encoding = .dynamicArray ∧ t'.encoding = .dynamicArray ∧ t.base = .text e.old.type ∧
        t'.base = .text e.new.type) := by
  cases h.element.hasElement with
  | value henc hvalue =>
    cases h.element'.hasElement with
    | value henc' hvalue' => exact .inl ⟨henc, henc', hvalue, hvalue'⟩
    | base henc' => cases henc.symm.trans (h.encoding.symm.trans henc')
  | base henc hbase =>
    cases h.element'.hasElement with
    | value henc' => cases henc.symm.trans (h.encoding.symm.trans henc')
    | base henc' hbase' => exact .inr ⟨henc, henc', hbase, hbase'⟩

/-! ### What is told of a level -/

namespace Comparison

/-- Of versions at one place nothing can be told but a type that does not fit. -/
theorem table_iff_of_samePlace (hw : w.SamePlace) (label label' : Text) (kind : DiffKind) :
    Table Outright src cmp (w.old.detail label) (w.new.detail label') kind ↔
      kind = .variableType ∧ TypeId.strip w.new.type ≠ TypeId.strip w.old.type ∧
        ¬Fits Outright src cmp (w.old.detail label) (w.new.detail label') := by
  have hfull : w.new.fullLabel = w.old.fullLabel := by
    unfold Spot.fullLabel
    rw [hw.parent, hw.label]
  have hgap : ¬Reserves (w.old.detail label) (w.new.detail label') :=
    fun h => h.elim hw.named fun h => hw.named (hw.label.symm.trans h)
  constructor
  · intro h
    cases h with
    | renamed _ hne | replaced _ hne => exact absurd hfull hne
    | retyped _ _ htype hfits => exact ⟨rfl, htype, hfits⟩
  · rintro ⟨rfl, htype, hfits⟩
    exact .retyped hgap hfull htype hfits

/-- Of two details at one place, of types that do not fit each other, the other type is told. -/
theorem table_versions_iff (hw : w.SamePlace)
    (hids : TypeId.strip w.new.type ≠ TypeId.strip w.old.type) {label label' : Text}
    (hfits : ¬Fits Outright src cmp (w.old.detail label) (w.new.detail label')) (s c : Detail)
    (kind : DiffKind) :
    (some (w.old.detail label) = some s ∧ some (w.new.detail label') = some c ∧
        Table Outright src cmp s c kind) ↔
      kind = .variableType ∧ s = w.old.detail label ∧ c = w.new.detail label' := by
  constructor
  · rintro ⟨hs, hc, htable⟩
    obtain rfl := Option.some.inj hs
    obtain rfl := Option.some.inj hc
    exact ⟨((table_iff_of_samePlace hw label label' kind).mp htable).1, rfl, rfl⟩
  · rintro ⟨rfl, rfl, rfl⟩
    exact ⟨rfl, rfl, (table_iff_of_samePlace hw label label' _).mpr ⟨rfl, hids, hfits⟩⟩

/-- The elements of two containers of one kind are compared where they are containers of one kind
themselves. -/
theorem elementsCompared_of_wraps (he : Wraps hash src cmp e f u u') :
    ElementsCompared src cmp (.text e.old.type) (.text e.new.type) := by
  refine ⟨_, u, _, u', Layout.resolve_text he.old, Layout.resolve_text he.new, .inl ?_⟩
  rw [he.encoding]
  rcases he.element.encoding with henc | henc <;> rw [henc] <;> exact ⟨rfl, nofun⟩

theorem not_elementsCompared_of_elementary (he : Elementary src cmp e u u') :
    ¬ElementsCompared src cmp (.text e.old.type) (.text e.new.type) := by
  rintro ⟨_, _, _, st, -, hst, ⟨-, hne⟩ | hm⟩
  all_goals
    obtain ⟨-, rfl⟩ := Prod.mk.inj (Except.ok.inj ((Layout.resolve_text he.new).symm.trans hst))
  · exact hne he.encoding'
  · exact absurd (he.plain'.symm.trans hm) Bool.false_ne_true

/-- A container may change its type exactly where its elements are compared. -/
theorem fits_iff_of_wraps (h : Wraps hash src cmp w e t t') (label label' : Text) :
    Fits Outright src cmp (w.old.detail label) (w.new.detail label') ↔
      ElementsCompared src cmp (.text e.old.type) (.text e.new.type) := by
  rw [fits_iff h.old h.new]
  rcases h.references with ⟨henc, henc', hvalue, hvalue'⟩ | ⟨henc, henc', hbase, hbase'⟩
  · refine ⟨fun hsuits => ?_, fun helements => .mapping henc henc' (h.key henc) ?_⟩
    · cases hsuits with
      | members hm => exact absurd (h.plain'.symm.trans hm) Bool.false_ne_true
      | mapping _ _ _ helements => rwa [hvalue, hvalue'] at helements
      | array hs => cases henc.symm.trans hs
      | addresses _ _ _ hout => exact absurd ⟨henc', h.key henc⟩ hout.2
    · rwa [hvalue, hvalue']
  · refine ⟨fun hsuits => ?_, fun helements => .array henc henc' ?_⟩
    · cases hsuits with
      | members hm => exact absurd (h.plain'.symm.trans hm) Bool.false_ne_true
      | mapping hs => cases henc.symm.trans hs
      | array _ _ helements => rwa [hbase, hbase'] at helements
      | addresses _ _ _ hout => exact absurd henc' hout.1
    · rwa [hbase, hbase']

theorem not_fits_of_elementary (h : Elementary src cmp y u u') (label label' : Text) :
    ¬Fits Outright src cmp (y.old.detail label) (y.new.detail label') := by
  rw [fits_iff h.old h.new]
  intro hsuits
  cases hsuits with
  | members hm => exact absurd (h.plain'.symm.trans hm) Bool.false_ne_true
  | mapping hs | array hs => cases h.encoding.symm.trans hs
  | addresses _ hs hc => exact h.addresses ⟨hs, hc⟩

/-- Of a container of containers nothing is told. -/
theorem not_table_of_wraps (hw : w.SamePlace) (h : Wraps hash src cmp w e t t')
    (he : Wraps hash src cmp e f u u') (label label' : Text) (kind : DiffKind) :
    ¬Table Outright src cmp (w.old.detail label) (w.new.detail label') kind := by
  rw [table_iff_of_samePlace hw]
  rintro ⟨-, -, hfits⟩
  exact hfits ((fits_iff_of_wraps h label label').mpr (elementsCompared_of_wraps he))

/-- Of values another type is told at the bytes that both versions have. -/
theorem table_values_iff (hy : y.SamePlace) (h : Elementary src cmp y u u') (label label' : Text)
    (byte : Int) (s c : Detail) (kind : DiffKind) :
    (Leaf.last? [y.old.leaf label u] byte = some s ∧
        Leaf.last? [y.new.leaf label' u'] byte = some c ∧ Table Outright src cmp s c kind) ↔
      kind = .variableType ∧ s = y.old.detail label ∧ c = y.new.detail label' ∧
        y.old.slot * wordSize ≤ byte ∧
        byte < y.old.slot * wordSize + min u.byteCount u'.byteCount := by
  have hcovers : (y.old.leaf label u).Covers byte ∧ (y.new.leaf label' u').Covers byte ↔
      y.old.slot * wordSize ≤ byte ∧
        byte < y.old.slot * wordSize + min u.byteCount u'.byteCount := by
    show (y.old.startByte ≤ byte ∧ byte < y.old.startByte + u.byteCount) ∧
      (y.new.startByte ≤ byte ∧ byte < y.new.startByte + u'.byteCount) ↔ _
    rw [hy.start, hy.start']
    omega
  rw [← hcovers, Leaf.last?_singleton, Leaf.last?_singleton]
  by_cases hboth : (y.old.leaf label u).Covers byte ∧ (y.new.leaf label' u').Covers byte
  · rw [if_pos hboth.1, if_pos hboth.2]
    refine (table_versions_iff hy h.ids (not_fits_of_elementary h label label') s c kind).trans ?_
    rw [and_iff_left hboth]
  · refine iff_of_false (fun htold => ?_) fun htold => hboth htold.2.2.2
    obtain ⟨hs, hc, -⟩ := htold
    exact hboth ⟨(Option.ite_none_right_eq_some.mp hs).1, (Option.ite_none_right_eq_some.mp hc).1⟩

end Comparison

/-! ### What is told of all levels -/

/-- A byte lies in the word of a slot. -/
theorem Location.slot_ofByte_eq_iff (slot byte : Int) : (Location.ofByte byte).slot = slot ↔
    slot * wordSize ≤ byte ∧ byte < slot * wordSize + wordSize := by
  simp only [Location.ofByte, wordSize]
  omega

/-- The leaf of a container is written last, over what its example has of its word. -/
theorem Leaf.last?_own {v : Spot} {slot : Int} {typeLabel : Text}
    (hstart : v.startByte = slot * wordSize) (hsize : t.byteCount = wordSize) (sample : List Leaf)
    (byte : Int) :
    Leaf.last? (sample ++ [v.leaf typeLabel t]) byte =
      if (Location.ofByte byte).slot = slot then some (v.detail typeLabel)
      else Leaf.last? sample byte := by
  have hcovers : (v.leaf typeLabel t).Covers byte ↔ (Location.ofByte byte).slot = slot := by
    rw [Location.slot_ofByte_eq_iff, ← hstart, ← hsize]
    exact Iff.rfl
  rw [Leaf.last?_append, Leaf.last?_singleton, if_congr hcovers rfl rfl]
  split <;> rfl

/-- The bytes of which a change is told, and what is told of them: of the innermost container the
bytes of its word, and of the values those that both versions have, unless a container further out
has them. -/
theorem Nesting.exists_table_iff (h : Nesting hash src cmp w outer x y) (hw : w.SamePlace)
    {ls ls' : List Leaf} (hls : HasLeaves hash src [w.old] ls)
    (hls' : HasLeaves hash cmp [w.new] ls') :
    ∃ (xl xl' yl yl' : Text) (size : Int), 1 ≤ size ∧
      ∀ (byte : Int) (s c : Detail) (kind : DiffKind),
        (Leaf.last? ls byte = some s ∧ Leaf.last? ls' byte = some c ∧
          Comparison.Table Comparison.Outright src cmp s c kind) ↔
        kind = .variableType ∧ (Location.ofByte byte).slot ∉ outer ∧
          ((Location.ofByte byte).slot = x.old.slot ∧ s = x.old.detail xl ∧ c = x.new.detail xl' ∨
            (Location.ofByte byte).slot ≠ x.old.slot ∧ s = y.old.detail yl ∧ c = y.new.detail yl' ∧
              y.old.slot * wordSize ≤ byte ∧ byte < y.old.slot * wordSize + size) := by
  -- on the containers around the innermost one: each takes its word from what is told below it
  induction h generalizing ls ls' with
  | @last x y t t' u u' hx hy =>
    obtain ⟨xl, sample, hsample, rfl⟩ := hls.exists_sample hx.old hx.plain hx.element
    obtain ⟨xl', sample', hsample', rfl⟩ := hls'.exists_sample hx.new hx.plain' hx.element'
    obtain ⟨yl, -, rfl⟩ := hsample.own hy.old hy.plain hy.encoding
    obtain ⟨yl', -, rfl⟩ := hsample'.own hy.new hy.plain' hy.encoding'
    have hxfits := mt (Comparison.fits_iff_of_wraps hx xl xl').mp
      (Comparison.not_elementsCompared_of_elementary hy)
    refine ⟨xl, xl', yl, yl', min u.byteCount u'.byteCount, Int.le_min.mpr ⟨hy.size, hy.size'⟩,
      fun byte s c kind => ?_⟩
    rw [Leaf.last?_own hw.start hx.size, Leaf.last?_own hw.start' hx.size']
    by_cases hslot : (Location.ofByte byte).slot = x.old.slot
    · rw [if_pos hslot, if_pos hslot, Comparison.table_versions_iff hw hx.ids hxfits]
      simp [hslot]
    · rw [if_neg hslot, if_neg hslot, Comparison.table_values_iff (hx.samePlace hw) hy]
      simp [hslot]
  | @next w v x y t t' outer hv hrest ih =>
    obtain ⟨label, sample, hsample, rfl⟩ := hls.exists_sample hv.old hv.plain hv.element
    obtain ⟨label', sample', hsample', rfl⟩ := hls'.exists_sample hv.new hv.plain' hv.element'
    obtain ⟨xl, xl', yl, yl', size, hsize, hinner⟩ := ih (hv.samePlace hw) hsample hsample'
    refine ⟨xl, xl', yl, yl', size, hsize, fun byte s c kind => ?_⟩
    rw [Leaf.last?_own hw.start hv.size, Leaf.last?_own hw.start' hv.size', List.mem_cons, not_or]
    by_cases hslot : (Location.ofByte byte).slot = w.old.slot
    · rw [if_pos hslot, if_pos hslot]
      refine iff_of_false (fun htold => ?_) fun htold => htold.2.1.1 hslot
      obtain ⟨hs, hc, htable⟩ := htold
      obtain rfl := Option.some.inj hs
      obtain rfl := Option.some.inj hc
      -- the elements are containers, too, so they are compared where they are laid out
      obtain ⟨_, _, _, hwraps⟩ := hrest.wraps
      exact Comparison.not_table_of_wraps hw hv hwraps label label' kind htable
    · rw [if_neg hslot, if_neg hslot, hinner]
      simp only [hslot, not_false_eq_true, true_and]

end Nesting

/-! ### Checks -/

/-- The first byte of a slot. -/
theorem Location.ofByte_start (slot : Int) : Location.ofByte (slot * wordSize) = ⟨slot, 0⟩ := by
  simp only [Location.ofByte, wordSize, Location.mk.injEq]
  omega

theorem Versions.diffAt_start (w : Versions) (label label' : Text) :
    Comparison.diffAt (w.old.slot * wordSize) .variableType (some (w.old.detail label))
      (some (w.new.detail label')) = w.retyped label label' := by
  rw [Comparison.diffAt, Location.ofByte_start]
  rfl

namespace Layout

section Nested
variable {hash : Hash} {src cmp : Layout} {v v' : Variable} {outer : List Int} {x y : Versions}
  {before after : ByteMap}

/-- **Where the variable of a layout is a container of containers, and the types are others at every
level, a check without removals and without a chain tells exactly two differences: that of the
innermost container, and that of the values in it.** The slots are all different where the words of
the containers and the bytes of the values lie apart. -/
theorem check_nested (hsrc : src.storage = [v]) (hcmp : cmp.storage = [v'])
    (hlabel : v'.label = v.label) (hnamed : v.label ≠ gapLabel) (hslot : v'.slot = v.slot)
    (hoffset : v.offset = 0) (hoffset' : v'.offset = 0)
    (h : Nesting hash src cmp ⟨.ofVariable v, .ofVariable v'⟩ outer x y)
    (hslots : (outer ++ [x.old.slot, y.old.slot]).Nodup)
    (hbefore : (src.footprint hash).result = .ok before)
    (hafter : (cmp.footprint hash).result = .ok after) {address : Option Text}
    {reader : Option Reader} (hoff : address = none ∨ address = some [] ∨ reader = none)
    (workers : Workers) : ∃ xl xl' yl yl',
      (check hash src cmp false address reader workers).result =
        .ok (Diff.sort [x.retyped xl xl', y.retyped yl yl']) := by
  obtain ⟨ls, hls, hwritten⟩ := exists_leaves_of_footprint hbefore
  obtain ⟨ls', hls', hwritten'⟩ := exists_leaves_of_footprint hafter
  rw [hsrc] at hls
  rw [hcmp] at hls'
  have hplace : Versions.SamePlace ⟨.ofVariable v, .ofVariable v'⟩ := by
    refine ⟨hlabel, rfl, hslot, ?_, ?_, hnamed⟩
    · show v.slot * wordSize + v.offset = v.slot * wordSize
      rw [hoffset, Int.add_zero]
    · show v'.slot * wordSize + v'.offset = v.slot * wordSize
      rw [hoffset', hslot, Int.add_zero]
  obtain ⟨xl, xl', yl, yl', size, hsize, htable⟩ := h.exists_table_iff hplace hls hls'
  obtain ⟨-, hxy, hout⟩ := List.nodup_append.mp hslots
  have hne : x.old.slot ≠ y.old.slot :=
    fun heq => (List.nodup_cons.mp hxy).1 (List.mem_singleton.mpr heq)
  have hfound {byte : Int} {s c : Detail} (hbyte : Leaf.last? ls byte = some s ∧
      Leaf.last? ls' byte = some c ∧ Comparison.Table Comparison.Outright src cmp s c .variableType) :
      Finding Comparison.Outright src cmp before after false byte .variableType (some s) (some c) :=
    .changed ((hwritten byte).trans hbyte.1) ((hwritten' byte).trans hbyte.2.1) hbyte.2.2
  refine ⟨xl, xl', yl, yl', ?_⟩
  rw [← x.diffAt_start, ← y.diffAt_start]
  refine check_eq_sort_pair hbefore hafter hoff workers (fun _ hs _ => ?_) (hfound ?_) (hfound ?_) ?_
  · exact hne (congrArg Detail.slot (Option.some.inj hs))
  · refine (htable _ _ _ _).mpr ⟨rfl, ?_, .inl ⟨?_, rfl, rfl⟩⟩ <;> rw [Location.ofByte_start]
    exact fun hmem => hout _ hmem _ List.mem_cons_self rfl
  · refine (htable _ _ _ _).mpr ⟨rfl, ?_, .inr ⟨?_, rfl, rfl, Int.le_refl _, by omega⟩⟩ <;>
      rw [Location.ofByte_start]
    · exact fun hmem => hout _ hmem _ (List.mem_cons_of_mem _ List.mem_cons_self) rfl
    · exact hne.symm
  · intro byte kind s c hfinding
    cases hfinding with
    | removed hremovals => cases hremovals
    | changed hs hc htold =>
      obtain ⟨hkind, -, hbyte⟩ := (htable byte _ _ kind).mp
        ⟨(hwritten byte).symm.trans hs, (hwritten' byte).symm.trans hc, htold⟩
      rcases hbyte with ⟨hword, rfl, rfl⟩ | ⟨-, rfl, rfl, hstart, -⟩
      · exact .inl ⟨hkind, rfl, rfl, ((Location.slot_ofByte_eq_iff _ _).mp hword).1⟩
      · exact .inr ⟨hkind, rfl, rfl, hstart⟩

end Nested

/-- A mapping to arrays of single bytes. -/
def ledgerVariable (element : Text) : Variable :=
  ⟨"ledger", "t_mapping(" ++ element ++ ")", 0, 0, .null, .null⟩

def ledger (element : Text) : Layout where
  storage := [ledgerVariable element]
  types := [
    ("t_mapping(" ++ element ++ ")", { TypeInfo.elementary "mapping" 32 with
      encoding := .mapping, key := .text "t_address", value := .text ("t_array(" ++ element ++ ")") }),
    ("t_array(" ++ element ++ ")", { TypeInfo.elementary "array" 32 with
      encoding := .dynamicArray, base := .text element }),
    (element, .elementary element 1)]

/-- The array that stands for those of the mapping, and the byte that stands for those of the array. -/
def ledgerArray (element : Text) : Spot :=
  ⟨"ledger[0]", "t_array(" ++ element ++ ")", 64, 0, none, 64 * wordSize⟩

def ledgerByte (element : Text) : Spot :=
  ⟨"ledger[0]", element, 32, 0, none, 32 * wordSize⟩

/-- The change of the bytes is told of them and of the arrays, and not of the mapping. -/
theorem check_nested_ledger : ∃ xl xl' yl yl',
    (check lengthHash (ledger "t_uint8") (ledger "t_int8") false none none (.inOrder 1)).result =
      .ok (Diff.sort [Versions.retyped ⟨ledgerArray "t_uint8", ledgerArray "t_int8"⟩ xl xl',
        Versions.retyped ⟨ledgerByte "t_uint8", ledgerByte "t_int8"⟩ yl yl']) := by
  obtain ⟨before, hbefore, -⟩ := exists_footprint_of_toBool
    (show (ledger "t_uint8").leaves lengthHash = .ok _ from rfl) (by decide +kernel)
  obtain ⟨after, hafter, -⟩ := exists_footprint_of_toBool
    (show (ledger "t_int8").leaves lengthHash = .ok _ from rfl) (by decide +kernel)
  have hmapping : Wraps lengthHash (ledger "t_uint8") (ledger "t_int8")
      ⟨.ofVariable (ledgerVariable "t_uint8"), .ofVariable (ledgerVariable "t_int8")⟩
      ⟨ledgerArray "t_uint8", ledgerArray "t_int8"⟩ _ _ :=
    ⟨rfl, rfl, rfl, rfl, rfl, rfl, rfl, fun _ => rfl, hasExample_of_example? rfl,
      hasExample_of_example? rfl, by decide +kernel⟩
  have harray : Wraps lengthHash (ledger "t_uint8") (ledger "t_int8")
      ⟨ledgerArray "t_uint8", ledgerArray "t_int8"⟩ ⟨ledgerByte "t_uint8", ledgerByte "t_int8"⟩ _ _ :=
    ⟨rfl, rfl, rfl, rfl, rfl, rfl, rfl, nofun, hasExample_of_example? rfl,
      hasExample_of_example? rfl, by decide +kernel⟩
  have hbyte : Elementary (ledger "t_uint8") (ledger "t_int8")
      ⟨ledgerByte "t_uint8", ledgerByte "t_int8"⟩ _ _ :=
    ⟨rfl, rfl, rfl, rfl, by decide, by decide, rfl, rfl, by decide +kernel, by decide⟩
  exact check_nested (show (ledger "t_uint8").storage = [ledgerVariable "t_uint8"] from rfl)
    (show (ledger "t_int8").storage = [ledgerVariable "t_int8"] from rfl) rfl (by decide) rfl rfl rfl
    (.next hmapping (.last harray hbyte)) (by decide) hbefore hafter (.inl rfl) (.inOrder 1)

end Layout

end UpgradeSafety
