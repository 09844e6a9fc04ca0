import UpgradeSafety.Proofs.Diff.Check
import UpgradeSafety.Proofs.Footprint.Containment

/-! Layouts whose variables have other names. The name of a variable stands in the labels of its
examples, with an index for each container that it is in (`indices`), and in the full labels of the
members of a struct, as their parent's. A check tells a new name once for the variable and once for
each example of it that is no struct, and does not tell it again of the members
(`check_tells_renamings`). -/
namespace UpgradeSafety

/-! ### Labels of examples -/

/-- What an example of an example of a variable has behind the name of the variable. -/
def indices (k : Nat) : Text :=
  (List.replicate k ("[0]" : Text)).flatten

theorem indices_append (k : Nat) : indices k ++ "[0]" = indices (k + 1) := by
  rw [indices, indices, List.replicate_succ', List.flatten_append]
  rfl

/-- A name in which no bracket stands. -/
def PlainName (name : Text) : Prop :=
  .char '(' ∉ name ∧ .char '[' ∉ name ∧ .char ']' ∉ name

instance (name : Text) : Decidable (PlainName name) :=
  inferInstanceAs (Decidable (_ ∧ _ ∧ _))

section Labels
variable {name : Text}

/-- Between the brackets of an index there is a number. -/
theorem not_isInfix_indexed (h : PlainName name) (k : Nat) :
    ¬ ("[]" : Text) <:+: name ++ indices k := by
  rw [← Text.contains_iff, Bool.not_eq_true]
  obtain ⟨-, h, -⟩ := h
  induction name with
  | nil =>
    induction k with
    | zero => rfl
    | succ k ih => exact ih
  | cons p rest ih =>
    rw [List.mem_cons, not_or] at h
    obtain ⟨hp, hrest⟩ := h
    have hstart : List.isPrefixOf "[]" (p :: (rest ++ indices k)) = false := by
      show ((Point.char '[' == p) && _) = false
      rw [beq_eq_false_iff_ne.mpr hp, Bool.false_and]
    rw [List.cons_append, Text.contains, hstart, Bool.false_or]
    exact ih hrest

theorem replaceFirst_indexed (h : PlainName name) (k : Nat) :
    Text.replaceFirst (name ++ indices k) "[]" "[0]" = name ++ indices k :=
  Text.replaceFirst_of_not_isInfix (not_isInfix_indexed h k)

theorem startsWith_paren_indexed (h : PlainName name) (k : Nat) (rest : Text) :
    Text.startsWith (name ++ indices k) ("(" ++ rest) = false := by
  have hmem : .char '(' ∉ name ++ indices k := by
    rw [List.mem_append, not_or]
    refine ⟨h.1, fun hflat => ?_⟩
    obtain ⟨index, hindex, hparen⟩ := List.mem_flatten.mp hflat
    rw [List.eq_of_mem_replicate hindex] at hparen
    exact absurd hparen (by decide)
  rw [← Bool.not_eq_true]
  intro hstarts
  exact hmem ((List.isPrefixOf_iff_prefix.mp hstarts).subset List.mem_cons_self)

/-- No example has the label of a variable that only reserves room. -/
theorem indexed_eq_gapLabel {k : Nat} (h : name ++ indices k = gapLabel) : name = gapLabel := by
  cases k with
  | zero => simpa [indices] using h
  | succ k =>
    have hmem : .char '[' ∈ gapLabel := h ▸ List.mem_append_right _ List.mem_cons_self
    exact absurd hmem (by decide)

end Labels

/-! ### Other names -/

/-- The layout with other names for its variables, in the order of their declaration. -/
def Layout.relabel (l : Layout) (names : List Text) : Layout :=
  { l with storage := (l.storage.zip names).map fun entry => { entry.1 with label := entry.2 } }

/-- Names for the variables of a layout: one for each, without brackets as the old ones, and none
that turns room into a variable or a variable into room. -/
structure Layout.Relabels (l : Layout) (names : List Text) : Prop where
  length : names.length = l.storage.length
  plain : ∀ entry ∈ l.storage.zip names, PlainName entry.1.label ∧ PlainName entry.2
  reserved : ∀ entry ∈ l.storage.zip names, entry.1.label = gapLabel ↔ entry.2 = gapLabel

/-- A detail of a variable, or of an example of it, and the same under the variable's new name. -/
def Detail.Renamed (old new : Text) (s c : Detail) : Prop :=
  ∃ k, s.label = old ++ indices k ∧
    c = { s with label := new ++ indices k, fullLabel := new ++ indices k }

/-- What comes of a variable under its old name and under its new one. -/
inductive Spot.Relabelled (old new : Text) : Spot → Spot → Prop where
  /-- The variable, or an example of it. -/
  | whole {v : Spot} {k : Nat} (hparent : v.parent = none) (hlabel : v.label = old ++ indices k) :
      Relabelled old new v { v with label := new ++ indices k }
  /-- What is in a struct. -/
  | part {v : Spot} {p : Parent} (p' : Parent) (hparent : v.parent = some p) :
      Relabelled old new v { v with parent := some p' }

/-- A leaf under the old name of a variable and under its new one. -/
structure Leaf.Relabelled (old new : Text) (a b : Leaf) : Prop where
  aligned : a.Aligned b
  whole : a.detail.parent = none →
    a.detail.fullLabel = a.detail.label ∧ a.detail.Renamed old new b.detail
  part : a.detail.parent ≠ none → b.detail.type = a.detail.type ∧ b.detail.label = a.detail.label

section Spots
variable {hash : Hash} {old new : Text}

/-- Examples go by the index that is added to the name. -/
theorem exists_example_relabelled (hold : PlainName old) (hnew : PlainName new) {v v' e : Spot}
    {t : TypeInfo} (hv : v.Relabelled old new v') (he : HasExample hash v t e) :
    ∃ e', HasExample hash v' t e' ∧ e'.type = e.type ∧ e.Relabelled old new e' := by
  cases hv with
  | @whole k hparent hlabel =>
    cases he with
    | array henc hbase hslot =>
      refine ⟨_, .array henc hbase hslot, rfl, ?_⟩
      simp only [hlabel, replaceFirst_indexed hold, replaceFirst_indexed hnew]
      exact .whole (v := v.element (old ++ indices k) _ _) hparent rfl
    | mapping henc hvalue hkey hslot =>
      refine ⟨_, .mapping henc hvalue hkey hslot, rfl, ?_⟩
      simp only [hlabel, List.append_assoc, indices_append]
      exact .whole (v := v.element (old ++ indices (k + 1)) _ _) hparent rfl
  | part p' hparent =>
    cases he with
    | array henc hbase hslot => exact ⟨_, .array henc hbase hslot, rfl, .part p' hparent⟩
    | mapping henc hvalue hkey hslot =>
      exact ⟨_, .mapping henc hvalue hkey hslot, rfl, .part p' hparent⟩

theorem leaf_relabelled {v v' : Spot} (hv : v.Relabelled old new v') (typeLabel : Text)
    (t : TypeInfo) : (v.leaf typeLabel t).Relabelled old new (v'.leaf typeLabel t) := by
  cases hv with
  | @whole k hparent hlabel =>
    refine ⟨⟨rfl, rfl⟩, fun _ => ⟨?_, k, hlabel, ?_⟩, fun h => absurd hparent h⟩
    · simp only [Spot.leaf, Spot.detail, Spot.fullLabel, hparent]
    · simp only [Spot.leaf, Spot.detail, Spot.fullLabel, hparent]
  | part p' hparent => exact ⟨⟨rfl, rfl⟩, fun h => (nomatch hparent.symm.trans h), fun _ => ⟨rfl, rfl⟩⟩

theorem counterparts_relabelled (hold : PlainName old) (hnew : PlainName new) {v v' : Spot}
    (hv : v.Relabelled old new v') (t : TypeInfo) :
    Counterparts hash (Spot.Relabelled old new) (Leaf.Relabelled old new) v v' t t := by
  refine ⟨rfl, rfl, fun e he hne => ?_, fun typeLabel hlabel =>
    ⟨typeLabel, typeLabel_of_label rfl hlabel, leaf_relabelled hv typeLabel t, ?_⟩⟩
  · obtain ⟨e', he', htype, hrelabelled⟩ := exists_example_relabelled hold hnew hv he
    exact ⟨e', he', htype ▸ hne, hrelabelled⟩
  · rw [List.forall₂_same]
    intro m _
    -- a member has the label of its struct in its parent only
    cases hv with
    | whole => exact .part _ rfl
    | part => exact .part _ rfl

end Spots

/-! ### What is told of a name -/

section Table
variable {exempt : TypeInfo → TypeInfo → Prop} {src cmp : Layout} {old new : Text}

theorem table_renamed (hnew : PlainName new)
    (hgap : old = gapLabel ↔ new = gapLabel) (hname : new ≠ old) {s c : Detail}
    (hfull : s.fullLabel = s.label) (h : s.Renamed old new c) :
    Comparison.Table exempt src cmp s c .label := by
  obtain ⟨k, hlabel, rfl⟩ := h
  have hne : new ++ indices k ≠ old ++ indices k := fun h =>
    hname (List.append_cancel_right h)
  refine .renamed (fun h => ?_) (fun h => ?_) (fun h => ?_) rfl (fun h => ?_)
  · rcases h with h | h
    · rw [hlabel] at h
      have hgapold := indexed_eq_gapLabel h
      exact hname ((hgap.mp hgapold).trans hgapold.symm)
    · have hgapnew := indexed_eq_gapLabel h
      exact hname (hgapnew.trans (hgap.mpr hgapnew).symm)
  · exact hne (h.trans (hfull.trans hlabel))
  · have hstarts := h.2
    rw [List.append_assoc, List.append_assoc, List.append_assoc] at hstarts
    rw [startsWith_paren_indexed hnew] at hstarts
    cases hstarts
  · exact hne (h.trans hlabel)

/-- Of a leaf under two names the new name is told, where it is one and the leaf is in no struct. -/
theorem table_relabelled_iff (hnew : PlainName new)
    (hgap : old = gapLabel ↔ new = gapLabel) {a b : Leaf} (h : a.Relabelled old new b)
    (kind : DiffKind) : Comparison.Table exempt src cmp a.detail b.detail kind ↔
      kind = .label ∧ a.detail.parent = none ∧ new ≠ old := by
  constructor
  · intro htable
    by_cases hparent : a.detail.parent = none
    · obtain ⟨hfull, hrenamed⟩ := h.whole hparent
      by_cases hname : new = old
      · obtain ⟨k, hlabel, hb⟩ := hrenamed
        have hsame : Comparison.sameVariable a.detail b.detail = true := by
          rw [hb, hname, ← hlabel]
          simp [Comparison.sameVariable, hfull]
        exact absurd htable (Comparison.not_table_of_sameVariable hsame)
      · exact ⟨htable.unique (table_renamed hnew hgap hname hfull hrenamed), hparent, hname⟩
    · obtain ⟨htype, hlabel⟩ := h.part hparent
      cases htable with
      | renamed _ _ _ _ hne => exact absurd hlabel hne
      | replaced _ _ _ hne => exact absurd htype hne
      | retyped _ _ hne => exact absurd (congrArg _ htype) hne
  · intro htold
    obtain ⟨rfl, hparent, hname⟩ := htold
    obtain ⟨hfull, hrenamed⟩ := h.whole hparent
    exact table_renamed hnew hgap hname hfull hrenamed

end Table

/-! ### The footprint and the check -/

namespace Layout
variable {hash : Hash} {l : Layout} {names : List Text} {before after : ByteMap}

/-- The footprints before and after variables have got other names: the same leaves are there under
both names, and no bytes but theirs. -/
structure Relabelling (hash : Hash) (l : Layout) (names : List Text) (before after : ByteMap) :
    Prop where
  leaves : ∀ v name leaf, (v, name) ∈ l.storage.zip names → l.HasLeaf hash v leaf →
    ∃ leaf', leaf.Relabelled v.label name leaf' ∧ ∀ byte, leaf.Covers byte →
      before[byte]? = some leaf.detail ∧ after[byte]? = some leaf'.detail
  bytes : ∀ byte : Int, before[byte]? = none ∧ after[byte]? = none ∨
    ∃ v name leaf, (v, name) ∈ l.storage.zip names ∧ l.HasLeaf hash v leaf ∧ leaf.Covers byte

/-- What a variable comes to under its new name. -/
theorem corresponds_relabelled {v : Variable} {name : Text} (hold : PlainName v.label)
    (hnew : PlainName name) :
    Corresponds hash (Leaf.Relabelled v.label name) l (l.relabel names) l.depth
      (l.relabel names).depth (.ofVariable v) (.ofVariable { v with label := name }) := by
  have hindices (label : Text) : label = label ++ indices 0 := by
    simp [indices]
  have hstart : Spot.Relabelled v.label name (.ofVariable v)
      { Spot.ofVariable v with label := name ++ indices 0 } := .whole rfl (hindices v.label)
  rw [← hindices name] at hstart
  refine corresponds_of_counterparts (fun _ _ => Leaf.Relabelled.aligned)
    (fun w w' t hw ht => ⟨t, ?_, ?_⟩) hstart
  · cases hw with
    | whole => exact ht
    | part => exact ht
  · exact counterparts_relabelled hold hnew hw t

section Named
variable {P : Text → Text → Leaf → Leaf → Prop}

/-- Leaves of one variable under its old name and under its new one. What they have in common is a
parameter. -/
def RelabelledLeaf (P : Text → Text → Leaf → Leaf → Prop) (hash : Hash) (l : Layout)
    (names : List Text) (a b : Leaf) : Prop :=
  ∃ v name, (v, name) ∈ l.storage.zip names ∧ l.HasLeaf hash v a ∧ P v.label name a b

/-- What a variable comes to under its old name corresponds to what it comes to under its new one. -/
def NamesCorrespond (P : Text → Text → Leaf → Leaf → Prop) (hash : Hash) (l : Layout)
    (names : List Text) : Prop :=
  ∀ v name, (v, name) ∈ l.storage.zip names →
    Corresponds hash (P v.label name) l (l.relabel names) l.depth (l.relabel names).depth
      (.ofVariable v) (.ofVariable { v with label := name })

/-- The leaves of a layout under both names correspond where those of each variable do, and there is a
footprint under the new names. -/
theorem exists_leaves_relabelled (hlength : names.length = l.storage.length)
    (hnames : NamesCorrespond P hash l names) (hbefore : (l.footprint hash).result = .ok before) :
    ∃ after ls ms, ((l.relabel names).footprint hash).result = .ok after ∧
      l.leaves hash = .ok ls ∧ (l.relabel names).leaves hash = .ok ms ∧
      List.Forall₂ (RelabelledLeaf P hash l names) ls ms ∧ before.WrittenBy ls ∧
      after.WrittenBy ms := by
  have hfst : (l.storage.zip names).map Prod.fst = l.storage :=
    List.map_fst_zip (Nat.le_of_eq hlength.symm)
  have hstorage : List.Forall₂ (fun v v' => ∃ name, (v, name) ∈ l.storage.zip names ∧
      v' = { v with label := name }) ((l.storage.zip names).map Prod.fst)
      (l.relabel names).storage := by
    rw [relabel, List.forall₂_map_left_iff, List.forall₂_map_right_iff, List.forall₂_same]
    exact fun entry hentry => ⟨entry.2, hentry, rfl⟩
  rw [hfst] at hstorage
  refine exists_footprint_of_corresponds hstorage ?_ hbefore
  rintro v _ ⟨name, hentry, rfl⟩
  refine ⟨fun ms hms => ?_, (hnames v name hentry).bytes⟩
  obtain ⟨ms', hms', hall⟩ := (hnames v name hentry).leaves ms hms
  have hleaves : ∀ a ∈ ms, l.HasLeaf hash v a := fun a ha => ⟨ms, hasLeaves_of_leavesOf hms, ha⟩
  exact ⟨ms', hms', ((List.forall₂_and_left ms ms').mpr ⟨hleaves, hall⟩).imp
    fun a b ⟨ha, hab⟩ => ⟨v, name, hentry, ha, hab⟩⟩

/-- Layouts whose leaves take the same bytes under both names have footprints that correspond: each
leaf has its counterpart in its place, and no leaf is there but these. -/
theorem exists_footprint_relabelled (hlength : names.length = l.storage.length)
    (haligned : ∀ old new a b, P old new a b → a.Aligned b)
    (hnames : NamesCorrespond P hash l names)
    (hbefore : (l.footprint hash).result = .ok before) (hapart : l.LiesApart hash) :
    ∃ after, ((l.relabel names).footprint hash).result = .ok after ∧
      (∀ v name leaf, (v, name) ∈ l.storage.zip names → l.HasLeaf hash v leaf →
        ∃ leaf', P v.label name leaf leaf' ∧ ∀ byte, leaf.Covers byte →
          before[byte]? = some leaf.detail ∧ after[byte]? = some leaf'.detail) ∧
      ∀ byte : Int, before[byte]? = none ∧ after[byte]? = none ∨
        ∃ v name leaf, (v, name) ∈ l.storage.zip names ∧ l.HasLeaf hash v leaf ∧
          leaf.Covers byte := by
  obtain ⟨after, ls, ms, hafter, hls, hms, hall, hwritten, hwritten'⟩ :=
    exists_leaves_relabelled hlength hnames hbefore
  have halignedLeaf (a b : Leaf) (h : RelabelledLeaf P hash l names a b) : a.Aligned b := by
    obtain ⟨_, _, _, _, hpair⟩ := h
    exact haligned _ _ a b hpair
  have hapart' := hapart.of_aligned hls hms hall halignedLeaf
  refine ⟨after, hafter, fun v name leaf hentry ⟨parts, hparts, hleaf⟩ => ?_, fun byte => ?_⟩
  · -- the leaf is at some place among the leaves of its variable, and its counterpart at that place
    have hv : v ∈ l.storage := (List.of_mem_zip hentry).1
    have hv' : { v with label := name } ∈ (l.relabel names).storage :=
      List.mem_map.mpr ⟨(v, name), hentry, rfl⟩
    obtain ⟨parts', hparts'⟩ := exists_leavesOf_of_leaves hls hv
    obtain rfl := hparts.unique (hasLeaves_of_leavesOf hparts')
    obtain ⟨renamed, hrenamed, hpairs⟩ := (hnames v name hentry).leaves parts hparts'
    obtain ⟨leaf', hleaf', hpair⟩ := exists_mem_of_forall₂ hpairs hleaf
    have hrenamed := hasLeaves_of_leavesOf hrenamed
    refine ⟨leaf', hpair, fun byte hcovers => ⟨?_, ?_⟩⟩
    · exact hapart.getElem?_footprint hbefore hv ⟨parts, hparts, hleaf⟩ hcovers
    · exact hapart'.getElem?_footprint hafter hv' ⟨renamed, hrenamed, hleaf'⟩
        (((haligned _ _ _ _ hpair).covers_iff byte).mpr hcovers)
  · rw [hwritten byte, hwritten' byte]
    rcases Leaf.last?_of_aligned hall halignedLeaf byte with hnone |
      ⟨a, b, ⟨v, name, hentry, hleaf, -⟩, hcovers, -⟩
    · exact .inl hnone
    · exact .inr ⟨v, name, a, hentry, hleaf, hcovers⟩

end Named

theorem exists_relabelling (hnames : l.Relabels names)
    (hbefore : (l.footprint hash).result = .ok before) (hapart : l.LiesApart hash) :
    ∃ after, ((l.relabel names).footprint hash).result = .ok after ∧
      Relabelling hash l names before after := by
  have hcorrespond : NamesCorrespond Leaf.Relabelled hash l names := fun v name hentry =>
    corresponds_relabelled (hnames.plain _ hentry).1 (hnames.plain _ hentry).2
  obtain ⟨after, hafter, hleaves, hbytes⟩ := exists_footprint_relabelled hnames.length
    (fun _ _ _ _ h => Leaf.Relabelled.aligned h) hcorrespond hbefore hapart
  exact ⟨after, hafter, hleaves, hbytes⟩

/-- What is told of a byte is the new name of a variable, on the bytes that the variable or an
example of it takes. -/
theorem Relabelling.finding_iff (h : Relabelling hash l names before after)
    (hnames : l.Relabels names) {exempt : TypeInfo → TypeInfo → Prop} {src cmp : Layout}
    {checkRemovals : Bool} (byte : Int) (kind : DiffKind) (s c : Option Detail) :
    Finding exempt src cmp before after checkRemovals byte kind s c ↔
      ∃ v name leaf leaf', (v, name) ∈ l.storage.zip names ∧ name ≠ v.label ∧
        l.HasLeaf hash v leaf ∧ leaf.detail.parent = none ∧ leaf.Covers byte ∧
        leaf.Relabelled v.label name leaf' ∧ after[byte]? = some leaf'.detail ∧
        kind = .label ∧ s = some leaf.detail ∧ c = some leaf'.detail := by
  have htable {v : Variable} {name : Text} (hentry : (v, name) ∈ l.storage.zip names)
      {leaf leaf' : Leaf} (hleaf : leaf.Relabelled v.label name leaf') (kind : DiffKind) :
      Comparison.Table exempt src cmp leaf.detail leaf'.detail kind ↔
        kind = .label ∧ leaf.detail.parent = none ∧ name ≠ v.label :=
    table_relabelled_iff (hnames.plain _ hentry).2 (hnames.reserved _ hentry) hleaf kind
  constructor
  · intro hfinding
    rcases h.bytes byte with ⟨hnone, hnone'⟩ | ⟨v, name, leaf, hentry, hleaf, hcovers⟩
    · cases hfinding with
      | changed hs => cases hnone.symm.trans hs
      | removed _ hs => cases hnone.symm.trans hs
    · obtain ⟨leaf', hpair, hbytes⟩ := h.leaves v name leaf hentry hleaf
      obtain ⟨hs', hc'⟩ := hbytes byte hcovers
      cases hfinding with
      | changed hs hc hkind =>
        obtain rfl := Option.some.inj (hs'.symm.trans hs)
        obtain rfl := Option.some.inj (hc'.symm.trans hc)
        obtain ⟨rfl, hparent, hname⟩ := (htable hentry hpair _).mp hkind
        exact ⟨v, name, leaf, leaf', hentry, hname, hleaf, hparent, hcovers, hpair, hc', rfl, rfl, rfl⟩
      | removed _ _ hc => exact absurd (ByteMap.mem_of_getElem? hc') hc
  · intro htold
    obtain ⟨v, name, leaf, leaf', hentry, hname, hleaf, hparent, hcovers, hpair, hc, rfl, rfl, rfl⟩ :=
      htold
    obtain ⟨_, _, hbytes⟩ := h.leaves v name leaf hentry hleaf
    exact .changed (hbytes byte hcovers).1 hc ((htable hentry hpair _).mpr ⟨rfl, hparent, hname⟩)

/-- **A check of other names tells the new name of a variable once for the variable and once for each
example of it, where these take bytes, and nothing else.** -/
theorem check_tells_renamings (hnames : l.Relabels names)
    (hbefore : (l.footprint hash).result = .ok before) (hapart : l.LiesApart hash) :
    ∃ after, ((l.relabel names).footprint hash).result = .ok after ∧
      ∀ checkRemovals address reader workers,
        address = none ∨ address = some [] ∨ reader = none →
        ∃ ds, (check hash l (l.relabel names) checkRemovals address reader workers).result = .ok ds ∧
          ds.Pairwise (fun d e => d.location < e.location) ∧
          ∀ d, d ∈ ds ↔ ∃ v name leaf c, (v, name) ∈ l.storage.zip names ∧ name ≠ v.label ∧
            l.HasLeaf hash v leaf ∧ leaf.detail.parent = none ∧ 1 ≤ leaf.count ∧
            leaf.detail.Renamed v.label name c ∧ after[leaf.detail.startByte]? = some c ∧
            d = ⟨.label, .ofByte leaf.detail.startByte, none, some leaf.detail, some c, none⟩ := by
  obtain ⟨after, hafter, hrelabelling⟩ := exists_relabelling hnames hbefore hapart
  refine ⟨after, hafter, fun checkRemovals address reader workers hoff => ?_⟩
  obtain ⟨ds, hds, hordered, hmem⟩ := exists_told hbefore hafter checkRemovals hoff workers
  refine ⟨ds, hds, hordered, fun d => (hmem d).trans ?_⟩
  simp only [hrelabelling.finding_iff hnames]
  constructor
  · intro htold
    obtain ⟨byte, _, _, _, ⟨v, name, leaf, leaf', hentry, hname, hleaf, hparent, hcovers, hpair, hc,
      rfl, rfl, rfl⟩, hleast, rfl⟩ := htold
    have hcount : 1 ≤ leaf.count := by
      obtain ⟨hle, hlt⟩ := hcovers
      omega
    have hstart := Leaf.covers_start hcount
    obtain ⟨leaf'', hpair', hbytes⟩ := hrelabelling.leaves v name leaf hentry hleaf
    have hsame : leaf'.detail = leaf''.detail :=
      Option.some.inj (hc.symm.trans (hbytes byte hcovers).2)
    -- the first byte of the leaf is the least at which it is told
    have hfirst := hleast leaf.detail.startByte ⟨v, name, leaf, leaf', hentry, hname, hleaf, hparent,
      hstart, hpair, hsame ▸ (hbytes _ hstart).2, rfl, rfl, rfl⟩
    obtain rfl : byte = leaf.detail.startByte := Int.le_antisymm hfirst hcovers.1
    exact ⟨v, name, leaf, leaf'.detail, hentry, hname, hleaf, hparent, hcount, (hpair.whole hparent).2,
      hc, rfl⟩
  · intro htold
    obtain ⟨v, name, leaf, c, hentry, hname, hleaf, hparent, hcount, -, hc, rfl⟩ := htold
    have hstart := Leaf.covers_start hcount
    obtain ⟨leaf', hpair, hbytes⟩ := hrelabelling.leaves v name leaf hentry hleaf
    obtain rfl := Option.some.inj (hc.symm.trans (hbytes _ hstart).2)
    refine ⟨leaf.detail.startByte, _, _, _, ⟨v, name, leaf, leaf', hentry, hname, hleaf, hparent,
      hstart, hpair, hc, rfl, rfl, rfl⟩, ?_, rfl⟩
    rintro other ⟨_, _, leaf₁, _, _, _, _, _, hcovers, _, _, _, hdetail, _⟩
    rw [Option.some.inj hdetail]
    exact hcovers.1

/-- A mapping, a byte, a struct and room for another byte, each in slots of its own. -/
def registry : Layout where
  storage := [⟨"a", "t_mapping", 0, 0, .null, .null⟩, ⟨"b", "t_uint8", 1, 0, .null, .null⟩,
    ⟨"pair", "t_struct(Pair)1_storage", 2, 0, .null, .null⟩,
    ⟨"__gap", "t_uint8", 3, 0, .null, .null⟩]
  types := [
    ("t_uint8", .elementary "uint8" 1),
    ("t_struct(Pair)1_storage", { TypeInfo.elementary "struct Pair" 32 with
      members := [⟨"a", "t_uint8", 0, 0, .null, .null⟩, ⟨"b", "t_uint8", 0, 2, .null, .null⟩] }),
    ("t_mapping", { TypeInfo.elementary "mapping(uint8 => uint8)" 32 with
      encoding := .mapping, key := .text "t_uint8", value := .text "t_uint8" })]

theorem registry_liesApart : registry.LiesApart lengthHash := by
  refine ⟨_, hasLeaves_of_leaves (show registry.leaves lengthHash = .ok _ from rfl), ?_⟩
  refine List.Pairwise.imp Leaf.apart_of_le ?_
  decide

/-- Two variables have changed names, and the mapping's new name is told of its example, too. -/
theorem check_tells_renamings_swapped :
    ∃ ds, (check lengthHash registry (registry.relabel ["b", "a", "both", "__gap"]) true none none
        (.inOrder 1)).result = .ok ds ∧
      ⟨.label, ⟨64, 0⟩, none, some ⟨"a[0]", "t_uint8", 64, 0, "a[0]", "uint8", 2048, none⟩,
        some ⟨"b[0]", "t_uint8", 64, 0, "b[0]", "uint8", 2048, none⟩, none⟩ ∈ ds := by
  have hbefore : ∃ map, (registry.footprint lengthHash).result = .ok map :=
    exists_ok_of_toBool (by decide +kernel)
  obtain ⟨before, hbefore⟩ := hbefore
  obtain ⟨after, hafter, hwritten⟩ := exists_footprint_of_toBool
    (show (registry.relabel ["b", "a", "both", "__gap"]).leaves lengthHash = .ok _ from rfl)
    (by decide +kernel)
  have hnames : registry.Relabels ["b", "a", "both", "__gap"] :=
    ⟨rfl, by decide, by decide⟩
  obtain ⟨after', hafter', hcheck⟩ := check_tells_renamings hnames hbefore registry_liesApart
  obtain rfl := Except.ok.inj (hafter.symm.trans hafter')
  obtain ⟨ds, hds, -, hmem⟩ := hcheck true none none (.inOrder 1) (.inl rfl)
  refine ⟨ds, hds, (hmem _).mpr ?_⟩
  have hleaf : registry.HasLeaf lengthHash ⟨"a", "t_mapping", 0, 0, .null, .null⟩
      ⟨⟨"a[0]", "t_uint8", 64, 0, "a[0]", "uint8", 2048, none⟩, 1⟩ :=
    ⟨_, hasLeaves_of_leavesOf (show leavesOf lengthHash registry 2 (.ofVariable _) = .ok _ from rfl),
      List.mem_cons_self⟩
  refine ⟨_, "b", _, _, List.mem_cons_self, by decide, hleaf, rfl, by decide, ⟨1, by decide, rfl⟩, ?_,
    rfl⟩
  exact hwritten 2048

end Layout

end UpgradeSafety
