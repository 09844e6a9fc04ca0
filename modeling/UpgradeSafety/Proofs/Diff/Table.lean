import UpgradeSafety.Diff.Compare
import UpgradeSafety.Proofs.Footprint.References

/-! The table by which two variables on one byte are weighed, as rules that exclude each other.
`Table` says which kind of difference the two make, if they make one, and `CountsAsAdded` when the
byte counts as added. On details of footprints every reference that the weighing follows is known,
so `classify` has a verdict, and it is the one of the table (`exists_verdict`).

One rule comes in two readings. A type may change from one kind of address to another; whether that
also holds for containers that are named as addresses is a parameter (`exempt`). The weighing
decides containers by their elements alone (`Outright`). -/
namespace UpgradeSafety.Comparison

/-- One of the two only reserves room. -/
def Reserves (s c : Detail) : Prop :=
  s.label = gapLabel ∨ c.label = gapLabel

instance (s c : Detail) : Decidable (Reserves s c) :=
  inferInstanceAs (Decidable (_ ∨ _))

/-- The new variable stands in bytes that the old one, a struct, has left unused. -/
def Encloses (s c : Detail) : Prop :=
  c.fullLabel ≠ s.fullLabel ∧
    Text.startsWith c.fullLabel ("(" ++ s.typeLabel ++ " " ++ s.label ++ ")") = true

/-- A byte of both layouts that counts as added all the same. -/
def CountsAsAdded (s c : Detail) : Prop :=
  sameVariable s c = false ∧ Reserves s c ∨ Encloses s c

instance (s c : Detail) : Decidable (CountsAsAdded s c) :=
  inferInstanceAs (Decidable (_ ∧ (_ ∨ _) ∨ _ ∧ _))

/-- The elements of two containers are compared where they are laid out. -/
def ElementsCompared (src cmp : Layout) (s c : Value) : Prop :=
  ∃ sid st cid ct, src.resolve s = .ok (sid, st) ∧ cmp.resolve c = .ok (cid, ct) ∧
    (ct.encoding.same st.encoding = true ∧ ct.encoding ≠ .inplace ∨ ct.hasMembers = true)

/-- The rules by which a change of type is no difference. The last of them holds for types that
`exempt` lets pass. -/
inductive Suits (exempt : TypeInfo → TypeInfo → Prop) (src cmp : Layout) (s c : Detail)
    (st ct : TypeInfo) : Prop where
  | members (hm : ct.hasMembers = true)
  | mapping (hs : st.encoding = .mapping) (hc : ct.encoding = .mapping)
      (hkey : ct.key.same st.key = true) (helements : ElementsCompared src cmp st.value ct.value)
  | array (hs : st.encoding = .dynamicArray) (hc : ct.encoding = .dynamicArray)
      (helements : ElementsCompared src cmp st.base ct.base)
  | addresses (henc : ct.encoding.same st.encoding = true)
      (hs : TypeId.isAddressLike s.type = true) (hc : TypeId.isAddressLike c.type = true)
      (hexempt : exempt st ct)

/-- A variable may keep its place and change its type so. -/
def Fits (exempt : TypeInfo → TypeInfo → Prop) (src cmp : Layout) (s c : Detail) : Prop :=
  ∃ st ct, src.resolve? s.type = some st ∧ cmp.resolve? c.type = some ct ∧
    Suits exempt src cmp s c st ct

/-- The kind of difference that two variables on one byte make. -/
inductive Table (exempt : TypeInfo → TypeInfo → Prop) (src cmp : Layout) (s c : Detail) :
    DiffKind → Prop where
  | renamed (hgap : ¬Reserves s c) (hfull : c.fullLabel ≠ s.fullLabel) (hunused : ¬Encloses s c)
      (htype : c.type = s.type) (hlabel : c.label ≠ s.label) : Table exempt src cmp s c .label
  | replaced (hgap : ¬Reserves s c) (hfull : c.fullLabel ≠ s.fullLabel) (hunused : ¬Encloses s c)
      (htype : c.type ≠ s.type) : Table exempt src cmp s c .variable
  | retyped (hgap : ¬Reserves s c) (hfull : c.fullLabel = s.fullLabel)
      (htype : TypeId.strip c.type ≠ TypeId.strip s.type) (hfits : ¬Fits exempt src cmp s c) :
      Table exempt src cmp s c .variableType

/-- Neither two dynamic arrays nor two mappings with one key: nothing decides on their elements. -/
def Outright (st ct : TypeInfo) : Prop :=
  ct.encoding ≠ .dynamicArray ∧ ¬(ct.encoding = .mapping ∧ ct.key.same st.key = true)

/-! ### The weighing of types -/

theorem elementsCompared_iff (st ct : TypeInfo) : elementsCompared st ct = true ↔
    ct.encoding.same st.encoding = true ∧ ct.encoding ≠ .inplace ∨ ct.hasMembers = true := by
  unfold elementsCompared
  cases ct.encoding <;> simp

section Types
variable {src cmp : Layout}

theorem exists_elements {s c : Value} (hs : ∃ e, src.resolve s = .ok e)
    (hc : ∃ e, cmp.resolve c = .ok e) :
    ∃ b, elements src cmp s c = .ok b ∧ (b = true ↔ ElementsCompared src cmp s c) := by
  obtain ⟨⟨sid, st⟩, hs⟩ := hs
  obtain ⟨⟨cid, ct⟩, hc⟩ := hc
  refine ⟨elementsCompared st ct, ?_, (elementsCompared_iff st ct).trans ⟨fun h => ?_, ?_⟩⟩
  · rw [elements, hs, hc]
    rfl
  · exact ⟨sid, st, cid, ct, hs, hc, h⟩
  · intro hcompared
    obtain ⟨_, _, _, _, hs', hc', h⟩ := hcompared
    obtain ⟨rfl, rfl⟩ := Prod.mk.inj (Except.ok.inj (hs.symm.trans hs'))
    obtain ⟨rfl, rfl⟩ := Prod.mk.inj (Except.ok.inj (hc.symm.trans hc'))
    exact h

theorem compatible_eq {s c : Detail} {st ct : TypeInfo} (hs : src.resolve? s.type = some st)
    (hc : cmp.resolve? c.type = some ct) (hm : ct.hasMembers = false) :
    compatible src cmp s c =
      if ct.encoding.same st.encoding then
        match ct.encoding with
        | .mapping =>
          if ct.key.same st.key then elements src cmp st.value ct.value
          else .ok (TypeId.isAddressLike s.type && TypeId.isAddressLike c.type)
        | .dynamicArray => elements src cmp st.base ct.base
        | _ => .ok (TypeId.isAddressLike s.type && TypeId.isAddressLike c.type)
      else .ok false := by
  unfold compatible
  rw [Layout.resolve_text hs, Layout.resolve_text hc]
  show (if ct.hasMembers = true then Except.ok true
    else if (!ct.encoding.same st.encoding) = true then .ok false else _) = _
  rw [hm, if_neg Bool.false_ne_true]
  cases ct.encoding.same st.encoding with
  | false => rfl
  | true => cases ct.encoding <;> rfl

theorem fits_iff {exempt : TypeInfo → TypeInfo → Prop} {s c : Detail} {st ct : TypeInfo}
    (hs : src.resolve? s.type = some st) (hc : cmp.resolve? c.type = some ct) :
    Fits exempt src cmp s c ↔ Suits exempt src cmp s c st ct := by
  constructor
  · intro hfits
    obtain ⟨st', ct', hs', hc', h⟩ := hfits
    obtain rfl := Option.some.inj (hs.symm.trans hs')
    obtain rfl := Option.some.inj (hc.symm.trans hc')
    exact h
  · exact fun h => ⟨st, ct, hs, hc, h⟩

/-- Types that are no containers with one key suit each other as addresses alone. -/
theorem suits_iff_addresses {s c : Detail} {st ct : TypeInfo} (hm : ct.hasMembers = false)
    (henc : ct.encoding.same st.encoding = true) (hout : Outright st ct) :
    (TypeId.isAddressLike s.type && TypeId.isAddressLike c.type) = true ↔
      Suits Outright src cmp s c st ct := by
  rw [Bool.and_eq_true]
  constructor
  · exact fun ⟨hs, hc⟩ => .addresses henc hs hc hout
  · intro h
    cases h with
    | members hm' => exact absurd (hm.symm.trans hm') Bool.false_ne_true
    | mapping _ hc hkey => exact absurd ⟨hc, hkey⟩ hout.2
    | array _ hc => exact absurd hc hout.1
    | addresses _ hs hc => exact ⟨hs, hc⟩

/-- Of types that are known, it is known whether one may change into the other. -/
theorem exists_compatible {s c : Detail} (hs : src.Settles s) (hc : cmp.Settles c) :
    ∃ b, compatible src cmp s c = .ok b ∧ (b = true ↔ Fits Outright src cmp s c) := by
  obtain ⟨st, hst, -, hsbase, hsvalue⟩ := hs
  obtain ⟨ct, hct, hm, hcbase, hcvalue⟩ := hc
  rw [compatible_eq hst hct hm, fits_iff hst hct]
  cases henc : ct.encoding.same st.encoding with
  | false =>
    refine ⟨false, rfl, nofun, fun h => ?_⟩
    cases h with
    | members hm' => exact absurd (hm.symm.trans hm') Bool.false_ne_true
    | mapping hs hc | array hs hc =>
      rw [hs, hc] at henc
      cases henc
    | addresses henc' => exact absurd (henc.symm.trans henc') Bool.false_ne_true
  | true =>
    rw [if_pos rfl]
    split
    · next hc =>
      have hs := TypeEncoding.eq_mapping_of_same (hc ▸ henc)
      cases hkey : ct.key.same st.key with
      | true =>
        obtain ⟨b, hb, hiff⟩ := exists_elements (hsvalue hs) (hcvalue hc)
        refine ⟨b, hb, hiff.trans ⟨fun h => .mapping hs hc hkey h, fun h => ?_⟩⟩
        cases h with
        | members hm' => exact absurd (hm.symm.trans hm') Bool.false_ne_true
        | mapping _ _ _ h => exact h
        | array _ hc' => exact nomatch hc.symm.trans hc'
        | addresses _ _ _ hout => exact absurd ⟨hc, hkey⟩ hout.2
      | false =>
        refine ⟨_, rfl, suits_iff_addresses hm henc ⟨fun h => (nomatch hc.symm.trans h), fun h => ?_⟩⟩
        exact absurd (hkey.symm.trans h.2) Bool.false_ne_true
    · next hc =>
      have hs := TypeEncoding.eq_dynamicArray_of_same (hc ▸ henc)
      obtain ⟨b, hb, hiff⟩ := exists_elements (hsbase hs) (hcbase hc)
      refine ⟨b, hb, hiff.trans ⟨fun h => .array hs hc h, fun h => ?_⟩⟩
      cases h with
      | members hm' => exact absurd (hm.symm.trans hm') Bool.false_ne_true
      | mapping _ hc' => exact nomatch hc.symm.trans hc'
      | array _ _ h => exact h
      | addresses _ _ _ hout => exact absurd hc hout.1
    · next hmapping harray =>
      exact ⟨_, rfl, suits_iff_addresses hm henc ⟨harray, fun h => hmapping h.1⟩⟩

end Types

/-! ### The verdict on a byte -/

section Verdicts
variable {src cmp : Layout} {s c : Detail}

theorem fullLabel_eq_of_sameVariable (h : sameVariable s c = true) :
    c.type = s.type ∧ c.fullLabel = s.fullLabel := by
  simp only [sameVariable, Bool.and_eq_true, beq_iff_eq] at h
  exact ⟨h.1.1.1.1, h.1.1.1.2⟩

theorem sameVariable_refl (d : Detail) : sameVariable d d = true := by
  simp [sameVariable]

/-- A variable that stays as it is makes no difference. -/
theorem not_table_of_sameVariable {exempt : TypeInfo → TypeInfo → Prop} {kind : DiffKind}
    (h : sameVariable s c = true) : ¬Table exempt src cmp s c kind := by
  obtain ⟨htype, hfull⟩ := fullLabel_eq_of_sameVariable h
  intro ht
  cases ht with
  | renamed _ hne | replaced _ hne => exact hne hfull
  | retyped _ _ hne => exact hne (congrArg _ htype)

/-- Reserved room makes no difference. -/
theorem Table.not_reserves {exempt : TypeInfo → TypeInfo → Prop} {kind : DiffKind}
    (h : Table exempt src cmp s c kind) : ¬Reserves s c := by
  cases h with
  | renamed h | replaced h | retyped h => exact h

/-- The rules of the table exclude each other. -/
theorem Table.unique {exempt : TypeInfo → TypeInfo → Prop} {kind other : DiffKind}
    (h : Table exempt src cmp s c kind) (h' : Table exempt src cmp s c other) : kind = other := by
  cases h with
  | renamed _ hfull _ htype =>
    cases h' with
    | renamed => rfl
    | replaced _ _ _ hne => exact absurd htype hne
    | retyped _ heq => exact absurd heq hfull
  | replaced _ hfull _ hne =>
    cases h' with
    | renamed _ _ _ htype => exact absurd htype hne
    | replaced => rfl
    | retyped _ heq => exact absurd heq hfull
  | retyped _ heq =>
    cases h' with
    | renamed _ hfull | replaced _ hfull => exact absurd heq hfull
    | retyped => rfl

/-- What the verdict on a byte says, by the table. -/
structure Tells (src cmp : Layout) (s c : Detail) (v : Verdict) : Prop where
  added : v = .added ↔ CountsAsAdded s c
  differs : ∀ kind, v = .differs kind ↔ Table Outright src cmp s c kind

theorem tells_unchanged (hadded : ¬CountsAsAdded s c)
    (htable : ∀ kind, ¬Table Outright src cmp s c kind) : Tells src cmp s c .unchanged :=
  ⟨⟨nofun, fun h => absurd h hadded⟩, fun kind => ⟨nofun, fun h => absurd h (htable kind)⟩⟩

theorem tells_added (h : CountsAsAdded s c) (htable : ∀ kind, ¬Table Outright src cmp s c kind) :
    Tells src cmp s c .added :=
  ⟨⟨fun _ => h, fun _ => rfl⟩, fun kind => ⟨nofun, fun h => absurd h (htable kind)⟩⟩

theorem tells_differs {kind : DiffKind} (h : Table Outright src cmp s c kind)
    (hadded : ¬CountsAsAdded s c) : Tells src cmp s c (.differs kind) := by
  refine ⟨⟨nofun, fun h => absurd h hadded⟩, fun other => ⟨fun heq => ?_, fun h' => ?_⟩⟩
  · exact Verdict.differs.inj heq ▸ h
  · rw [h.unique h']

/-- A variable that has kept its full label differs by its type, if at all. -/
theorem exists_verdict_sameLabel (hs : src.Settles s) (hc : cmp.Settles c)
    (hsame : sameVariable s c = false) (hgap : ¬Reserves s c) (hfull : c.fullLabel = s.fullLabel) :
    ∃ v, classify src cmp s c = .ok v ∧ Tells src cmp s c v := by
  have hadded : ¬CountsAsAdded s c := fun h => h.elim (fun h => hgap h.2) fun h => h.1 hfull
  have htable {kind : DiffKind} (ht : Table Outright src cmp s c kind) :
      TypeId.strip c.type ≠ TypeId.strip s.type ∧ ¬Fits Outright src cmp s c := by
    cases ht with
    | renamed _ hne | replaced _ hne => exact absurd hfull hne
    | retyped _ _ htype hfits => exact ⟨htype, hfits⟩
  unfold classify
  rw [hsame, if_neg Bool.false_ne_true, if_neg (by simpa [Reserves] using hgap),
    if_neg (by simpa using hfull)]
  by_cases hid : TypeId.strip c.type = TypeId.strip s.type
  · rw [if_pos (by simpa using hid)]
    exact ⟨_, rfl, tells_unchanged hadded fun kind ht => (htable ht).1 hid⟩
  · rw [if_neg (by simpa using hid)]
    obtain ⟨b, hb, hiff⟩ := exists_compatible hs hc
    rw [hb]
    cases b with
    | true => exact ⟨_, rfl, tells_unchanged hadded fun kind ht => (htable ht).2 (hiff.mp rfl)⟩
    | false =>
      have hfits : ¬Fits Outright src cmp s c := fun h => Bool.false_ne_true (hiff.mpr h)
      exact ⟨_, rfl, tells_differs (.retyped hgap hfull hid hfits) hadded⟩

/-- Under another full label there is a new name, another variable or a place inside the old one,
and no type is looked into. -/
theorem exists_verdict_otherLabel (hsame : sameVariable s c = false) (hgap : ¬Reserves s c)
    (hfull : c.fullLabel ≠ s.fullLabel) :
    ∃ v, classify src cmp s c = .ok v ∧ Tells src cmp s c v := by
  unfold classify
  rw [hsame, if_neg Bool.false_ne_true, if_neg (by simpa [Reserves] using hgap),
    if_pos (by simpa using hfull)]
  by_cases hunused : Encloses s c
  · rw [if_pos hunused.2]
    refine ⟨_, rfl, tells_added (.inr hunused) fun kind ht => ?_⟩
    cases ht with
    | renamed _ _ h | replaced _ _ h => exact h hunused
    | retyped _ h => exact hfull h
  · have hadded : ¬CountsAsAdded s c := fun h => h.elim (fun h => hgap h.2) hunused
    rw [if_neg fun h => hunused ⟨hfull, h⟩]
    by_cases htype : c.type = s.type
    · rw [if_pos (by simpa using htype)]
      by_cases hlabel : c.label = s.label
      · rw [if_neg (by simpa using hlabel)]
        refine ⟨_, rfl, tells_unchanged hadded fun kind ht => ?_⟩
        cases ht with
        | renamed _ _ _ _ h => exact h hlabel
        | replaced _ _ _ h => exact h htype
        | retyped _ h => exact hfull h
      · rw [if_pos (by simpa using hlabel)]
        exact ⟨_, rfl, tells_differs (.renamed hgap hfull hunused htype hlabel) hadded⟩
    · rw [if_neg (by simpa using htype)]
      exact ⟨_, rfl, tells_differs (.replaced hgap hfull hunused htype) hadded⟩

/-- A byte of two details whose references are known has a verdict, that of the table. -/
theorem exists_verdict (hs : src.Settles s) (hc : cmp.Settles c) :
    ∃ v, classify src cmp s c = .ok v ∧ Tells src cmp s c v := by
  by_cases hsame : sameVariable s c = true
  · obtain ⟨-, hfull⟩ := fullLabel_eq_of_sameVariable hsame
    refine ⟨.unchanged, ?_, tells_unchanged ?_ fun kind => not_table_of_sameVariable hsame⟩
    · unfold classify
      rw [if_pos hsame]
    · intro hcounts
      rcases hcounts with ⟨hne, -⟩ | ⟨hne, -⟩
      · exact absurd (hsame.symm.trans hne) Bool.noConfusion
      · exact hne hfull
  · rw [Bool.not_eq_true] at hsame
    by_cases hgap : Reserves s c
    · refine ⟨.added, ?_, tells_added (.inl ⟨hsame, hgap⟩) fun kind ht => ht.not_reserves hgap⟩
      unfold classify
      rw [hsame, if_neg Bool.false_ne_true, if_pos (by simpa [Reserves] using hgap)]
    · by_cases hfull : c.fullLabel = s.fullLabel
      · exact exists_verdict_sameLabel hs hc hsame hgap hfull
      · exact exists_verdict_otherLabel hsame hgap hfull

end Verdicts

end UpgradeSafety.Comparison
