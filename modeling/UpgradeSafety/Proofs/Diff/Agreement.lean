import UpgradeSafety.Proofs.Chain.Reading
import UpgradeSafety.Proofs.Diff.Check

/-! Checks that come to the same. A comparison asks a layout for nothing but the details of its bytes
and, of their types and of the types of their elements, for what `TypeInfo.Alike` lists. Layouts that
answer alike (`Layout.LooksAlike`) on the same bytes are told the same differences and the same added
bytes, so their checks have one result and put the same questions to a chain (`Layout.check_congr`). -/
namespace UpgradeSafety

/-! ### Types that look alike -/

/-- A type in which a comparison sees what it sees in another one. -/
structure TypeInfo.Alike (t t' : TypeInfo) : Prop where
  encoding : t'.encoding = t.encoding
  hasMembers : t'.hasMembers = t.hasMembers
  base : t'.base = t.base
  key : t'.key = t.key
  value : t'.value = t.value

theorem TypeInfo.Alike.refl (t : TypeInfo) : t.Alike t :=
  ⟨rfl, rfl, rfl, rfl, rfl⟩

namespace Layout

/-- Two layouts know a reference, and find types that look alike. -/
def KnowAlike (l l' : Layout) (reference : Value) : Prop :=
  ∃ id t t', l.resolve reference = .ok (id, t) ∧ l'.resolve reference = .ok (id, t') ∧ t.Alike t'

/-- What is looked up for a detail is alike in two layouts. -/
def LooksAlike (l l' : Layout) (d : Detail) : Prop :=
  ∃ t t', l.resolve? d.type = some t ∧ l'.resolve? d.type = some t' ∧ t.Alike t' ∧
    t.hasMembers = false ∧ (t.encoding = .dynamicArray → l.KnowAlike l' t.base) ∧
    (t.encoding = .mapping → l.KnowAlike l' t.value)

theorem resolve_congr {l l' : Layout} (h : ∀ id, l'.resolve? id = l.resolve? id)
    (reference : Value) : l'.resolve reference = l.resolve reference := by
  simp only [resolve, h]

/-- Layouts that have the same types look alike wherever the types are known. -/
theorem Settles.looksAlike {l l' : Layout} {d : Detail} (h : l.Settles d)
    (hsame : ∀ id, l'.resolve? id = l.resolve? id) : l.LooksAlike l' d := by
  obtain ⟨t, ht, hm, hbase, hvalue⟩ := h
  have hknown {reference : Value} (he : ∃ e, l.resolve reference = .ok e) :
      l.KnowAlike l' reference := by
    obtain ⟨⟨id, e⟩, he⟩ := he
    exact ⟨id, e, e, he, (resolve_congr hsame reference).trans he, .refl e⟩
  exact ⟨t, t, ht, (hsame _).trans ht, .refl t, hm, fun henc => hknown (hbase henc),
    fun henc => hknown (hvalue henc)⟩

/-- What looks alike is known to both layouts. -/
theorem LooksAlike.settles {l l' : Layout} {d : Detail} (h : l.LooksAlike l' d) :
    l.Settles d ∧ l'.Settles d := by
  obtain ⟨t, t', ht, ht', hsame, hm, hbase, hvalue⟩ := h
  refine ⟨⟨t, ht, hm, fun henc => ?_, fun henc => ?_⟩,
    ⟨t', ht', hsame.hasMembers.trans hm, fun henc => ?_, fun henc => ?_⟩⟩
  · obtain ⟨id, e, -, he, -⟩ := hbase henc
    exact ⟨(id, e), he⟩
  · obtain ⟨id, e, -, he, -⟩ := hvalue henc
    exact ⟨(id, e), he⟩
  · obtain ⟨id, -, e, -, he, -⟩ := hbase (hsame.encoding.symm.trans henc)
    exact ⟨(id, e), hsame.base ▸ he⟩
  · obtain ⟨id, -, e, -, he, -⟩ := hvalue (hsame.encoding.symm.trans henc)
    exact ⟨(id, e), hsame.value ▸ he⟩

end Layout

namespace Comparison

section Types
variable {src src' cmp cmp' : Layout} {s c : Detail}

theorem elements_congr {reference reference' : Value} (hs : src.KnowAlike src' reference)
    (hc : cmp.KnowAlike cmp' reference') :
    elements src' cmp' reference reference' = elements src cmp reference reference' := by
  obtain ⟨sid, st, st', hst, hst', hs⟩ := hs
  obtain ⟨cid, ct, ct', hct, hct', hc⟩ := hc
  have helements : elementsCompared st' ct' = elementsCompared st ct := by
    unfold elementsCompared
    rw [hs.encoding, hc.encoding, hc.hasMembers]
  unfold elements
  rw [hst, hst', hct, hct']
  exact congrArg Except.ok helements

/-- Whether a type may change into another one is the same in layouts that look alike. -/
theorem compatible_congr (hs : src.LooksAlike src' s) (hc : cmp.LooksAlike cmp' c) :
    compatible src' cmp' s c = compatible src cmp s c := by
  obtain ⟨st, st', hst, hst', hs, -, hbase, hvalue⟩ := hs
  obtain ⟨ct, ct', hct, hct', hc, hm, hbase', hvalue'⟩ := hc
  rw [compatible_eq hst' hct' (hc.hasMembers.trans hm), compatible_eq hst hct hm, hs.encoding,
    hs.key, hs.base, hs.value, hc.encoding, hc.key, hc.base, hc.value]
  cases henc : ct.encoding.same st.encoding with
  | false => rfl
  | true =>
    cases hencoding : ct.encoding with
    | mapping =>
      rw [hencoding] at henc
      rw [elements_congr (hvalue (TypeEncoding.eq_mapping_of_same henc)) (hvalue' hencoding)]
    | dynamicArray =>
      rw [hencoding] at henc
      rw [elements_congr (hbase (TypeEncoding.eq_dynamicArray_of_same henc)) (hbase' hencoding)]
    | inplace | other => rfl

/-- Two details are weighed alike in layouts that look alike. -/
theorem table_congr (hs : src.LooksAlike src' s) (hc : cmp.LooksAlike cmp' c) (kind : DiffKind) :
    Table Outright src' cmp' s c kind ↔ Table Outright src cmp s c kind := by
  have hclassify : classify src' cmp' s c = classify src cmp s c := by
    unfold classify
    rw [compatible_congr hs hc]
  obtain ⟨v, hv, htells⟩ := exists_verdict hs.settles.1 hc.settles.1
  obtain ⟨v', hv', htells'⟩ := exists_verdict hs.settles.2 hc.settles.2
  obtain rfl := Except.ok.inj (hv'.symm.trans (hclassify.trans hv))
  exact (htells'.differs kind).symm.trans (htells.differs kind)

end Types

end Comparison

/-! ### Checks -/

namespace Layout
open CheckEvent

section Checks
variable {hash : Hash} {src src' cmp cmp' : Layout} {before before' after after' : ByteMap}

/-- Where a byte has the same details and the layouts look alike on them, the same is found on it. -/
theorem finding_congr {byte : Int} (hsrc : before'[byte]? = before[byte]?)
    (hcmp : after'[byte]? = after[byte]?) (hold : ∀ d, before[byte]? = some d → src.LooksAlike src' d)
    (hnew : ∀ d, after[byte]? = some d → cmp.LooksAlike cmp' d) (checkRemovals : Bool)
    (kind : DiffKind) (s c : Option Detail) :
    Finding Comparison.Outright src' cmp' before' after' checkRemovals byte kind s c ↔
      Finding Comparison.Outright src cmp before after checkRemovals byte kind s c := by
  have hmem : byte ∈ after' ↔ byte ∈ after := by
    rw [ByteMap.mem_iff_isSome_getElem?, ByteMap.mem_iff_isSome_getElem?, hcmp]
  constructor
  · intro h
    cases h with
    | changed hs hc htable =>
      rw [hsrc] at hs
      rw [hcmp] at hc
      exact .changed hs hc ((Comparison.table_congr (hold _ hs) (hnew _ hc) _).mp htable)
    | removed hremovals hs hc => exact .removed hremovals (hsrc ▸ hs) fun h => hc (hmem.mpr h)
  · intro h
    cases h with
    | changed hs hc htable =>
      exact .changed (hsrc.trans hs) (hcmp.trans hc)
        ((Comparison.table_congr (hold _ hs) (hnew _ hc) _).mpr htable)
    | removed hremovals hs hc => exact .removed hremovals (hsrc.trans hs) fun h => hc (hmem.mp h)

/-- Layouts that look alike on the same bytes are checked to one result, and the same slots are asked
for in the same order. -/
theorem check_congr (hbefore : (src.footprint hash).result = .ok before)
    (hbefore' : (src'.footprint hash).result = .ok before')
    (hafter : (cmp.footprint hash).result = .ok after)
    (hafter' : (cmp'.footprint hash).result = .ok after')
    (hsrc : ∀ byte : Int, before'[byte]? = before[byte]?)
    (hcmp : ∀ byte : Int, after'[byte]? = after[byte]?)
    (hold : ∀ (byte : Int) (d : Detail), before[byte]? = some d → src.LooksAlike src' d)
    (hnew : ∀ (byte : Int) (d : Detail), after[byte]? = some d → cmp.LooksAlike cmp' d)
    (checkRemovals : Bool) (address : Option Text) (reader : Option Reader) (workers : Workers) :
    (check hash src' cmp' checkRemovals address reader workers).result =
        (check hash src cmp checkRemovals address reader workers).result ∧
      requested (check hash src' cmp' checkRemovals address reader workers).notes =
        requested (check hash src cmp checkRemovals address reader workers).notes := by
  obtain ⟨c, hc, hcomplete, hlocations, hadded⟩ := Comparison.exists_of
    (settles_of_footprint hbefore) (settles_of_footprint hafter) checkRemovals
  obtain ⟨c', hc', hcomplete', hlocations', hadded'⟩ := Comparison.exists_of
    (settles_of_footprint hbefore') (settles_of_footprint hafter') checkRemovals
  have hfinding (byte : Int) := finding_congr (hsrc byte) (hcmp byte) (hold byte) (hnew byte)
  have hdiffs : c'.diffs = c.diffs := by
    refine Diff.eq_of_mem_iff_of_ordered hcomplete'.ordered hcomplete.ordered fun d => ?_
    rw [hcomplete'.mem_iff (fun _ => Comparison.diffAt_of_mem hc'),
      hcomplete.mem_iff (fun _ => Comparison.diffAt_of_mem hc)]
    simp only [hfinding]
  have hperm : c'.added.Perm c.added := by
    refine (List.perm_ext_iff_of_nodup hlocations'.of_map hlocations.of_map).mpr fun a => ?_
    rw [hadded', hadded]
    simp only [Comparison.Adds, hsrc, hcmp]
  obtain ⟨hresult, hrequested⟩ := check_eq hbefore hafter hc address reader workers
  obtain ⟨hresult', hrequested'⟩ := check_eq hbefore' hafter' hc' address reader workers
  rw [hresult', hrequested', hresult, hrequested, hdiffs,
    Added.check_eq_of_perm hperm hlocations']
  exact ⟨rfl, rfl⟩

end Checks

end Layout

end UpgradeSafety
