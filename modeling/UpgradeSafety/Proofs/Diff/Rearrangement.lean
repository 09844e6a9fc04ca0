import UpgradeSafety.Proofs.Diff.Agreement
import UpgradeSafety.Proofs.Footprint.Completeness
import UpgradeSafety.Proofs.Footprint.Rearrangement

/-! A check does not depend on how a layout is written down. Where the variables of a layout lie
apart, a layout that says the same in another order has the same footprint, and its types look the
same to a comparison. It can take the place of the other one on either side of a check, and is
found to be the same as the other one (`Layout.check_rearranged`). -/
namespace UpgradeSafety

theorem TypeInfo.Rearranged.alike {t t' : TypeInfo} (h : t.Rearranged t') : t.Alike t' :=
  ⟨h.encoding, h.hasMembers, h.base, h.key, h.value⟩

namespace Layout
open CheckEvent

section Rearranged
variable {hash : Hash} {l l' : Layout}

/-- A type that is made use of, and whose elements are known, looks alike in a rearranged layout. -/
theorem Rearranged.looksAlike (h : l.Rearranged l') {d : Detail} (hused : l.Uses d.type)
    (hd : l.Settles d) : l.LooksAlike l' d := by
  obtain ⟨t, ht, hm, hbase, hvalue⟩ := hd
  obtain ⟨t', ht', hsame⟩ := h.types _ hused t ht
  obtain ⟨v, hv, hreach⟩ := hused
  have hknown {id : Text} (helement : t.HasElement id)
      (he : ∃ e, l.resolve (.text id) = .ok e) : l.KnowAlike l' (.text id) := by
    obtain ⟨⟨_, e⟩, he⟩ := he
    obtain ⟨hid, he⟩ := resolve_eq_ok_iff.mp he
    obtain rfl := Value.text.inj hid
    obtain ⟨e', he', hsame'⟩ := h.types id ⟨v, hv, .tail hreach (.element ht helement)⟩ e he
    exact ⟨id, e, e', resolve_text he, resolve_text he', hsame'.alike⟩
  refine ⟨t, t', ht, ht', hsame.alike, hm, fun henc => ?_, fun henc => ?_⟩
  · obtain ⟨⟨id, e⟩, he⟩ := hbase henc
    obtain ⟨hid, -⟩ := resolve_eq_ok_iff.mp he
    rw [hid] at he ⊢
    exact hknown (.base henc hid) ⟨_, he⟩
  · obtain ⟨⟨id, e⟩, he⟩ := hvalue henc
    obtain ⟨hid, -⟩ := resolve_eq_ok_iff.mp he
    rw [hid] at he ⊢
    exact hknown (.value henc hid) ⟨_, he⟩

/-- A layout does not differ from itself, and adds nothing to itself. -/
theorem check_self {map : ByteMap} (hmap : (l.footprint hash).result = .ok map)
    (checkRemovals : Bool) (address : Option Text) (reader : Option Reader) (workers : Workers) :
    (check hash l l checkRemovals address reader workers).result = .ok [] ∧
      requested (check hash l l checkRemovals address reader workers).notes = [] := by
  obtain ⟨c, hcomplete, -, hadded, hcheck⟩ := exists_check hmap hmap checkRemovals
  have hdiffs : c.diffs = [] := by
    refine List.eq_nil_iff_forall_not_mem.mpr fun d hd => ?_
    obtain ⟨byte, -, hfinding, -⟩ := hcomplete.least d hd
    generalize d.reference = s, d.candidate = s', d.kind = kind at hfinding
    cases hfinding with
    | changed hs hc htable =>
      obtain rfl := Option.some.inj (hs.symm.trans hc)
      exact Comparison.not_table_of_sameVariable (Comparison.sameVariable_refl _) htable
    | removed _ hs hc => exact hc (ByteMap.mem_of_getElem? hs)
  have hnone : c.added = [] := by
    refine List.eq_nil_iff_forall_not_mem.mpr fun a ha => ?_
    obtain ⟨byte, hbyte, -, hclear⟩ := (hadded a).mp ha
    rcases hclear with hclear | ⟨s, hs, hcounts⟩
    · cases hbyte.symm.trans hclear
    · obtain rfl := Option.some.inj (hbyte.symm.trans hs)
      rcases hcounts with ⟨hdiffers, -⟩ | ⟨hdiffers, -⟩
      · cases (Comparison.sameVariable_refl _).symm.trans hdiffers
      · exact hdiffers rfl
  obtain ⟨hresult, hrequested⟩ := hcheck address reader workers
  rw [hresult, hrequested, hdiffs, hnone, Added.check_nil]
  exact ⟨rfl, rfl⟩

/-- **Where the variables of a layout lie apart, a layout that says the same in another order takes
its place on either side of any check, with the same answer and the same questions to a chain, and
a check of the one against the other finds nothing and asks nothing. The other layout may have no
footprint only where a struct drops an example in which two maps share a byte whose number is too
long.** -/
theorem check_rearranged (h : l.Rearranged l') (hapart : l.LiesApart hash) {map : ByteMap}
    (hmap : (l.footprint hash).result = .ok map) (checkRemovals : Bool) (address : Option Text)
    (reader : Option Reader) (workers : Workers) :
    ((∀ x other, (x.footprint hash).result = .ok other →
      (check hash l' x checkRemovals address reader workers).result =
          (check hash l x checkRemovals address reader workers).result ∧
        requested (check hash l' x checkRemovals address reader workers).notes =
          requested (check hash l x checkRemovals address reader workers).notes ∧
        (check hash x l' checkRemovals address reader workers).result =
          (check hash x l checkRemovals address reader workers).result ∧
        requested (check hash x l' checkRemovals address reader workers).notes =
          requested (check hash x l checkRemovals address reader workers).notes) ∧
      (check hash l l' checkRemovals address reader workers).result = .ok [] ∧
      requested (check hash l l' checkRemovals address reader workers).notes = []) ∨
    ∃ n id t, (l'.footprint hash).result = .error (.longNumber n) ∧ ¬Numeral.Short n.number ∧
      l'.Uses id ∧ l'.resolve? id = some t ∧ t.DropsExample := by
  refine (exists_footprint_rearranged h hapart hmap).imp_left fun hfootprint => ?_
  obtain ⟨map', hmap', hbytes⟩ := hfootprint
  have halike (byte : Int) (d : Detail) (hd : map[byte]? = some d) : l.LooksAlike l' d :=
    h.looksAlike (uses_of_footprint hmap hd) (settles_of_footprint hmap byte d hd)
  have hself {x : Layout} {other : ByteMap} (hother : (x.footprint hash).result = .ok other)
      (byte : Int) (d : Detail) (hd : other[byte]? = some d) : x.LooksAlike x d :=
    (settles_of_footprint hother byte d hd).looksAlike fun _ => rfl
  constructor
  · intro x other hother
    obtain ⟨hresult, hrequested⟩ := check_congr hmap hmap' hother hother hbytes (fun _ => rfl) halike
      (hself hother) checkRemovals address reader workers
    obtain ⟨hresult', hrequested'⟩ := check_congr hother hother hmap hmap' (fun _ => rfl) hbytes
      (hself hother) halike checkRemovals address reader workers
    exact ⟨hresult, hrequested, hresult', hrequested'⟩
  · obtain ⟨hresult, hrequested⟩ := check_congr hmap hmap hmap hmap' (fun _ => rfl) hbytes
      (hself hmap) halike checkRemovals address reader workers
    rw [hresult, hrequested]
    exact check_self hmap checkRemovals address reader workers

end Rearranged

/-- A struct with two members, a flag, and a type that neither makes use of. -/
def account : Layout where
  storage := [⟨"owner", "t_struct(Person)1_storage", 0, 0, .null, .null⟩,
    ⟨"open", "t_bool", 1, 0, .null, .null⟩]
  types := [
    ("t_bool", .elementary "bool" 1),
    ("t_struct(Person)1_storage", { TypeInfo.elementary "struct Person" 32 with
      members := [⟨"adult", "t_bool", 0, 0, .null, .null⟩, ⟨"known", "t_bool", 0, 1, .null, .null⟩] }),
    ("t_uint8", .elementary "uint8" 1)]

/-- The variables and the members the other way round, under another contract, and another type that
is not made use of. -/
def accountReordered : Layout where
  storage := [⟨"open", "t_bool", 1, 0, .null, .text "Bank"⟩,
    ⟨"owner", "t_struct(Person)1_storage", 0, 0, .null, .text "Bank"⟩]
  types := [
    ("t_struct(Person)1_storage", { TypeInfo.elementary "struct Person" 32 with
      members := [⟨"known", "t_bool", 0, 1, .null, .text "Bank"⟩,
        ⟨"adult", "t_bool", 0, 0, .null, .text "Bank"⟩] }),
    ("t_bool", .elementary "bool" 1),
    ("t_address", .elementary "address" 20)]

theorem account_uses {id : Text} (h : account.Uses id) :
    id = "t_bool" ∨ id = "t_struct(Person)1_storage" := by
  obtain ⟨v, hv, hreach⟩ := h
  induction hreach with
  | refl =>
    rcases List.mem_cons.mp hv with rfl | hv
    · exact .inr rfl
    · obtain rfl := List.mem_singleton.mp hv
      exact .inl rfl
  | tail _ hstep ih =>
    rcases ih with rfl | rfl
    · cases hstep with
      | member ht hm =>
        obtain rfl := Option.some.inj (show some _ = some _ from ht)
        cases hm
      | element ht he =>
        obtain rfl := Option.some.inj (show some _ = some _ from ht)
        cases he with
        | value henc | base henc => cases henc
    · cases hstep with
      | member ht hm =>
        obtain rfl := Option.some.inj (show some _ = some _ from ht)
        rcases List.mem_cons.mp hm with rfl | hm
        · exact .inl rfl
        · obtain rfl := List.mem_singleton.mp hm
          exact .inl rfl
      | element ht he =>
        obtain rfl := Option.some.inj (show some _ = some _ from ht)
        cases he with
        | value henc | base henc => cases henc

theorem account_rearranged : account.Rearranged accountReordered := by
  refine ⟨.swap _ _ _, fun id hid t ht => ?_⟩
  rcases account_uses hid with rfl | rfl
  · obtain rfl := Option.some.inj (show some _ = some _ from ht)
    exact ⟨_, rfl, rfl, rfl, rfl, rfl, rfl, rfl, .refl _⟩
  · obtain rfl := Option.some.inj (show some _ = some _ from ht)
    exact ⟨_, rfl, rfl, rfl, rfl, rfl, rfl, rfl, .swap _ _ _⟩

/-- A chain on which no byte is clear. -/
def unclear : Reader :=
  .single fun _ _ => pure (List.replicate wordSize 7)

/-- The account is found to be the same in either order, and nothing is asked of a chain. -/
theorem check_rearranged_account :
    (check lengthHash account accountReordered true (some "0x1") (some unclear) (.inOrder 1)).result =
        .ok [] ∧
      requested (check lengthHash account accountReordered true (some "0x1") (some unclear)
        (.inOrder 1)).notes = [] := by
  obtain ⟨map, hmap⟩ := exists_ok_of_toBool
    (show (account.footprint lengthHash).result.toBool = true by decide +kernel)
  obtain ⟨map', hmap'⟩ := exists_ok_of_toBool
    (show (accountReordered.footprint lengthHash).result.toBool = true by decide +kernel)
  have hapart : account.LiesApart lengthHash := by
    refine ⟨_, hasLeaves_of_leaves (show account.leaves lengthHash = .ok _ from rfl), ?_⟩
    refine List.Pairwise.imp Leaf.apart_of_le ?_
    decide
  rcases check_rearranged account_rearranged hapart hmap true _ _ _ with h | ⟨n, _, _, hfault, -⟩
  · exact h.2
  · cases hmap'.symm.trans hfault

/-- A struct with one member, encoded as a mapping to structs with these members. One type has a
member at the first byte and one far out, and another has one far out and one in the next slot. -/
def crate (members : List Variable) : Layout where
  storage := [⟨"crate", "t_struct(Crate)1_storage", 0, 0, .null, .null⟩]
  types := [
    ("t_uint8", .elementary "uint8" 1),
    ("t_struct(Crate)1_storage", { TypeInfo.elementary "struct Crate" 32 with
      encoding := .mapping
      members := [⟨"sealed", "t_uint8", 0, 0, .null, .null⟩]
      value := .text "t_struct(Goods)2_storage" }),
    ("t_struct(Goods)2_storage", { TypeInfo.elementary "struct Goods" 32 with members }),
    ("t_struct(Front)3_storage", { TypeInfo.elementary "struct Front" 32 with
      members := [⟨"far", "t_uint8", farSlot, 0, .null, .null⟩,
        ⟨"first", "t_uint8", 0, 0, .null, .null⟩] }),
    ("t_struct(Back)4_storage", { TypeInfo.elementary "struct Back" 32 with
      members := [⟨"far", "t_uint8", farSlot, 0, .null, .null⟩,
        ⟨"next", "t_uint8", 1, 0, .null, .null⟩] })]

def front : Variable := ⟨"front", "t_struct(Front)3_storage", 0, 0, .null, .null⟩

def middle : Variable := ⟨"middle", "t_uint8", 1, 0, .null, .null⟩

def back : Variable := ⟨"back", "t_struct(Back)4_storage", 0, 0, .null, .null⟩

theorem crate_rearranged {members members' : List Variable} (h : members.Perm members') :
    (crate members).Rearranged (crate members') := by
  refine ⟨.refl _, fun id _ t ht => ?_⟩
  have hsame (t : TypeInfo) : t.Rearranged t := ⟨rfl, rfl, rfl, rfl, rfl, rfl, .refl _⟩
  rcases mem_types_of_resolve? ht with
    _ | ⟨_, _ | ⟨_, _ | ⟨_, _ | ⟨_, _ | ⟨_, hnone⟩⟩⟩⟩⟩
  · exact ⟨_, rfl, hsame _⟩
  · exact ⟨_, rfl, hsame _⟩
  · exact ⟨_, rfl, rfl, rfl, rfl, rfl, rfl, rfl, h.map _⟩
  · exact ⟨_, rfl, hsame _⟩
  · exact ⟨_, rfl, hsame _⟩
  · cases hnone

/-- The members far out share a byte that cannot be shown. Where the member between the structs comes
before the second one, they share another one before it. -/
theorem rearranged_without_footprint :
    (crate [front, middle, back]).Rearranged (crate [front, back, middle]) ∧
      (crate [front, middle, back]).LiesApart lengthHash ∧
      (∃ map, ((crate [front, middle, back]).footprint lengthHash).result = .ok map) ∧
      ∀ checkRemovals address reader workers, (check lengthHash (crate [front, middle, back])
        (crate [front, back, middle]) checkRemovals address reader workers).result ≠ .ok [] := by
  refine ⟨crate_rearranged (.cons front (.swap back middle [])),
    ⟨[_], hasLeaves_of_leaves rfl, List.pairwise_singleton _ _⟩,
    exists_ok_of_toBool (by decide +kernel), fun checkRemovals address reader workers hcheck => ?_⟩
  have hnone : ((crate [front, back, middle]).footprint lengthHash).result.toBool = false := by
    decide +kernel
  rcases exists_footprints_or_fault lengthHash (crate [front, middle, back])
    (crate [front, back, middle]) checkRemovals address reader workers with
    ⟨_, after, -, hafter⟩ | ⟨e, -, hfault⟩
  · rw [hafter] at hnone
    cases hnone
  · cases hcheck.symm.trans hfault

end Layout

end UpgradeSafety
