import Mathlib.Data.List.Nodup
import UpgradeSafety.Diff.Basic

/-! Which difference stands for its identity. Sorting keeps the order of what shares a location
(`Location.filter_sort`), so after `Diff.sort` the first difference of an identity is the one at the
least location and, of those there, the one that came first. `Diff.unique` keeps that one
(`mem_unique_sort_iff_earliest`), and to sort and choose again changes nothing
(`unique_sort_keeps_earliest`). Where no two differences share a location, what is kept is in strict
order (`pairwise_unique_sort`) and does not depend on the order that they came in
(`Location.sort_eq_of_perm`). Differences in strict order are known by their members
(`eq_of_mem_iff_of_ordered`). -/
namespace UpgradeSafety

namespace Location

theorem le_of_lt {a b : Location} (h : a < b) : a.le b = true := by
  rw [le_iff]
  have : a.slot < b.slot ∨ a.slot = b.slot ∧ a.offset < b.offset := h
  omega

theorem ne_of_lt {a b : Location} (h : a < b) : a ≠ b := by
  rintro rfl
  have : a.slot < a.slot ∨ a.slot = a.slot ∧ a.offset < a.offset := h
  omega

section Sorting
variable {α : Type} (location : α → Location)

theorem sort_perm (xs : List α) : (sort location xs).Perm xs :=
  List.mergeSort_perm xs _

theorem pairwise_sort (xs : List α) :
    (sort location xs).Pairwise fun a b => (location a).le (location b) = true := by
  refine List.pairwise_mergeSort (fun a b c hab hbc => ?_) (fun a b => ?_) xs
  · exact le_trans hab hbc
  · exact le_total (location a) (location b)

theorem sort_of_pairwise {xs : List α}
    (h : xs.Pairwise fun a b => (location a).le (location b) = true) : sort location xs = xs :=
  List.mergeSort_of_pairwise h

/-- The order of what is sorted does not matter where no two share a location. -/
theorem sort_eq_of_perm {xs ys : List α} (h : xs.Perm ys) (hd : (xs.map location).Nodup) :
    sort location xs = sort location ys := by
  have hperm : (sort location xs).Perm (sort location ys) :=
    (sort_perm location xs).trans (h.trans (sort_perm location ys).symm)
  refine hperm.eq_of_pairwise (fun a b ha hb hab hba => ?_) (pairwise_sort location xs)
    (pairwise_sort location ys)
  have ha' : a ∈ xs := (sort_perm location xs).mem_iff.mp ha
  have hb' : b ∈ xs := h.mem_iff.mpr ((sort_perm location ys).mem_iff.mp hb)
  exact List.inj_on_of_nodup_map hd ha' hb' (le_antisymm hab hba)

/-- What shares a location keeps its order. -/
theorem filter_sort {p : α → Bool} {place : Location} (h : ∀ x, p x = true → location x = place)
    (xs : List α) : (sort location xs).filter p = xs.filter p := by
  have hplace : ∀ x ∈ xs.filter p, location x = place := fun x hx => h x (List.mem_filter.mp hx).2
  have hsorted : (xs.filter p).Pairwise fun a b => (location a).le (location b) = true := by
    refine List.pairwise_iff_forall_sublist.mpr fun {a b} hab => ?_
    rw [hplace a (hab.mem List.mem_cons_self),
      hplace b (hab.mem (List.mem_cons_of_mem a List.mem_cons_self))]
    exact le_refl place
  have hsub : (xs.filter p).Sublist (sort location xs) := by
    refine List.sublist_mergeSort (fun a b c hab hbc => ?_) (fun a b => ?_) hsorted
      List.filter_sublist
    · exact le_trans hab hbc
    · exact le_total (location a) (location b)
  have hfiltered : (xs.filter p).Sublist ((sort location xs).filter p) := by
    simpa only [List.filter_filter, Bool.and_self] using hsub.filter p
  exact (hfiltered.eq_of_length ((sort_perm location xs).filter p).length_eq.symm).symm

theorem find?_sort {p : α → Bool} {place : Location} (h : ∀ x, p x = true → location x = place)
    (xs : List α) : (sort location xs).find? p = xs.find? p := by
  rw [← List.head?_filter, filter_sort location h, List.head?_filter]

end Sorting

end Location

namespace Diff
variable {α κ : Type} [DecidableEq κ] {key : α → κ}

/-- An element is kept where its key has not been seen and no element before it has it. -/
theorem mem_firstPer_iff {seen : List κ} {xs : List α} {x : α} :
    x ∈ firstPer key seen xs ↔
      key x ∉ seen ∧ ∃ before after, xs = before ++ x :: after ∧ ∀ y ∈ before, key y ≠ key x := by
  induction xs generalizing seen with
  | nil => simp [firstPer]
  | cons z rest ih =>
    unfold firstPer
    split
    · next hz =>
      rw [ih]
      refine and_congr_right fun hx => ⟨?_, ?_⟩
      · intro hsplit
        obtain ⟨before, after, rfl, hbefore⟩ := hsplit
        exact ⟨z :: before, after, rfl, List.forall_mem_cons.mpr ⟨fun h => hx (h ▸ hz), hbefore⟩⟩
      · intro hsplit
        obtain ⟨before, after, heq, hbefore⟩ := hsplit
        cases before with
        | nil =>
          obtain ⟨rfl, rfl⟩ := List.cons.inj heq
          exact absurd hz hx
        | cons w before =>
          obtain ⟨rfl, rfl⟩ := List.cons.inj heq
          exact ⟨before, after, rfl, (List.forall_mem_cons.mp hbefore).2⟩
    · next hz =>
      rw [List.mem_cons, ih, List.mem_cons, not_or]
      constructor
      · intro hkept
        rcases hkept with rfl | ⟨⟨hne, hx⟩, before, after, rfl, hbefore⟩
        · exact ⟨hz, [], rest, rfl, fun _ h => absurd h List.not_mem_nil⟩
        · exact ⟨hx, z :: before, after, rfl, List.forall_mem_cons.mpr ⟨Ne.symm hne, hbefore⟩⟩
      · intro hsplit
        obtain ⟨hx, before, after, heq, hbefore⟩ := hsplit
        cases before with
        | nil =>
          obtain ⟨rfl, rfl⟩ := List.cons.inj heq
          exact .inl rfl
        | cons w before =>
          obtain ⟨rfl, rfl⟩ := List.cons.inj heq
          obtain ⟨hw, hbefore⟩ := List.forall_mem_cons.mp hbefore
          exact .inr ⟨⟨Ne.symm hw, hx⟩, before, after, rfl, hbefore⟩

/-- Where no key stands twice, all is kept. -/
theorem firstPer_of_nodup {seen : List κ} {xs : List α} (h : (xs.map key).Nodup)
    (hseen : ∀ x ∈ xs, key x ∉ seen) : firstPer key seen xs = xs := by
  induction xs generalizing seen with
  | nil => rfl
  | cons x rest ih =>
    obtain ⟨hx, hrest⟩ := List.forall_mem_cons.mp hseen
    obtain ⟨hne, hnodup⟩ := List.nodup_cons.mp h
    rw [firstPer, if_neg hx, ih hnodup]
    intro y hy
    rw [List.mem_cons, not_or]
    exact ⟨fun heq => hne (heq ▸ List.mem_map_of_mem hy), hrest y hy⟩

section Order
variable {ds es : List Diff}

theorem nodup_location_of_ordered (h : ds.Pairwise fun d e => d.location < e.location) :
    (ds.map location).Nodup :=
  List.pairwise_map.mpr (h.imp Location.ne_of_lt)

/-- Strict order leaves one way to put differences in order. -/
theorem eq_of_perm_of_ordered (hds : ds.Pairwise fun d e => d.location < e.location)
    (hes : es.Pairwise fun d e => d.location.le e.location = true) (h : ds.Perm es) : ds = es := by
  refine h.eq_of_pairwise (fun d e hd he hle hge => ?_) (hds.imp Location.le_of_lt) hes
  have hlocation := Location.le_antisymm hle hge
  exact List.inj_on_of_nodup_map (nodup_location_of_ordered hds) hd (h.mem_iff.mpr he) hlocation

/-- Lists of differences in strict order with the same members are one list. -/
theorem eq_of_mem_iff_of_ordered (hds : ds.Pairwise fun d e => d.location < e.location)
    (hes : es.Pairwise fun d e => d.location < e.location) (h : ∀ d, d ∈ ds ↔ d ∈ es) : ds = es := by
  refine eq_of_perm_of_ordered hds (hes.imp Location.le_of_lt) ?_
  exact (List.perm_ext_iff_of_nodup (nodup_location_of_ordered hds).of_map
    (nodup_location_of_ordered hes).of_map).mpr h

/-- A list in strict order with the members of two others that share none is their merge. -/
theorem eq_merge_of_mem_iff {all : List Diff}
    (hall : all.Pairwise fun d e => d.location < e.location)
    (hds : ds.Pairwise fun d e => d.location < e.location)
    (hes : es.Pairwise fun d e => d.location < e.location) (hdisjoint : ds.Disjoint es)
    (h : ∀ d, d ∈ all ↔ d ∈ ds ∨ d ∈ es) :
    all = ds.merge es fun d e => d.location.le e.location := by
  refine eq_of_perm_of_ordered hall ?_ ?_
  · refine List.pairwise_merge (fun d e f hde hef => ?_) (fun d e => ?_) ds es
      (hds.imp Location.le_of_lt) (hes.imp Location.le_of_lt)
    · exact Location.le_trans hde hef
    · exact Location.le_total d.location e.location
  · have hnodup : (ds ++ es).Nodup := (nodup_location_of_ordered hds).of_map.append
      (nodup_location_of_ordered hes).of_map hdisjoint
    have hperm : all.Perm (ds ++ es) := (List.perm_ext_iff_of_nodup
      (nodup_location_of_ordered hall).of_map hnodup).mpr fun d => (h d).trans List.mem_append.symm
    exact hperm.trans (List.merge_perm_append _).symm

end Order

section Unique
variable {ds : List Diff} (ignoreValue : Bool)

theorem unique_sublist : (unique ignoreValue ds).Sublist ds :=
  firstPer_sublist [] ds

/-- What is kept is in strict order where no two differences share a location. -/
theorem pairwise_unique_sort (hd : (ds.map location).Nodup) :
    (unique ignoreValue (sort ds)).Pairwise fun d e => d.location < e.location := by
  have hne : (sort ds).Pairwise fun d e => d.location ≠ e.location :=
    List.pairwise_map.mp (((Location.sort_perm location ds).map location).nodup_iff.mpr hd)
  refine List.Pairwise.sublist (unique_sublist ignoreValue) ?_
  exact (Location.pairwise_sort location ds).imp₂ (fun _ _ => Location.lt_of_le_of_ne) hne

/-- No two of what is kept have one identity. -/
theorem nodup_identity_unique : ((unique ignoreValue ds).map (identity ignoreValue)).Nodup :=
  map_firstPer_nodup [] ds

/-- Of every difference one of its identity is kept. -/
theorem exists_mem_unique_of_mem {d : Diff} (h : d ∈ ds) :
    ∃ e ∈ unique ignoreValue ds, e.identity ignoreValue = d.identity ignoreValue :=
  List.mem_map.mp ((mem_map_firstPer_iff [] ds _).mpr
    ⟨List.mem_map_of_mem h, List.not_mem_nil⟩)

/-- Of differences in order, what is kept comes before all others of its identity. -/
theorem le_of_mem_unique (hds : ds.Pairwise fun d e => d.location.le e.location = true) {d e : Diff}
    (hd : d ∈ unique ignoreValue ds) (he : e ∈ ds)
    (hid : e.identity ignoreValue = d.identity ignoreValue) :
    d.location.le e.location = true := by
  obtain ⟨-, before, after, rfl, hbefore⟩ := mem_firstPer_iff.mp hd
  rcases List.mem_append.mp he with he | he
  · exact absurd hid (hbefore e he)
  · rcases List.mem_cons.mp he with rfl | he
    · exact Location.le_refl _
    · exact List.rel_of_pairwise_cons (List.pairwise_append.mp hds).2.1 he

/-- Whether differences of one identity stand at one location. -/
def sameAt (d e : Diff) : Bool :=
  e.identity ignoreValue = d.identity ignoreValue ∧ e.location = d.location

/-- Of differences in order, the first one at the least location of its identity is kept. -/
theorem mem_unique_iff_of_sorted (hds : ds.Pairwise fun d e => d.location.le e.location = true)
    {d : Diff} : d ∈ unique ignoreValue ds ↔ ds.find? (sameAt ignoreValue d) = some d ∧
      ∀ e ∈ ds, e.identity ignoreValue = d.identity ignoreValue →
        d.location.le e.location = true := by
  constructor
  · intro h
    refine ⟨?_, fun e he hid => le_of_mem_unique ignoreValue hds h he hid⟩
    obtain ⟨-, before, after, rfl, hbefore⟩ := mem_firstPer_iff.mp h
    refine List.find?_eq_some_iff_append.mpr ⟨by simp [sameAt], before, after, rfl, fun e he => ?_⟩
    simp [sameAt, hbefore e he]
  · intro hfirst
    obtain ⟨hfind, hleast⟩ := hfirst
    obtain ⟨-, before, after, rfl, hbefore⟩ := List.find?_eq_some_iff_append.mp hfind
    refine mem_firstPer_iff.mpr ⟨List.not_mem_nil, before, after, rfl, fun e he hid => ?_⟩
    have hge := (List.pairwise_append.mp hds).2.2 e he d List.mem_cons_self
    have heq := Location.le_antisymm hge (hleast e (List.mem_append_left _ he) hid)
    have hother := hbefore e he
    simp [sameAt, hid, heq] at hother

/-- Of the differences of one identity the earliest of those at the least location is kept. -/
theorem mem_unique_sort_iff_earliest {d : Diff} :
    d ∈ unique ignoreValue (sort ds) ↔ ∃ before after, ds = before ++ d :: after ∧
      (∀ e ∈ before, e.identity ignoreValue = d.identity ignoreValue → d.location < e.location) ∧
      ∀ e ∈ after, e.identity ignoreValue = d.identity ignoreValue →
        d.location.le e.location = true := by
  have hmem (e : Diff) : e ∈ sort ds ↔ e ∈ ds := (Location.sort_perm location ds).mem_iff
  have hsorted : (sort ds).Pairwise fun d e => d.location.le e.location = true :=
    Location.pairwise_sort location ds
  have hfind : (sort ds).find? (sameAt ignoreValue d) = ds.find? (sameAt ignoreValue d) :=
    Location.find?_sort location (fun e he => (of_decide_eq_true he).2) ds
  rw [mem_unique_iff_of_sorted ignoreValue hsorted, hfind]
  simp only [hmem]
  constructor
  · intro hfirst
    obtain ⟨hfind, hleast⟩ := hfirst
    obtain ⟨-, before, after, rfl, hbefore⟩ := List.find?_eq_some_iff_append.mp hfind
    obtain ⟨hleft, hright⟩ := List.forall_mem_append.mp hleast
    refine ⟨before, after, rfl, fun e he hid => ?_, (List.forall_mem_cons.mp hright).2⟩
    refine Location.lt_of_le_of_ne (hleft e he hid) fun heq => ?_
    have hother := hbefore e he
    simp [sameAt, hid, heq] at hother
  · intro hsplit
    obtain ⟨before, after, rfl, hbefore, hafter⟩ := hsplit
    refine ⟨List.find?_eq_some_iff_append.mpr
        ⟨by simp [sameAt], before, after, rfl, fun e he => ?_⟩,
      List.forall_mem_append.mpr ⟨fun e he hid => Location.le_of_lt (hbefore e he hid),
        List.forall_mem_cons.mpr ⟨fun _ => Location.le_refl _, hafter⟩⟩⟩
    have hother (hid : e.identity ignoreValue = d.identity ignoreValue) : e.location ≠ d.location :=
      (Location.ne_of_lt (hbefore e he hid)).symm
    simpa [sameAt, imp_iff_not_or] using hother

/-- Where no two differences share a location, the one at the least location of its identity is
kept. -/
theorem mem_unique_sort_iff (hd : (ds.map location).Nodup) {d : Diff} :
    d ∈ unique ignoreValue (sort ds) ↔
      d ∈ ds ∧ ∀ e ∈ ds, e.identity ignoreValue = d.identity ignoreValue →
        d.location.le e.location = true := by
  rw [mem_unique_sort_iff_earliest]
  constructor
  · intro hsplit
    obtain ⟨before, after, rfl, hbefore, hafter⟩ := hsplit
    refine ⟨List.mem_append_right _ List.mem_cons_self, List.forall_mem_append.mpr
      ⟨fun e he hid => Location.le_of_lt (hbefore e he hid), List.forall_mem_cons.mpr
        ⟨fun _ => Location.le_refl _, hafter⟩⟩⟩
  · intro hkept
    obtain ⟨hmem, hleast⟩ := hkept
    obtain ⟨before, after, rfl⟩ := List.append_of_mem hmem
    rw [List.map_append, List.map_cons, List.nodup_append] at hd
    obtain ⟨hbefore, hafter⟩ := List.forall_mem_append.mp hleast
    refine ⟨before, after, rfl, fun e he hid => ?_, (List.forall_mem_cons.mp hafter).2⟩
    exact Location.lt_of_le_of_ne (hbefore e he hid) fun heq =>
      hd.2.2 e.location (List.mem_map_of_mem he) d.location List.mem_cons_self heq.symm

/-- **Of every identity one difference is kept, in order of location: of those at its least location
the one that came first. What is kept is kept as it is when it is sorted and chosen from again, and
where no two differences share a location it does not depend on the order that they came in.** -/
theorem unique_sort_keeps_earliest (ds : List Diff) :
    ∃ kept, unique ignoreValue (sort ds) = kept ∧
      (kept.Pairwise fun d e => d.location.le e.location = true) ∧
      (kept.map (identity ignoreValue)).Nodup ∧
      (∀ id, id ∈ kept.map (identity ignoreValue) ↔ id ∈ ds.map (identity ignoreValue)) ∧
      (∀ d, d ∈ kept ↔ ∃ before after, ds = before ++ d :: after ∧
        (∀ e ∈ before, e.identity ignoreValue = d.identity ignoreValue → d.location < e.location) ∧
        ∀ e ∈ after, e.identity ignoreValue = d.identity ignoreValue →
          d.location.le e.location = true) ∧
      sort kept = kept ∧ unique ignoreValue kept = kept ∧
      ((ds.map location).Nodup → ∀ es, es.Perm ds → unique ignoreValue (sort es) = kept) := by
  have hsorted : (unique ignoreValue (sort ds)).Pairwise fun d e =>
      d.location.le e.location = true :=
    (Location.pairwise_sort location ds).sublist (unique_sublist ignoreValue)
  have hnodup : ((unique ignoreValue (sort ds)).map (identity ignoreValue)).Nodup :=
    nodup_identity_unique ignoreValue
  refine ⟨_, rfl, hsorted, hnodup, fun id => ?_, fun d => mem_unique_sort_iff_earliest ignoreValue,
    Location.sort_of_pairwise location hsorted,
    firstPer_of_nodup hnodup fun _ _ => List.not_mem_nil, fun hd es hperm => ?_⟩
  · have hids := (Location.sort_perm location ds).map (identity ignoreValue)
    rw [unique, mem_map_firstPer_iff, and_iff_left List.not_mem_nil]
    exact hids.mem_iff
  · rw [sort, sort, Location.sort_eq_of_perm location hperm.symm hd]

end Unique

/-- A byte of a new variable that is not clear. -/
def counterAt (byte : Int) (value : String) : Diff :=
  ⟨.nonZeroAddedSlot, .ofByte byte, none, none,
    some ⟨"counter", "t_uint16", 0, 3, "counter", "uint16", 3, none⟩, some value⟩

/-- Whichever byte of a variable is told first, the first byte of it is kept where values are
ignored, and both where they are not. -/
theorem unique_sort_keeps_earliest_counter :
    ([counterAt 3 "01", counterAt 4 "07"].map location).Nodup ∧
      (∀ es, es.Perm [counterAt 3 "01", counterAt 4 "07"] →
        unique true (sort es) = [counterAt 3 "01"]) ∧
      ∀ es, es.Perm [counterAt 3 "01", counterAt 4 "07"] →
        unique false (sort es) = [counterAt 3 "01", counterAt 4 "07"] := by
  have hnodup : ([counterAt 3 "01", counterAt 4 "07"].map location).Nodup := by decide
  have hsort : sort [counterAt 3 "01", counterAt 4 "07"] = [counterAt 3 "01", counterAt 4 "07"] :=
    Location.sort_of_pairwise location (by decide)
  have hkept (ignoreValue : Bool) (es : List Diff)
      (hes : es.Perm [counterAt 3 "01", counterAt 4 "07"]) :
      unique ignoreValue (sort es) =
        unique ignoreValue [counterAt 3 "01", counterAt 4 "07"] := by
    obtain ⟨kept, hkept, -, -, -, -, -, -, hperm⟩ :=
      unique_sort_keeps_earliest ignoreValue [counterAt 3 "01", counterAt 4 "07"]
    rw [hperm hnodup es hes, ← hkept, hsort]
  exact ⟨hnodup, fun es hes => (hkept true es hes).trans (by decide),
    fun es hes => (hkept false es hes).trans (by decide)⟩

end Diff

end UpgradeSafety
