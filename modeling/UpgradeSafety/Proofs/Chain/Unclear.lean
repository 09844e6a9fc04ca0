import Mathlib.Algebra.Ring.Nat
import Mathlib.Data.List.Induction
import UpgradeSafety.Proofs.Chain.Coverage

/-! Which new variables the check of added bytes tells of. A byte at an offset is a digit of its word's
number in base 256 (`Word.toNat_byteAt`), so it can be said without the check which bytes are not
clear (`Added.NotClear`). What is told of a chain is then one difference for each variable that has
such a byte in a slot that can be read, at the least of its bytes (`Added.tells_outcome`). A reader
of single slots is asked for them in ascending order, and those that it fails on are named in the
same order (`Added.check_tells_unclear`). -/
namespace UpgradeSafety

/-! ### Bytes as digits -/

namespace Word

theorem toNat_append_singleton (bs : Bytes) (b : UInt8) :
    toNat (bs ++ [b]) = toNat bs * 256 + b.toNat := by
  rw [toNat, List.foldl_append]
  rfl

/-- Counted from the last byte, the bytes are the digits of the number in base 256. -/
theorem toNat_getElem (bs : Bytes) (i : Nat) (h : bs.length - 1 - i < bs.length)
    (hi : i < bs.length) : bs[bs.length - 1 - i].toNat = toNat bs / 256 ^ i % 256 := by
  induction bs using List.reverseRecOn generalizing i with
  | nil => exact absurd hi (Nat.not_lt_zero i)
  | append_singleton bs b ih =>
    have hb : b.toNat < 256 := b.toNat_lt
    rw [toNat_append_singleton]
    cases i with
    | zero =>
      simp only [List.length_append, List.length_singleton, Nat.add_sub_cancel, Nat.sub_zero,
        List.getElem_concat_length]
      omega
    | succ i =>
      have hi' : i < bs.length := by simpa using hi
      have hdiv : (toNat bs * 256 + b.toNat) / 256 = toNat bs := by omega
      have hplace : (bs ++ [b]).length - 1 - (i + 1) = bs.length - 1 - i := by
        rw [List.length_append, List.length_singleton]
        omega
      rw [Nat.pow_succ', ← Nat.div_div_eq_div_mul, hdiv, ← ih i (by omega) hi']
      simp only [hplace]
      rw [List.getElem_append_left]

/-- The byte at an offset is the digit there of the number that the word writes. -/
theorem toNat_byteAt {w : Bytes} {offset : Int} (hw : w.length = wordSize)
    (h : 0 ≤ offset ∧ offset < wordSize) {b : UInt8} (hb : byteAt? w offset = some b) :
    b.toNat = toNat w / 256 ^ offset.toNat % 256 := by
  have hpos : ¬(wordSize : Int) - 1 - offset < 0 := by omega
  have hplace : ((wordSize : Int) - 1 - offset).toNat = w.length - 1 - offset.toNat := by omega
  unfold byteAt? at hb
  simp only [if_neg hpos, if_pos (Int.not_lt.mp hpos), hplace] at hb
  obtain ⟨hlt, rfl⟩ := List.getElem?_eq_some_iff.mp hb
  exact toNat_getElem w offset.toNat hlt (by omega)

end Word

/-- A byte is written in two digits, the first of which may be zero. -/
theorem Hex.ofByte_eq_padded (b : UInt8) : String.ofList (Hex.ofByte b) = Hex.padded 2 b.toNat := by
  have hall : ∀ n < 256, [Hex.digit (n / 16), Hex.digit (n % 16)] =
      List.replicate (2 - (Hex.digits n).length) '0' ++ Hex.digits n := by decide +kernel
  rw [Hex.ofByte, hall b.toNat b.toNat_lt]
  rfl

namespace Added
open CheckEvent

/-- An added byte whose slot a chain holds, and what is there instead of zero. -/
def NotClear (chain : Int → Option Bytes) (a : Added) (n : Nat) : Prop :=
  ∃ word, chain a.location.slot = some word ∧
    Word.toNat word / 256 ^ a.location.offset.toNat % 256 = n ∧ n ≠ 0

/-- The difference that tells of a byte that is not clear. -/
def unclearDiff (a : Added) (n : Nat) : Diff :=
  ⟨.nonZeroAddedSlot, a.location, none, none, some a.candidate, some (Hex.padded 2 n)⟩

/-- Differences that tell of the variables with bytes that are not clear: each of them once, at the
least of these bytes and with what is there, in the order of storage. -/
structure TellsUnclear (chain : Int → Option Bytes) (added : List Added) (ds : List Diff) :
    Prop where
  ordered : ds.Pairwise fun d e => d.location.le e.location = true
  once : (ds.map Diff.candidate).Nodup
  told : ∀ v, (∃ d ∈ ds, d.candidate = some v) ↔
    ∃ a ∈ added, a.candidate = v ∧ ∃ n, NotClear chain a n
  least : ∀ d ∈ ds, ∃ a ∈ added, ∃ n, NotClear chain a n ∧ d = unclearDiff a n ∧
    ∀ other ∈ added, other.candidate = a.candidate → (∃ m, NotClear chain other m) →
      a.location.le other.location = true

section Inspection
variable {chain : Int → Option Bytes} {words : List (Int × Bytes)}

/-- A byte is told of where its word is known and it is not zero. -/
theorem inspect_eq_some_iff {a : Added} (hlookup : words.lookup a.location.slot = chain a.location.slot)
    (hwhole : ∀ slot word, chain slot = some word → word.length = wordSize)
    (hoffset : 0 ≤ a.location.offset ∧ a.location.offset < wordSize) {d : Diff} :
    inspect words a = .ok (some d) ↔ ∃ n, NotClear chain a n ∧ d = unclearDiff a n := by
  unfold inspect NotClear
  rw [hlookup]
  cases hword : chain a.location.slot with
  | none => simp
  | some word =>
    have hlength := hwhole _ word hword
    obtain ⟨b, hb⟩ := Word.exists_byteAt hlength hoffset
    have hdigit := Word.toNat_byteAt hlength hoffset hb
    have hzero : b = 0 ↔ b.toNat = 0 := UInt8.toNat_inj.symm
    simp only [hb, hzero, Hex.ofByte_eq_padded, Option.some.injEq, exists_eq_left', ← hdigit]
    split
    · next h => simp [h]
    · next h => simp [h, unclearDiff, eq_comm]

theorem location_of_inspect {a : Added} {d : Diff} (h : inspect words a = .ok (some d)) :
    d.location = a.location := by
  unfold inspect at h
  split at h
  · cases h
  · split at h
    · cases h
    · split at h
      · cases h
      · rw [← Option.some.inj (Except.ok.inj h)]

/-- What is found of bytes in order is in order. -/
theorem pairwise_found {sorted : List Added} {found : List (Option Diff)}
    (hsorted : sorted.Pairwise fun a b => a.location.le b.location = true)
    (h : List.Forall₂ (fun a o => inspect words a = .ok o) sorted found) :
    (found.filterMap id).Pairwise fun d e => d.location.le e.location = true := by
  induction h with
  | nil => exact .nil
  | @cons a o rest others ha hrest ih =>
    obtain ⟨hhead, htail⟩ := List.pairwise_cons.mp hsorted
    cases o with
    | none => exact ih htail
    | some d =>
      refine .cons (fun e he => ?_) (ih htail)
      obtain ⟨o, ho, hsome⟩ := List.mem_filterMap.mp he
      obtain rfl : o = some e := hsome
      obtain ⟨b, hb, hinspect⟩ := exists_mem_of_forall₂ hrest.flip ho
      rw [location_of_inspect ha, location_of_inspect hinspect]
      exact hhead b hb

end Inspection

/-- Differences of added bytes are the same where they are of one variable. -/
theorem identity_unclearDiff_iff {a b : Added} {n m : Nat} :
    (unclearDiff a n).identity true = (unclearDiff b m).identity true ↔
      a.candidate = b.candidate := by
  simp [unclearDiff, Diff.identity]

/-- The slots that are asked for ascend. -/
theorem pairwise_lt_asked (added : List Added) : (asked added).Pairwise fun a b => a < b :=
  (pairwise_slots (Location.pairwise_sort location added)).imp₂
    (fun _ _ hle hne => Int.lt_iff_le_and_ne.mpr ⟨hle, hne⟩) (nodup_slots _)

section Outcome
variable {chain : Int → Option Bytes} {added : List Added}

/-- What has been found of added bytes, each variable once, tells which are not clear. -/
theorem tellsUnclear_unique {found : List Diff}
    (hordered : found.Pairwise fun d e => d.location.le e.location = true)
    (hfound : ∀ d, d ∈ found ↔ ∃ a ∈ added, ∃ n, NotClear chain a n ∧ d = unclearDiff a n) :
    TellsUnclear chain added (Diff.unique true found) := by
  have hkept (d : Diff) (hd : d ∈ Diff.unique true found) :
      ∃ a ∈ added, ∃ n, NotClear chain a n ∧ d = unclearDiff a n :=
    (hfound d).mp ((Diff.unique_sublist true).mem hd)
  refine ⟨List.Pairwise.sublist (Diff.unique_sublist true) hordered, ?_, fun v => ⟨?_, ?_⟩, ?_⟩
  · have hkeys : ((Diff.unique true found).map (Diff.identity true)).Nodup :=
      Diff.nodup_identity_unique true
    rw [List.nodup_map_iff_inj_on hkeys.of_map]
    intro d hd e he heq
    obtain ⟨a, -, n, -, rfl⟩ := hkept d hd
    obtain ⟨b, -, m, -, rfl⟩ := hkept e he
    exact List.inj_on_of_nodup_map hkeys hd he
      (identity_unclearDiff_iff.mpr (Option.some.inj heq))
  · intro htold
    obtain ⟨d, hd, hv⟩ := htold
    obtain ⟨a, ha, n, hn, rfl⟩ := hkept d hd
    exact ⟨a, ha, Option.some.inj hv, n, hn⟩
  · intro hunclear
    obtain ⟨a, ha, rfl, n, hn⟩ := hunclear
    obtain ⟨d, hd, hsame⟩ := Diff.exists_mem_unique_of_mem true
      ((hfound _).mpr ⟨a, ha, n, hn, rfl⟩)
    exact ⟨d, hd, congrArg Diff.Identity.candidate hsame⟩
  · intro d hd
    obtain ⟨a, ha, n, hn, rfl⟩ := hkept d hd
    refine ⟨a, ha, n, hn, rfl, fun other hother hsame hunclear => ?_⟩
    obtain ⟨m, hm⟩ := hunclear
    exact Diff.le_of_mem_unique true hordered hd ((hfound _).mpr ⟨other, hother, m, hm, rfl⟩)
      (identity_unclearDiff_iff.mpr hsame)

/-- What comes of a chain: the variables with bytes that are not clear, and the slots that the chain
does not hold. -/
theorem tells_outcome (hchain : ∀ slot word, chain slot = some word → word.length = wordSize)
    (hoffsets : ∀ a ∈ added, 0 ≤ a.location.offset ∧ a.location.offset < wordSize) :
    ∃ ds failed, TellsUnclear chain added ds ∧ failed.Pairwise (fun a b => a < b) ∧
      (∀ slot, slot ∈ failed ↔ (∃ a ∈ added, a.location.slot = slot) ∧ chain slot = none) ∧
      (failed = [] ∧ outcome chain added = .ok ds ∨ ∃ fault, fault.failedSlots = failed ∧
        failed ≠ [] ∧ outcome chain added = .error (.unread fault ds)) := by
  have hmem (a : Added) : a ∈ Location.sort location added ↔ a ∈ added :=
    (Location.sort_perm location added).mem_iff
  have htells := tells_ofChain chain (asked added)
  have hinspect (a : Added) (ha : a ∈ Location.sort location added) {d : Diff} :=
    inspect_eq_some_iff (d := d) (htells.words _ (mem_slots_iff.mpr ⟨a, ha, rfl⟩)) hchain
      (hoffsets a ((hmem a).mp ha))
  obtain ⟨found, hfound⟩ := exists_mapM fun a ha =>
    exists_inspect (Reading.ofChain chain (asked added)).words (hoffsets a ((hmem a).mp ha))
      fun word => length_of_lookup hchain _ word
  have htold (d : Diff) : d ∈ found.filterMap id ↔
      ∃ a ∈ added, ∃ n, NotClear chain a n ∧ d = unclearDiff a n := by
    rw [List.mem_filterMap]
    constructor
    · intro hd
      obtain ⟨o, ho, hsome⟩ := hd
      obtain rfl : o = some d := hsome
      obtain ⟨a, ha, hd⟩ := (mem_of_mapM hfound _).mp ho
      exact ⟨a, (hmem a).mp ha, (hinspect a ha).mp hd⟩
    · intro hd
      obtain ⟨a, ha, hd⟩ := hd
      have ha' := (hmem a).mpr ha
      exact ⟨some d, (mem_of_mapM hfound _).mpr ⟨a, ha', (hinspect a ha').mpr hd⟩, rfl⟩
  refine ⟨Diff.unique true (found.filterMap id), _,
    tellsUnclear_unique (pairwise_found (Location.pairwise_sort location added)
      (mapM_eq_ok_iff.mp hfound)) htold,
    (pairwise_lt_asked added).filter fun slot => (chain slot).isNone, fun slot => ?_, ?_⟩
  · rw [List.mem_filter, mem_asked_iff, Option.isNone_iff_eq_none]
  · rcases judge_of_inspected hfound with ⟨hnone, hjudge⟩ | ⟨fault, hslots, hsome, hjudge⟩
    · exact .inl ⟨hnone, hjudge⟩
    · exact .inr ⟨fault, hslots, hsome, hjudge⟩

end Outcome

theorem wordAt_eq_none_iff {read : Text → Int → Journal ChainEvent ReadFault Bytes}
    {address : Text} {slot : Int} : wordAt read address slot = none ↔
      ∃ fault, (read address slot).result = .error fault := by
  unfold wordAt
  cases (read address slot).result with
  | ok word => exact ⟨nofun, fun ⟨_, h⟩ => nomatch h⟩
  | error fault => exact ⟨fun _ => ⟨fault, rfl⟩, fun _ => rfl⟩

/-- With one worker, or for one slot, a reader is asked for the slots in ascending order. -/
theorem requested_check_inTurn {read : Text → Int → Journal ChainEvent ReadFault Bytes}
    {address : Text} (haddress : address ≠ []) {workers : Workers} {added : List Added}
    (hworkers : workers.count ≤ 1 ∨ (asked added).length ≤ 1) :
    requested (check added (some address) (some (.single read)) workers).notes = asked added := by
  by_cases hadded : added = []
  · subst hadded
    rw [check_nil, asked, Location.sort_of_pairwise location .nil]
    rfl
  · have hturn : readAll (.single read) workers address (slots (Location.sort location added)) =
        readInTurn read address (slots (Location.sort location added)) := by
      have hone : (decide (1 < workers.count) &&
          decide (1 < (slots (Location.sort location added)).length)) = false := by
        rcases hworkers with h | h
        · rw [decide_eq_false (Int.not_lt.mpr h), Bool.false_and]
        · have hfew : ¬1 < (slots (Location.sort location added)).length := Nat.not_lt.mpr h
          rw [decide_eq_false hfew, Bool.and_false]
      simp only [readAll, hone, Bool.false_eq_true, if_false]
    obtain ⟨hresult, hrequested⟩ := readInTurn_spec read address
      (slots (Location.sort location added))
    rw [(check_of_readAll hadded haddress (hturn ▸ hresult)).2, hturn, hrequested]
    rfl

/-- **With a reader of single slots, read one after another, the check of added bytes asks for every
slot once, in ascending order, tells of each variable that has a byte that is not clear in a slot
that can be read, once and at the least of these bytes, and fails exactly where some slot cannot be
read, naming these slots in ascending order.** -/
theorem check_tells_unclear {read : Text → Int → Journal ChainEvent ReadFault Bytes}
    {address : Text} (haddress : address ≠ [])
    (hwhole : ∀ slot word, (read address slot).result = .ok word → word.length = wordSize)
    {workers : Workers} (added : List Added)
    (hworkers : workers.count ≤ 1 ∨ (asked added).length ≤ 1)
    (hoffsets : ∀ a ∈ added, 0 ≤ a.location.offset ∧ a.location.offset < wordSize) :
    (requested (check added (some address) (some (.single read)) workers).notes).Pairwise
        (fun a b => a < b) ∧
      (∀ slot, slot ∈ requested (check added (some address) (some (.single read)) workers).notes ↔
        ∃ a ∈ added, a.location.slot = slot) ∧
      ∃ ds failed, TellsUnclear (wordAt read address) added ds ∧
        failed.Pairwise (fun a b => a < b) ∧
        (∀ slot, slot ∈ failed ↔ (∃ a ∈ added, a.location.slot = slot) ∧
          ∃ fault, (read address slot).result = .error fault) ∧
        (failed = [] ∧
            (check added (some address) (some (.single read)) workers).result = .ok ds ∨
          ∃ fault, fault.failedSlots = failed ∧ failed ≠ [] ∧
            (check added (some address) (some (.single read)) workers).result =
              .error (.unread fault ds)) := by
  have hserves : (Reader.single read).Serves (wordAt read address) address := fun slot => rfl
  have hchain (slot : Int) (word : Bytes) (hword : wordAt read address slot = some word) :
      word.length = wordSize := hwhole slot word (toOption_eq_some_iff.mp hword)
  obtain ⟨ds, failed, htells, hascending, hfailed, hend⟩ := tells_outcome hchain hoffsets
  rw [requested_check_inTurn haddress hworkers,
    result_of_serves added haddress hserves workers]
  refine ⟨pairwise_lt_asked added, fun slot => mem_asked_iff, ds, failed, htells, hascending,
    fun slot => ?_, hend⟩
  rw [hfailed, wordAt_eq_none_iff]

/-- Of two bytes of a variable, one of them given twice, the lower one is told of, and beside them the
slot that cannot be read. -/
theorem check_tells_unclear_twice :
    ∃ ds fault, (check [⟨⟨1, 3⟩, readByte.candidate⟩, unreadByte, readByte, readByte] (some "0x0")
        (some (slotwise oneWord)) (.inOrder 1)).result = .error (.unread fault ds) ∧
      0 ∈ fault.failedSlots ∧ (∃ d ∈ ds, d.candidate = some readByte.candidate ∧
        d.location.le readByte.location = true) := by
  obtain ⟨read, hread⟩ : ∃ read, slotwise oneWord = .single read := ⟨_, rfl⟩
  have hserves := serves_slotwise oneWord "0x0"
  rw [hread] at hserves ⊢
  have hchain : wordAt read "0x0" = oneWord := funext hserves
  have hworkers : (Workers.inOrder 1).count ≤ 1 := Int.le_refl 1
  have hunclear : NotClear oneWord readByte 7 :=
    ⟨List.replicate wordSize 7, rfl, by decide +kernel, by decide⟩
  obtain ⟨-, -, ds, failed, htells, -, hfailed, hend⟩ := check_tells_unclear
    (by decide : ("0x0" : Text) ≠ []) (fun slot word h => length_oneWord slot word
      ((hserves slot).symm.trans (toOption_eq_some_iff.mpr h)))
    [⟨⟨1, 3⟩, readByte.candidate⟩, unreadByte, readByte, readByte] (.inl hworkers) (by decide)
  rw [hchain] at htells
  have hzero : 0 ∈ failed := (hfailed 0).mpr
    ⟨⟨unreadByte, by decide, rfl⟩, wordAt_eq_none_iff.mp (congrFun hchain 0)⟩
  rcases hend with ⟨hnone, -⟩ | ⟨fault, hslots, -, hresult⟩
  · exact absurd (hnone ▸ hzero) List.not_mem_nil
  · refine ⟨ds, fault, hresult, hslots ▸ hzero, ?_⟩
    obtain ⟨d, hd, hcandidate⟩ := (htells.told readByte.candidate).mpr
      ⟨readByte, by decide, rfl, 7, hunclear⟩
    obtain ⟨a, -, n, -, rfl, hleast⟩ := htells.least d hd
    exact ⟨_, hd, hcandidate, hleast readByte (by decide) (Option.some.inj hcandidate).symm
      ⟨7, hunclear⟩⟩

end Added

end UpgradeSafety
