import UpgradeSafety.Proofs.Chain.Reading

/-! The ways of reading a chain come to one thing. A chain holds the words of some slots, and a
reader `Serves` it when it answers with what the chain holds. One slot after another, side by side
in any order of completion or all at once, the reading `Tells` the same, so the check of added
bytes is a function of the chain alone (`Added.check_reads_alike`). -/
namespace UpgradeSafety

/-- An answer for many slots that goes with a chain. With a slot that the chain does not hold it is
a failure, which hands over the words of the others. -/
def GoesWith (chain : Int → Option Bytes) (slots : List Int) :
    Except ReadFault (List (Int × Bytes)) → Prop
  | .ok words => ∀ slot ∈ slots, words.lookup slot = chain slot ∧ (chain slot).isSome
  | .error fault => ∀ slot ∈ slots, fault.words.lookup slot = chain slot

/-- Answers for an address with what a chain holds. -/
def Reader.Serves (chain : Int → Option Bytes) (address : Text) : Reader → Prop
  | .single read => ∀ slot, (read address slot).result.toOption = chain slot
  | .batch readMany => ∀ slots, GoesWith chain slots (readMany address slots).result

/-- Answers with what a chain holds when it is asked for these slots. -/
def Reader.Answers (chain : Int → Option Bytes) (address : Text) (slots : List Int) : Reader → Prop
  | .single read => ∀ slot, (read address slot).result.toOption = chain slot
  | .batch readMany => GoesWith chain slots (readMany address slots).result

theorem Reader.Serves.answers {chain : Int → Option Bytes} {address : Text} {reader : Reader}
    (h : reader.Serves chain address) (slots : List Int) : reader.Answers chain address slots := by
  cases reader with
  | single read => exact h
  | batch readMany => exact h slots

namespace Added
open CheckEvent

variable {chain : Int → Option Bytes} {address : Text}

/-- A reading that tells what a chain holds of some slots, and which of them it does not hold, in
the order of the slots. -/
structure Reading.Tells (chain : Int → Option Bytes) (slots : List Int) (reading : Reading) :
    Prop where
  words : ∀ slot ∈ slots, reading.words.lookup slot = chain slot
  failed : reading.failed = slots.filter fun slot => (chain slot).isNone

theorem tells_ofChain (chain : Int → Option Bytes) (slots : List Int) :
    (Reading.ofChain chain slots).Tells chain slots where
  words slot hslot := by rw [lookup_ofChain, if_pos hslot]
  failed := rfl

/-- Reading side by side finds what reading in turn does, in whatever order the reads end. -/
theorem tells_abreast (chain : Int → Option Bytes) {completed slots : List Int}
    (h : completed.Perm slots) (hslots : slots.Pairwise fun a b => a ≤ b) :
    Reading.Tells chain slots ⟨(Reading.ofChain chain completed).words,
      (completed.filter fun slot => (chain slot).isNone).mergeSort⟩ where
  words slot hslot := by
    show (Reading.ofChain chain completed).words.lookup slot = _
    rw [lookup_ofChain, if_pos (h.mem_iff.mpr hslot)]
  failed := mergeSort_filter h hslots _

theorem tells_ofBatch {slots : List Int} (hslots : slots.Pairwise fun a b => a ≤ b)
    {answer : Except ReadFault (List (Int × Bytes))} (h : GoesWith chain slots answer) :
    (Reading.ofBatch slots answer).Tells chain slots := by
  cases answer with
  | ok words =>
    refine ⟨fun slot hslot => (h slot hslot).1, (List.filter_eq_nil_iff.mpr ?_).symm⟩
    intro slot hslot
    rw [Option.isNone_iff_eq_none]
    exact Option.isSome_iff_ne_none.mp (h slot hslot).2
  | error fault =>
    refine ⟨h, (mergeSort_filter (.refl slots) hslots _).trans ?_⟩
    exact List.filter_congr fun slot hslot => congrArg Option.isNone (h slot hslot)

theorem exists_tells {reader : Reader} {slots : List Int}
    (hanswers : reader.Answers chain address slots) (workers : Workers)
    (hslots : slots.Pairwise fun a b => a ≤ b) :
    ∃ reading, (readAll reader workers address slots).result = .ok reading ∧
      reading.Tells chain slots := by
  unfold readAll
  cases reader with
  | batch readMany =>
    exact ⟨_, (readAtOnce_spec readMany address slots).1, tells_ofBatch hslots hanswers⟩
  | single read =>
    have hword : wordAt read address = chain := funext hanswers
    dsimp only
    split
    · refine ⟨_, (readAbreast_spec read workers.completion address slots).1, ?_⟩
      rw [hword]
      exact tells_abreast chain (workers.completion_perm slots) hslots
    · refine ⟨_, (readInTurn_spec read address slots).1, ?_⟩
      rw [hword]
      exact tells_ofChain chain slots

/-- What the check of added bytes comes to on a chain. -/
def outcome (chain : Int → Option Bytes) (added : List Added) : Except AddedFault (List Diff) :=
  let sorted := Location.sort location added
  judge sorted (.ofChain chain (slots sorted))

theorem outcome_nil (chain : Int → Option Bytes) : outcome chain [] = .ok [] := by
  have hsort : Location.sort location ([] : List Added) = [] :=
    Location.sort_of_pairwise location .nil
  unfold outcome
  rw [hsort]
  rfl

/-- What comes of a chain does not depend on who reads it. -/
theorem result_of_serves (added : List Added) (haddress : address ≠ []) {reader : Reader}
    (hserves : reader.Serves chain address) (workers : Workers) :
    (check added (some address) (some reader) workers).result = outcome chain added := by
  by_cases hadded : added = []
  · subst hadded
    rw [check_nil, outcome_nil]
    rfl
  · have hslots := pairwise_slots (Location.pairwise_sort location added)
    obtain ⟨reading, hreading, htells⟩ := exists_tells (hserves.answers _) workers hslots
    rw [(check_of_readAll hadded haddress hreading).1]
    refine judge_congr (fun a ha => ?_) htells.failed
    have hslot := mem_slots_iff.mpr ⟨a, ha, rfl⟩
    rw [htells.words _ hslot, (tells_ofChain chain _).words _ hslot]

/-- **However a chain is read, the check of added bytes comes to the same, and every slot of theirs
is asked for exactly once.** -/
theorem check_reads_alike
    (hchain : ∀ slot word, chain slot = some word → word.length = wordSize) (added : List Added)
    (hoffsets : ∀ a ∈ added, 0 ≤ a.location.offset ∧ a.location.offset < wordSize)
    (haddress : address ≠ []) :
    outcome chain added ≠ .error .shortWord ∧
      ∀ (reader : Reader) (workers : Workers), reader.Serves chain address →
        (check added (some address) (some reader) workers).result = outcome chain added ∧
        (requested (check added (some address) (some reader) workers).notes).Nodup ∧
        ∀ slot, slot ∈ requested (check added (some address) (some reader) workers).notes ↔
          ∃ a ∈ added, a.location.slot = slot := by
  constructor
  · intro hshort
    obtain ⟨diffs, hjudge | ⟨fault, hjudge⟩⟩ := exists_judge
      (fun a ha => hoffsets a ((Location.sort_perm location added).mem_iff.mp ha))
      (length_of_lookup hchain)
    · exact absurd (hjudge.symm.trans hshort) nofun
    · exact absurd (hjudge.symm.trans hshort) nofun
  · intro reader workers hserves
    exact ⟨result_of_serves added haddress hserves workers,
      requested_check added haddress reader workers⟩

/-- Reads a chain slot by slot. -/
def slotwise (chain : Int → Option Bytes) : Reader :=
  .single fun _ slot => match chain slot with
    | some word => pure word
    | none => .fail (.ofSlot "" slot)

/-- Reads a chain in one go. -/
def wholesale (chain : Int → Option Bytes) : Reader :=
  .batch fun _ slots =>
    let reading := Reading.ofChain chain slots
    match reading.failed with
    | [] => pure reading.words
    | first :: rest => .fail ⟨"", some first, first :: rest, reading.words⟩

theorem serves_slotwise (chain : Int → Option Bytes) (address : Text) :
    (slotwise chain).Serves chain address := by
  intro slot
  dsimp only
  cases chain slot with
  | none => rfl
  | some word => rfl

theorem serves_wholesale (chain : Int → Option Bytes) (address : Text) :
    (wholesale chain).Serves chain address := by
  intro slots
  have htells := tells_ofChain chain slots
  dsimp only
  split
  · next hfailed =>
    refine fun slot hslot => ⟨htells.words slot hslot, ?_⟩
    have hnone := List.filter_eq_nil_iff.mp (htells.failed.symm.trans hfailed) slot hslot
    rwa [Option.isNone_iff_eq_none, ← ne_eq, ← Option.isSome_iff_ne_none] at hnone
  · exact htells.words

/-- A chain that holds one word only. -/
def oneWord : Int → Option Bytes
  | 1 => some (List.replicate wordSize 7)
  | _ => none

/-- A byte in the slot that can be read. -/
def readByte : Added := ⟨⟨1, 0⟩, ⟨"b", "t_uint8", 1, 0, "b", "uint8", 32, none⟩⟩

/-- A byte in a slot that cannot. -/
def unreadByte : Added := ⟨⟨0, 31⟩, ⟨"a", "t_uint8", 0, 31, "a", "uint8", 31, none⟩⟩

theorem check_reads_alike_oneWord :
    outcome oneWord [unreadByte, readByte] =
        .error (.unread ⟨"1 个存储槽读取失败: 0x0", some 0, [0], []⟩
          [⟨.nonZeroAddedSlot, ⟨1, 0⟩, none, none, some readByte.candidate, some "07"⟩]) ∧
      (check [unreadByte, readByte] (some "0x0") (some (slotwise oneWord)) (.inOrder 1)).result =
        outcome oneWord [unreadByte, readByte] ∧
      (check [unreadByte, readByte] (some "0x0") (some (slotwise oneWord))
        ⟨2, List.reverse, List.reverse_perm⟩).result = outcome oneWord [unreadByte, readByte] ∧
      (check [unreadByte, readByte] (some "0x0") (some (wholesale oneWord)) (.inOrder 1)).result =
        outcome oneWord [unreadByte, readByte] := by
  have hwhole : ∀ slot word, oneWord slot = some word → word.length = wordSize := by
    intro slot word hword
    unfold oneWord at hword
    split at hword
    · rw [← Option.some.inj hword]
      rfl
    · cases hword
  obtain ⟨-, halike⟩ := check_reads_alike hwhole [unreadByte, readByte] (by decide)
    (by decide : ("0x0" : Text) ≠ [])
  have hsort : Location.sort location [unreadByte, readByte] = [unreadByte, readByte] :=
    Location.sort_of_pairwise location (by decide)
  refine ⟨?_, ?_, ?_, ?_⟩
  · unfold outcome
    rw [hsort]
    rfl
  · exact (halike _ _ (serves_slotwise oneWord "0x0")).1
  · exact (halike _ _ (serves_slotwise oneWord "0x0")).1
  · exact (halike _ _ (serves_wholesale oneWord "0x0")).1

end Added

end UpgradeSafety
