import UpgradeSafety.Proofs.Chain.Strategies

/-! What it means that added bytes have passed. A reader that is asked for single slots answers with
a word or fails, but one that is asked for many may leave slots out and still return. Where it does
not (`Reader.Thorough`), a check that comes to its end has looked at every byte, and slots without a
word are named in its failure (`Added.check_covers`). Where it does, the slots that it leaves out
pass as clear (`Added.check_passes_left_out`). -/
namespace UpgradeSafety

/-- Has a word for every slot that it is asked for, or fails. A reader of single slots is asked for
one at a time, and cannot return without its word. -/
def Reader.Thorough (address : Text) (slots : List Int) : Reader → Prop
  | .single _ => True
  | .batch readMany => ∀ words, (readMany address slots).result = .ok words →
      ∀ slot ∈ slots, (words.lookup slot).isSome

/-- The word that a reader finds in a slot when it is asked for these slots, in a failure, too. -/
def Reader.wordOf (address : Text) (slots : List Int) : Reader → Int → Option Bytes
  | .single read => Added.wordAt read address
  | .batch readMany => fun slot =>
    (Added.Reading.ofBatch slots (readMany address slots).result).words.lookup slot

theorem Reader.Thorough.answers {address : Text} {slots : List Int} {reader : Reader}
    (h : reader.Thorough address slots) :
    reader.Answers (reader.wordOf address slots) address slots := by
  cases reader with
  | single read => exact fun slot => rfl
  | batch readMany =>
    show GoesWith (fun slot => (Added.Reading.ofBatch slots (readMany address
      slots).result).words.lookup slot) slots (readMany address slots).result
    cases hanswer : (readMany address slots).result with
    | error fault => exact fun slot _ => rfl
    | ok words => exact fun slot hslot => ⟨rfl, h words hanswer slot hslot⟩

/-- A reader that answers with what a chain holds leaves nothing out. -/
theorem Reader.Serves.thorough {chain : Int → Option Bytes} {address : Text} {reader : Reader}
    (h : reader.Serves chain address) (slots : List Int) : reader.Thorough address slots := by
  cases reader with
  | single read => trivial
  | batch readMany =>
    intro words hwords slot hslot
    have hanswer : GoesWith chain slots (readMany address slots).result := h slots
    rw [hwords] at hanswer
    obtain ⟨hword, hsome⟩ := hanswer slot hslot
    rwa [hword]

namespace Added

theorem wordsFit_wholesale {chain : Int → Option Bytes}
    (hchain : ∀ slot word, chain slot = some word → word.length = wordSize) :
    WordsFit (wholesale chain) := by
  intro address slots slot word hword
  dsimp only at hword
  split at hword
  · exact length_of_lookup hchain slot word hword
  · exact length_of_lookup hchain slot word hword

/-- The words that a reader finds are whole where it has no others. -/
theorem WordsFit.length {reader : Reader} (h : WordsFit reader) {address : Text}
    {slots : List Int} {slot : Int} {word : Bytes}
    (hword : reader.wordOf address slots slot = some word) : word.length = wordSize := by
  cases reader with
  | single read => exact h address slot word (toOption_eq_some_iff.mp hword)
  | batch readMany => exact h address slots slot word hword

section Judging
variable {sorted : List Added} {reading : Reading}

/-- A byte whose word is known is looked at, and told of where it is not zero. -/
theorem exists_byte_of_inspect {words : List (Int × Bytes)} {a : Added} {word : Bytes}
    (hword : words.lookup a.location.slot = some word) {found : Option Diff}
    (h : inspect words a = .ok found) :
    ∃ b, Word.byteAt? word a.location.offset = some b ∧ (b ≠ 0 → ∃ d, found = some d ∧
      d.kind = .nonZeroAddedSlot ∧ d.candidate = some a.candidate) := by
  unfold inspect at h
  rw [hword] at h
  dsimp only at h
  split at h
  · cases h
  · next b hb =>
    refine ⟨b, hb, fun hclear => ?_⟩
    rw [if_neg hclear] at h
    exact ⟨_, (Except.ok.inj h).symm, rfl, rfl⟩

/-- Of a variable that has been found not clear it is told, if not of the same byte. -/
theorem exists_told_of_mem {ds : List Diff} {d : Diff} (h : d ∈ ds) :
    ∃ e ∈ Diff.unique true ds, e.kind = d.kind ∧ e.candidate = d.candidate := by
  obtain ⟨e, he, hsame⟩ := Diff.exists_mem_unique_of_mem true h
  exact ⟨e, he, congrArg Diff.Identity.kind hsame, congrArg Diff.Identity.candidate hsame⟩

/-- The answer to bytes that have been looked at: what was found, or that slots were not read. -/
theorem judge_of_inspected {found : List (Option Diff)}
    (h : sorted.mapM (inspect reading.words) = .ok found) :
    reading.failed = [] ∧ judge sorted reading = .ok (Diff.unique true (found.filterMap id)) ∨
      ∃ fault, fault.failedSlots = reading.failed ∧ reading.failed ≠ [] ∧
        judge sorted reading = .error (.unread fault (Diff.unique true (found.filterMap id))) := by
  unfold judge
  rw [h]
  cases hfailed : reading.failed with
  | nil => exact .inl ⟨rfl, rfl⟩
  | cons first rest => exact .inr ⟨_, rfl, List.cons_ne_nil _ _, rfl⟩

end Judging

/-- The slots that a check asks a reader for. -/
def asked (added : List Added) : List Int :=
  slots (Location.sort location added)

theorem mem_asked_iff {added : List Added} {slot : Int} :
    slot ∈ asked added ↔ ∃ a ∈ added, a.location.slot = slot :=
  mem_slots_iff.trans (exists_congr fun _ =>
    and_congr_left fun _ => (Location.sort_perm location added).mem_iff)

section Coverage
variable {added : List Added} {address : Text} {reader : Reader}

/-- A reader that leaves nothing out comes to a reading of its words, by which the bytes are judged. -/
theorem exists_judged (hadded : added ≠ []) (haddress : address ≠ [])
    (hthorough : reader.Thorough address (asked added)) (workers : Workers) :
    ∃ reading : Reading, (check added (some address) (some reader) workers).result =
        judge (Location.sort location added) reading ∧
      (∀ a ∈ added, reading.words.lookup a.location.slot =
        reader.wordOf address (asked added) a.location.slot) ∧
      ∀ slot, slot ∈ reading.failed ↔ (∃ a ∈ added, a.location.slot = slot) ∧
        reader.wordOf address (asked added) slot = none := by
  obtain ⟨reading, hreading, hwords, hfailed⟩ := exists_tells hthorough.answers workers
    (pairwise_slots (Location.pairwise_sort location added))
  refine ⟨reading, (check_of_readAll hadded haddress hreading).1,
    fun a ha => hwords _ (mem_asked_iff.mpr ⟨a, ha, rfl⟩), fun slot => ?_⟩
  rw [hfailed, List.mem_filter, Option.isNone_iff_eq_none]
  exact and_congr_left fun _ => mem_asked_iff

/-- **Where a reader has a word for each slot that it is asked for, or fails, a check of added bytes
that comes to its end has looked at each of them in its word, and tells of its variable where the
byte is not zero; and where some slot has no word, the check fails and names exactly these slots.** -/
theorem check_covers (hadded : added ≠ []) (haddress : address ≠ [])
    (hthorough : reader.Thorough address (asked added)) (workers : Workers) :
    (∀ ds, (check added (some address) (some reader) workers).result = .ok ds →
      ∀ a ∈ added, ∃ word b, reader.wordOf address (asked added) a.location.slot = some word ∧
        Word.byteAt? word a.location.offset = some b ∧
        (b ≠ 0 → ∃ d ∈ ds, d.kind = .nonZeroAddedSlot ∧ d.candidate = some a.candidate)) ∧
      ((∀ a ∈ added, 0 ≤ a.location.offset ∧ a.location.offset < wordSize) → WordsFit reader →
        ∀ a ∈ added, reader.wordOf address (asked added) a.location.slot = none →
          ∃ fault diffs, (check added (some address) (some reader) workers).result =
              .error (.unread fault diffs) ∧
            ∀ slot, slot ∈ fault.failedSlots ↔ (∃ a ∈ added, a.location.slot = slot) ∧
              reader.wordOf address (asked added) slot = none) := by
  have hmem (a : Added) : a ∈ Location.sort location added ↔ a ∈ added :=
    (Location.sort_perm location added).mem_iff
  obtain ⟨reading, hresult, hwords, hfailed⟩ := exists_judged hadded haddress hthorough workers
  rw [hresult]
  constructor
  · intro ds hds a ha
    obtain ⟨found, hfound, -⟩ := bind_eq_ok_iff.mp hds
    rcases judge_of_inspected hfound with ⟨hnone, hjudge⟩ | ⟨fault, -, -, hjudge⟩
    · obtain rfl := Except.ok.inj (hjudge.symm.trans hds)
      have hread : reader.wordOf address (asked added) a.location.slot ≠ none :=
        fun h => List.not_mem_nil (hnone ▸ (hfailed _).mpr ⟨⟨a, ha, rfl⟩, h⟩)
      obtain ⟨word, hword⟩ := Option.ne_none_iff_exists'.mp hread
      obtain ⟨o, ho, hinspect⟩ := exists_mem_of_forall₂ (mapM_eq_ok_iff.mp hfound) ((hmem a).mpr ha)
      obtain ⟨b, hb, htold⟩ := exists_byte_of_inspect ((hwords a ha).trans hword) hinspect
      refine ⟨word, b, hword, hb, fun hclear => ?_⟩
      obtain ⟨d, rfl, hkind, hcandidate⟩ := htold hclear
      have hd : d ∈ found.filterMap id := List.mem_filterMap.mpr ⟨some d, ho, rfl⟩
      obtain ⟨e, he, hkind', hcandidate'⟩ := exists_told_of_mem hd
      exact ⟨e, he, hkind'.trans hkind, hcandidate'.trans hcandidate⟩
    · exact nomatch hjudge.symm.trans hds
  · intro hoffsets hfit a ha hword
    obtain ⟨found, hfound⟩ := exists_mapM fun a ha =>
      exists_inspect reading.words (hoffsets a ((hmem a).mp ha)) fun word hword =>
        hfit.length ((hwords a ((hmem a).mp ha)).symm.trans hword)
    rcases judge_of_inspected hfound with ⟨hnone, -⟩ | ⟨fault, hslots, -, hjudge⟩
    · exact absurd (hnone ▸ (hfailed _).mpr ⟨⟨a, ha, rfl⟩, hword⟩) List.not_mem_nil
    · exact ⟨fault, _, hjudge, fun slot => hslots ▸ hfailed slot⟩

end Coverage

theorem length_oneWord (slot : Int) (word : Bytes) (h : oneWord slot = some word) :
    word.length = wordSize := by
  unfold oneWord at h
  split at h
  · rw [← Option.some.inj h]
    rfl
  · cases h

/-- The byte that is not zero is told of, and beside a slot that cannot be read the check fails. -/
theorem check_covers_oneWord :
    (∀ ds, (check [readByte] (some "0x0") (some (wholesale oneWord)) (.inOrder 1)).result = .ok ds →
      ∃ d ∈ ds, d.kind = .nonZeroAddedSlot ∧ d.candidate = some readByte.candidate) ∧
      ∃ fault diffs, (check [unreadByte, readByte] (some "0x0") (some (wholesale oneWord))
        (.inOrder 1)).result = .error (.unread fault diffs) ∧ 0 ∈ fault.failedSlots := by
  have hthorough (slots : List Int) : (wholesale oneWord).Thorough "0x0" slots :=
    (serves_wholesale oneWord "0x0").thorough slots
  have haddress : ("0x0" : Text) ≠ [] := by decide
  have hsort : asked [readByte] = [1] := by
    unfold asked
    rw [Location.sort_of_pairwise location (List.pairwise_singleton _ _)]
    rfl
  have hsort' : asked [unreadByte, readByte] = [0, 1] := by
    unfold asked
    rw [Location.sort_of_pairwise location (by decide)]
    rfl
  constructor
  · intro ds hds
    obtain ⟨word, b, hword, hb, htold⟩ := (check_covers (List.cons_ne_nil _ _) haddress (hthorough _)
      (.inOrder 1)).1 ds hds readByte List.mem_cons_self
    rw [hsort] at hword
    obtain rfl := Option.some.inj (show some (List.replicate wordSize 7) = some word from hword)
    obtain rfl := Option.some.inj (show some 7 = some b from hb)
    exact htold (by decide)
  · obtain ⟨fault, diffs, hfault, hslots⟩ := (check_covers (List.cons_ne_nil unreadByte [readByte])
      haddress (hthorough _) (.inOrder 1)).2 (by decide) (wordsFit_wholesale length_oneWord) unreadByte
      List.mem_cons_self (by rw [hsort']; rfl)
    refine ⟨fault, diffs, hfault, (hslots 0).mpr ⟨⟨unreadByte, List.mem_cons_self, rfl⟩, ?_⟩⟩
    rw [hsort']
    rfl

/-- A reader that returns without a word has said nothing, and the byte passes all the same. -/
def silent : Reader :=
  .batch fun _ _ => pure []

/-- The slots that a reader leaves out when it returns are not missed, and a byte whose word is not
known passes as clear. -/
theorem check_passes_left_out : WordsFit silent ∧
    (check [readByte] (some "0x0") (some silent) (.inOrder 1)).result = .ok [] ∧
    silent.wordOf "0x0" (asked [readByte]) readByte.location.slot = none := by
  have hsort : Location.sort location [readByte] = [readByte] :=
    Location.sort_of_pairwise location (List.pairwise_singleton _ _)
  refine ⟨nofun, ?_, rfl⟩
  unfold check
  rw [hsort]
  rfl

end Added

end UpgradeSafety
