import UpgradeSafety.Chain.Added
import UpgradeSafety.Proofs.Diff.Representatives
import UpgradeSafety.Proofs.Results

/-! What a reader is asked for and what comes of it. The slots of added bytes that are sorted are
in ascending order and distinct, so a list of failures that is sorted afterwards is the list in
which they were asked for (`mergeSort_filter`). Reading never fails as a whole: each way of
reading comes to a `Reading` (`exists_readAll`), and asks for every slot once
(`requested_readAll`). -/
namespace UpgradeSafety.Added
open CheckEvent

/-! ### The slots that are asked for -/

section Slots
variable {added : List Added}

theorem nodup_slots (added : List Added) : (slots added).Nodup := by
  have h : ((slots added).map id).Nodup := Diff.map_firstPer_nodup [] _
  rwa [List.map_id] at h

theorem mem_slots_iff {slot : Int} : slot ∈ slots added ↔ ∃ a ∈ added, a.location.slot = slot := by
  have h : slot ∈ (slots added).map id ↔ slot ∈ (added.map (·.location.slot)).map id ∧ slot ∉ [] :=
    Diff.mem_map_firstPer_iff [] _ slot
  rw [List.map_id, List.map_id, List.mem_map] at h
  exact h.trans (and_iff_left List.not_mem_nil)

/-- The slots of sorted bytes ascend. -/
theorem pairwise_slots (h : added.Pairwise fun a b => a.location.le b.location = true) :
    (slots added).Pairwise fun a b => a ≤ b := by
  refine List.Pairwise.sublist (Diff.firstPer_sublist [] _) (List.pairwise_map.mpr ?_)
  refine h.imp fun hab => ?_
  rw [Location.le_iff] at hab
  omega

/-- What is left of ascending slots, found in any order and sorted, is what is left in order. -/
theorem mergeSort_filter {xs ys : List Int} (h : xs.Perm ys) (hys : ys.Pairwise fun a b => a ≤ b)
    (p : Int → Bool) : (xs.filter p).mergeSort = ys.filter p := by
  have hperm : (xs.filter p).mergeSort.Perm (ys.filter p) :=
    (List.mergeSort_perm _ _).trans (h.filter p)
  have hsorted : (xs.filter p).mergeSort.Pairwise fun a b => a ≤ b := by
    refine (List.pairwise_mergeSort (fun a b c hab hbc => ?_) (fun a b => ?_) _).imp
      of_decide_eq_true
    · exact decide_eq_true (Int.le_trans (of_decide_eq_true hab) (of_decide_eq_true hbc))
    · simpa using Int.le_total a b
  exact hperm.eq_of_pairwise (fun a b _ _ => Int.le_antisymm) hsorted (hys.filter p)

end Slots

/-! ### One slot after another -/

section Single
variable (read : Text → Int → Journal ChainEvent ReadFault Bytes) (address : Text)

/-- What a failed read leaves in the answer, besides the request, is its fault. -/
theorem readOne_spec (slot : Int) :
    (readOne read address slot).result = .ok (slot, (read address slot).result) ∧
      requested (readOne read address slot).notes = [slot] := by
  unfold readOne
  rw [Journal.result_bind_ok _ (Journal.result_note _),
    Journal.result_bind_ok _ (Journal.result_attempt _),
    Journal.notes_bind_ok _ (Journal.result_note _),
    Journal.notes_bind_ok _ (Journal.result_attempt _), requested_append, requested_append,
    Journal.notes_attempt, Journal.notes_mapNotes, Journal.result_mapNotes, requested_chain]
  cases (read address slot).result with
  | ok word => exact ⟨rfl, rfl⟩
  | error fault => exact ⟨rfl, rfl⟩

theorem mapM_readOne (slots : List Int) :
    (slots.mapM (readOne read address)).result =
        .ok (slots.map fun slot => (slot, (read address slot).result)) ∧
      requested (slots.mapM (readOne read address)).notes = slots := by
  have hone (slot : Int) := readOne_spec read address slot
  constructor
  · rw [Journal.result_mapM, mapM_congr fun slot _ => (hone slot).1]
    exact List.mapM_pure
  · rw [Journal.notes_mapM fun slot _ => ⟨_, (hone slot).1⟩, requested, List.flatMap_assoc]
    exact (List.flatMap_congr fun slot _ => (hone slot).2).trans (List.flatMap_singleton' slots)

end Single

/-! ### What a chain holds -/

/-- What there is to read in slots of a chain: the words of those that it holds, and the others. -/
def Reading.ofChain (chain : Int → Option Bytes) (slots : List Int) : Reading where
  words := slots.filterMap fun slot => (chain slot).map fun word => (slot, word)
  failed := slots.filter fun slot => (chain slot).isNone

theorem lookup_ofChain (chain : Int → Option Bytes) (slots : List Int) (slot : Int) :
    (Reading.ofChain chain slots).words.lookup slot = if slot ∈ slots then chain slot else none := by
  show (slots.filterMap _).lookup slot = _
  induction slots with
  | nil => rfl
  | cons first rest ih =>
    rw [List.filterMap_cons]
    by_cases hslot : slot = first
    · subst hslot
      rw [if_pos List.mem_cons_self]
      cases h : chain slot with
      | none => rw [Option.map_none, ih, h, ite_self]
      | some word => rw [Option.map_some, List.lookup_cons_self]
    · have hmem : slot ∈ first :: rest ↔ slot ∈ rest := List.mem_cons.trans (or_iff_right hslot)
      rw [if_congr hmem rfl rfl, ← ih]
      cases chain first with
      | none => rfl
      | some word => rw [Option.map_some, List.lookup_cons, beq_eq_false_iff_ne.mpr hslot]

/-- Where a chain has whole words only, no others are read. -/
theorem length_of_lookup {chain : Int → Option Bytes} {slots : List Int}
    (hchain : ∀ slot word, chain slot = some word → word.length = wordSize) (slot : Int)
    (word : Bytes) (h : (Reading.ofChain chain slots).words.lookup slot = some word) :
    word.length = wordSize := by
  rw [lookup_ofChain, Option.ite_none_right_eq_some] at h
  exact hchain slot word h.2

/-- The word that a reader of single slots finds in a slot. -/
def wordAt (read : Text → Int → Journal ChainEvent ReadFault Bytes) (address : Text)
    (slot : Int) : Option Bytes :=
  (read address slot).result.toOption

theorem ofAnswers_map (read : Text → Int → Journal ChainEvent ReadFault Bytes)
    (address : Text) (slots : List Int) :
    Reading.ofAnswers (slots.map fun slot => (slot, (read address slot).result)) =
      .ofChain (wordAt read address) slots := by
  unfold Reading.ofAnswers Reading.ofChain
  rw [List.filterMap_map, List.filterMap_map, ← List.filterMap_eq_filter]
  rfl

/-! ### The ways of reading -/

/-- Every word that a reader has found is whole, those that it hands over in a failure included. -/
def WordsFit : Reader → Prop
  | .single read => ∀ address slot word, (read address slot).result = .ok word →
      word.length = wordSize
  | .batch readMany => ∀ address slots slot word,
      (Reading.ofBatch slots (readMany address slots).result).words.lookup slot = some word →
        word.length = wordSize

theorem readInTurn_spec (read : Text → Int → Journal ChainEvent ReadFault Bytes)
    (address : Text) (slots : List Int) :
    (readInTurn read address slots).result = .ok (.ofChain (wordAt read address) slots) ∧
      requested (readInTurn read address slots).notes = slots := by
  obtain ⟨hresult, hrequested⟩ := mapM_readOne read address slots
  unfold readInTurn
  constructor
  · rw [Journal.result_bind_ok _ hresult, ofAnswers_map]
    rfl
  · rw [Journal.notes_bind_pure, hrequested]

theorem readAbreast_spec (read : Text → Int → Journal ChainEvent ReadFault Bytes)
    (completion : List Int → List Int) (address : Text) (slots : List Int) :
    (readAbreast read completion address slots).result =
        .ok ⟨(Reading.ofChain (wordAt read address) (completion slots)).words,
          ((completion slots).filter fun slot => (wordAt read address slot).isNone).mergeSort⟩ ∧
      requested (readAbreast read completion address slots).notes = completion slots := by
  obtain ⟨hresult, hrequested⟩ := mapM_readOne
    (fun address slot => (read address slot).mapNotes ChainEvent.inWorker) address (completion slots)
  unfold readAbreast
  constructor
  · simp only [Journal.result_mapNotes] at hresult
    rw [Journal.result_bind_ok _ hresult, ofAnswers_map]
    rfl
  · rw [Journal.notes_bind_pure, hrequested]

theorem readAtOnce_spec
    (readMany : Text → List Int → Journal ChainEvent ReadFault (List (Int × Bytes)))
    (address : Text) (slots : List Int) :
    (readAtOnce readMany address slots).result =
        .ok (.ofBatch slots (readMany address slots).result) ∧
      requested (readAtOnce readMany address slots).notes = slots := by
  unfold readAtOnce
  constructor
  · rw [Journal.result_bind_ok _ (Journal.result_note _),
      Journal.result_bind_ok _ (Journal.result_attempt _)]
    rfl
  · rw [Journal.notes_bind_ok _ (Journal.result_note _), Journal.notes_bind_pure, requested_append,
      Journal.notes_note, requested_asked, Journal.notes_attempt, Journal.notes_mapNotes,
      requested_chain, List.append_nil]

/-- Every slot is asked for once, whichever way it is read. -/
theorem requested_readAll (reader : Reader) (workers : Workers) (address : Text)
    (slots : List Int) : (requested (readAll reader workers address slots).notes).Perm slots := by
  unfold readAll
  cases reader with
  | batch readMany => exact .of_eq (readAtOnce_spec readMany address slots).2
  | single read =>
    dsimp only
    split
    · rw [(readAbreast_spec read workers.completion address slots).2]
      exact workers.completion_perm slots
    · exact .of_eq (readInTurn_spec read address slots).2

/-- Reading comes to its end with any reader, and brings in whole words where the reader has no
others. -/
theorem exists_readAll (reader : Reader) (workers : Workers) (address : Text)
    (slots : List Int) :
    ∃ reading, (readAll reader workers address slots).result = .ok reading ∧
      (WordsFit reader → ∀ slot word, reading.words.lookup slot = some word →
        word.length = wordSize) := by
  unfold readAll
  cases reader with
  | batch readMany =>
    exact ⟨_, (readAtOnce_spec readMany address slots).1, fun hfit => hfit address slots⟩
  | single read =>
    have hwhole (hfit : WordsFit (.single read)) (slot : Int) (word : Bytes)
        (h : wordAt read address slot = some word) : word.length = wordSize :=
      hfit address slot word (toOption_eq_some_iff.mp h)
    dsimp only
    split
    · exact ⟨_, (readAbreast_spec read workers.completion address slots).1,
        fun hfit => length_of_lookup (hwhole hfit)⟩
    · exact ⟨_, (readInTurn_spec read address slots).1,
        fun hfit => length_of_lookup (hwhole hfit)⟩

/-! ### Judging what was read -/

section Judging
variable {sorted : List Added} {reading reading' : Reading}

/-- Only the words of the bytes' own slots are looked at. -/
theorem judge_congr (hwords : ∀ a ∈ sorted,
      reading.words.lookup a.location.slot = reading'.words.lookup a.location.slot)
    (hfailed : reading.failed = reading'.failed) : judge sorted reading = judge sorted reading' := by
  have hinspect : ∀ a ∈ sorted, inspect reading.words a = inspect reading'.words a := by
    intro a ha
    unfold inspect
    rw [hwords a ha]
  unfold judge
  rw [mapM_congr hinspect, hfailed]

theorem exists_inspect (words : List (Int × Bytes)) {a : Added}
    (hoffset : 0 ≤ a.location.offset ∧ a.location.offset < wordSize)
    (hfit : ∀ word, words.lookup a.location.slot = some word → word.length = wordSize) :
    ∃ d, inspect words a = .ok d := by
  unfold inspect
  split
  · exact ⟨none, rfl⟩
  · next word hword =>
    obtain ⟨b, hb⟩ := Word.exists_byteAt (hfit word hword) hoffset
    simp only [hb]
    split
    · exact ⟨_, rfl⟩
    · exact ⟨_, rfl⟩

/-- With whole words there are always differences to tell, and the only fault is that some slots
were not read. -/
theorem exists_judge (hoffsets : ∀ a ∈ sorted, 0 ≤ a.location.offset ∧ a.location.offset < wordSize)
    (hfit : ∀ slot word, reading.words.lookup slot = some word → word.length = wordSize) :
    ∃ diffs, judge sorted reading = .ok diffs ∨
      ∃ fault, judge sorted reading = .error (.unread fault diffs) := by
  obtain ⟨found, hfound⟩ := exists_mapM fun a ha =>
    exists_inspect reading.words (hoffsets a ha) fun word => hfit _ word
  refine ⟨Diff.unique true (found.filterMap id), ?_⟩
  unfold judge
  rw [hfound]
  cases reading.failed with
  | nil => exact .inl rfl
  | cons first rest => exact .inr ⟨_, rfl⟩

end Judging

/-! ### The check as a whole -/

theorem check_nil (address : Option Text) (reader : Option Reader) (workers : Workers) :
    check [] address reader workers = pure [] := by
  have hsort : Location.sort location ([] : List Added) = [] :=
    Location.sort_of_pairwise location .nil
  unfold check
  cases address with
  | none => rfl
  | some address =>
    cases reader with
    | none => rfl
    | some reader => simp only [hsort, List.isEmpty_nil, Bool.or_true, if_true]

/-- With bytes to check and somewhere to look, the words are read and judged. -/
theorem check_of_readAll {added : List Added} (hadded : added ≠ []) {address : Text}
    (haddress : address ≠ []) {reader : Reader} {workers : Workers} {reading : Reading}
    (h : (readAll reader workers address (slots (Location.sort location added))).result =
      .ok reading) :
    (check added (some address) (some reader) workers).result =
        judge (Location.sort location added) reading ∧
      requested (check added (some address) (some reader) workers).notes =
        requested (readAll reader workers address
          (slots (Location.sort location added))).notes := by
  have hsorted : (Location.sort location added).isEmpty = false := by
    rw [List.isEmpty_eq_false_iff]
    intro hnil
    exact hadded (hnil ▸ Location.sort_perm location added).symm.eq_nil
  have hwritten : address.isEmpty = false := by
    simpa using haddress
  unfold check
  simp only [hsorted, hwritten, Bool.or_self, Bool.false_eq_true, if_false]
  constructor
  · rw [Journal.result_bind_ok _ (Journal.result_note _), Journal.result_bind_ok _ h]
    rfl
  · rw [Journal.notes_bind_ok _ (Journal.result_note _), Journal.notes_bind_ok _ h,
      requested_append, requested_append, Journal.notes_note, requested_logged, List.nil_append,
      Journal.notes_ofExcept]
    exact List.append_nil _

/-- Added bytes are judged by what was read of them, where anything is read at all. -/
theorem check_eq_judge (added : List Added) (address : Option Text) (reader : Option Reader)
    (workers : Workers) : (check added address reader workers).result = .ok [] ∨
      ∃ reading, (check added address reader workers).result =
        judge (Location.sort location added) reading := by
  by_cases hadded : added = []
  · subst hadded
    rw [check_nil]
    exact .inl rfl
  · by_cases hoff : address = none ∨ address = some [] ∨ reader = none
    · rw [check_unasked added hoff]
      exact .inl rfl
    · rw [not_or, not_or] at hoff
      obtain ⟨hsome, hwritten, hreader⟩ := hoff
      obtain ⟨address, rfl⟩ := Option.ne_none_iff_exists'.mp hsome
      obtain ⟨reader, rfl⟩ := Option.ne_none_iff_exists'.mp hreader
      obtain ⟨reading, hreading, -⟩ := exists_readAll reader workers address
        (slots (Location.sort location added))
      exact .inr ⟨reading,
        (check_of_readAll hadded (fun h => hwritten (h ▸ rfl)) hreading).1⟩

section Check
variable {added : List Added} {address : Text}

/-- Every slot of the bytes is asked for once, and no other. -/
theorem requested_check (added : List Added) (haddress : address ≠ []) (reader : Reader)
    (workers : Workers) :
    (requested (check added (some address) (some reader) workers).notes).Nodup ∧
      ∀ slot, slot ∈ requested (check added (some address) (some reader) workers).notes ↔
        ∃ a ∈ added, a.location.slot = slot := by
  by_cases hadded : added = []
  · subst hadded
    rw [check_nil]
    exact ⟨.nil, fun slot => ⟨nofun, fun ⟨_, h, _⟩ => nomatch h⟩⟩
  · obtain ⟨reading, hreading, -⟩ := exists_readAll reader workers address
      (slots (Location.sort location added))
    have hperm := requested_readAll reader workers address (slots (Location.sort location added))
    rw [(check_of_readAll hadded haddress hreading).2]
    refine ⟨hperm.nodup_iff.mpr (nodup_slots _), fun slot => ?_⟩
    rw [hperm.mem_iff, mem_slots_iff]
    exact exists_congr fun a => and_congr_left fun _ => (Location.sort_perm location added).mem_iff

/-- With whole words the check finds what there is, or tells which slots it could not read. -/
theorem exists_found (hoffsets : ∀ a ∈ added, 0 ≤ a.location.offset ∧ a.location.offset < wordSize)
    (haddress : address ≠ []) {reader : Reader} (hfit : WordsFit reader) (workers : Workers) :
    ∃ diffs, (check added (some address) (some reader) workers).result = .ok diffs ∨
      ∃ fault, (check added (some address) (some reader) workers).result =
        .error (.unread fault diffs) := by
  by_cases hadded : added = []
  · subst hadded
    exact ⟨[], .inl (congrArg Journal.result (check_nil (some address) (some reader) workers))⟩
  · obtain ⟨reading, hreading, hwhole⟩ := exists_readAll reader workers address
      (slots (Location.sort location added))
    rw [(check_of_readAll hadded haddress hreading).1]
    refine exists_judge (fun a ha => hoffsets a ?_) (hwhole hfit)
    exact (Location.sort_perm location added).mem_iff.mp ha

/-- The order in which the bytes are given does not matter. -/
theorem check_eq_of_perm {added' : List Added} (h : added.Perm added')
    (hd : (added.map location).Nodup) (address : Option Text) (reader : Option Reader)
    (workers : Workers) : check added address reader workers = check added' address reader workers := by
  unfold check
  rw [Location.sort_eq_of_perm location h hd]

end Check

end UpgradeSafety.Added
