import UpgradeSafety.Proofs.Chain.Spelling

/-! What is known of a batch once it has ended. Every slot that was asked for is read or named as
failed, and none is both (`BatchNode.Accounts`), whatever comes of the request and whatever the
answer is, as long as the replies in it can be looked up (`BatchNode.readMany_accounts`). An answer
that is nothing to look through, and one with a reply under a number that is itself a list or a
record, end the batch with a fault that names no slot (`BatchNode.Defies`). -/
namespace UpgradeSafety.BatchNode
open Added (Reading)

/-- Why no reply can be looked up in an answer. -/
inductive Defies : Value → BatchFault → Prop where
  | null : Defies .null .notSequence
  | flag (b : Bool) : Defies (.bool b) .notSequence
  | whole (n : Int) : Defies (.int n) .notSequence
  | real (x : Binary64) : Defies (.real x) .notSequence
  | moment (written : Text) : Defies (.moment written) .notSequence
  /-- The answer itself is a reply with such a number. -/
  | alone {fields : List (Text × Value)}
      (h : ((Value.record fields).field "id").isKey = false) :
      Defies (.record fields) .numberNotKey
  /-- There is one among the items of the answer. -/
  | among {items : List Value} {fields : List (Text × Value)} (hitem : .record fields ∈ items)
      (h : ((Value.record fields).field "id").isKey = false) : Defies (.list items) .numberNotKey

/-- The slots that were asked for all have whole words, or some have failed and the others have. -/
inductive Accounts (asked : List Int) : Except BatchFault (List (Int × Bytes)) → Prop where
  | read {words : List (Int × Bytes)} (hslots : words.map Prod.fst = asked)
      (hwords : ∀ entry ∈ words, entry.2.length = 32) : Accounts asked (.ok words)
  | unread {fault : ReadFault} (hfailed : fault.failedSlots ≠ [])
      (hslots : (fault.failedSlots ++ fault.words.map Prod.fst).Perm asked)
      (hwords : ∀ entry ∈ fault.words, entry.2.length = 32) : Accounts asked (.error (.unread fault))

/-! ### Answers -/

section Answers
variable {v : Value} {fault : BatchFault} {items : List Value}

/-- Replies that are objects can be looked up unless one has a number that is no key. -/
theorem replies_eq_error_of_objects (hv : objects? v = some items) :
    replies v = .error fault ↔
      fault = .numberNotKey ∧ ∃ item ∈ items, (item.field "id").isKey = false := by
  rw [replies, hv]
  dsimp only
  split
  · next hall =>
    constructor
    · intro h
      cases h
    · rintro ⟨-, item, hitem, hkey⟩
      rw [List.all_eq_true.mp hall item hitem] at hkey
      cases hkey
  · next hall =>
    obtain ⟨item, hitem, hkey⟩ : ∃ item ∈ items, (item.field "id").isKey = false := by
      simpa using hall
    exact ⟨fun h => ⟨(Except.error.inj h).symm, item, hitem, hkey⟩, fun h => congrArg _ h.1.symm⟩

theorem replies_eq_error_iff : replies v = .error fault ↔ Defies v fault := by
  have hscalar (hv : objects? v = none) : replies v = .error fault ↔ fault = .notSequence := by
    rw [replies, hv]
    exact ⟨fun h => (Except.error.inj h).symm, fun h => congrArg _ h.symm⟩
  cases v with
  | null => exact (hscalar rfl).trans ⟨fun h => h ▸ .null, fun h => by cases h; rfl⟩
  | bool b => exact (hscalar rfl).trans ⟨fun h => h ▸ .flag b, fun h => by cases h; rfl⟩
  | int n => exact (hscalar rfl).trans ⟨fun h => h ▸ .whole n, fun h => by cases h; rfl⟩
  | real x => exact (hscalar rfl).trans ⟨fun h => h ▸ .real x, fun h => by cases h; rfl⟩
  | moment s => exact (hscalar rfl).trans ⟨fun h => h ▸ .moment s, fun h => by cases h; rfl⟩
  | text s =>
    constructor
    · intro h
      cases h
    · intro h
      cases h
  | list items =>
    rw [replies_eq_error_of_objects rfl]
    constructor
    · intro h
      obtain ⟨rfl, item, hitem, hkey⟩ := h
      obtain ⟨hitem, hrecord⟩ := List.mem_filter.mp hitem
      cases item with
      | record fields => exact .among hitem hkey
      | _ => cases hrecord
    · intro h
      cases h with
      | among hitem hkey => exact ⟨rfl, _, List.mem_filter.mpr ⟨hitem, rfl⟩, hkey⟩
  | record fields =>
    rw [replies_eq_error_of_objects rfl]
    constructor
    · intro h
      obtain ⟨rfl, item, hitem, hkey⟩ := h
      obtain rfl := List.mem_singleton.mp hitem
      exact .alone hkey
    · intro h
      cases h with
      | alone hkey => exact ⟨rfl, _, List.mem_singleton.mpr rfl, hkey⟩

end Answers

/-! ### Words and failed slots -/

section Words
variable {chain : Int → Option Bytes} {asked : List Int}

theorem slots_of_words (chain : Int → Option Bytes) (asked : List Int) :
    (Reading.ofChain chain asked).words.map Prod.fst =
      asked.filter fun slot => !(chain slot).isNone := by
  rw [Reading.ofChain, List.map_filterMap, ← List.filterMap_eq_filter]
  refine List.filterMap_congr fun slot _ => ?_
  cases h : chain slot <;> simp [h, Option.guard]

/-- What is read of a chain and what fails are the slots, each on one side. -/
theorem ofChain_perm (chain : Int → Option Bytes) (asked : List Int) :
    ((Reading.ofChain chain asked).failed ++ (Reading.ofChain chain asked).words.map Prod.fst).Perm
      asked := by
  rw [slots_of_words]
  exact List.filter_append_perm _ asked

/-- Where nothing fails, all is read. -/
theorem slots_of_words_eq_self (h : (Reading.ofChain chain asked).failed = []) :
    (Reading.ofChain chain asked).words.map Prod.fst = asked := by
  rw [slots_of_words, List.filter_eq_self]
  intro slot hslot
  simpa [Option.isSome_iff_ne_none] using List.filter_eq_nil_iff.mp h slot hslot

/-- Where the chain has whole words only, no others are read. -/
theorem length_of_mem_ofChain (hchain : ∀ slot word, chain slot = some word → word.length = wordSize)
    {entry : Int × Bytes} (h : entry ∈ (Reading.ofChain chain asked).words) :
    entry.2.length = wordSize := by
  obtain ⟨slot, -, hslot⟩ := List.mem_filterMap.mp h
  obtain ⟨word, hword, rfl⟩ := Option.map_eq_some_iff.mp hslot
  exact hchain slot word hword

theorem length_of_granted {items : List Value} {slot : Int} {word : Bytes}
    (h : granted asked items slot = some word) : word.length = wordSize := by
  obtain ⟨s, -, hword⟩ := wordIn?_eq_some_iff.mp h
  exact Word.length_ofAnswer (a := .value (.text s)) hword

/-- However many of the replies hold words, the slots are all accounted for. -/
theorem conclude_accounts (address : Text) (hasked : asked.Nodup) {items : List Value}
    (hshort : ∀ item ∈ items, item.Short) :
    Accounts asked (conclude address asked items).result := by
  have hwords : ∀ entry ∈ (Reading.ofChain (granted asked items) asked).words,
      entry.2.length = 32 := fun entry hentry =>
    length_of_mem_ofChain (fun _ _ => length_of_granted) hentry
  rw [(conclude_spec address hasked hshort).1]
  cases hfailed : (Reading.ofChain (granted asked items) asked).failed with
  | nil => exact .read (slots_of_words_eq_self hfailed) hwords
  | cons first rest =>
    have hperm := ofChain_perm (granted asked items) asked
    rw [hfailed] at hperm
    exact .unread (List.cons_ne_nil first rest) hperm hwords

end Words

/-! ### The batch -/

/-- **However a request for slots ends, the slots that were asked for have whole words or are named as
failed, each of them once, unless the answer is one in which no reply can be looked up.** -/
theorem readMany_accounts (n : BatchNode) (address : Text) {slots : List Int} (hslots : slots ≠ [])
    (outcome : PostOutcome) : ∃ asked, FirstMet slots asked ∧
      ((∀ v fault, bodyOf outcome = .ok v → ¬Defies v fault) →
        Accounts asked (n.readMany outcome address slots).result) ∧
      ∀ v fault, bodyOf outcome = .ok v → Defies v fault →
        (n.readMany outcome address slots).result = .error fault := by
  have hmet := firstMet_eraseDups slots
  obtain ⟨first, rest, hasked, hread⟩ := exists_readMany_eq n address hslots outcome
  rw [hasked] at hmet
  refine ⟨first :: rest, hmet, ?_⟩
  rw [hread, Journal.result_bind_ok _ (Journal.result_note _)]
  cases hbody : bodyOf outcome with
  | error text =>
    refine ⟨fun _ => ?_, nofun⟩
    exact .unread (List.cons_ne_nil first rest) (.of_eq (List.append_nil _))
      fun _ hentry => absurd hentry List.not_mem_nil
  | ok v =>
    dsimp only
    cases hreplies : replies v with
    | error fault =>
      have hdefies := replies_eq_error_iff.mp hreplies
      refine ⟨fun h => absurd hdefies (h v fault rfl), fun v' fault' hv' hdefies' => ?_⟩
      obtain rfl := Except.ok.inj hv'
      obtain rfl := Except.error.inj (hreplies.symm.trans (replies_eq_error_iff.mpr hdefies'))
      rfl
    | ok items =>
      refine ⟨fun _ => ?_, fun v' fault hv' hdefies => ?_⟩
      · rw [Journal.result_bind_ok _ (Journal.result_ofExcept _)]
        exact conclude_accounts address hmet.nodup (short_of_replies (short_of_bodyOf hbody) hreplies)
      · obtain rfl := Except.ok.inj hv'
        rw [replies_eq_error_iff.mpr hdefies] at hreplies
        cases hreplies

/-- An answer with much that is no reply in it, and a reply to the second request. -/
def mixedBody : Text := "[null, 7, \"x\", [0], \x7b\"id\": 1, \"result\": \"0x7\"\x7d]"

/-- One slot is read and the other named as failed. -/
theorem readMany_accounts_mixed : ([5, 3] : List Int) ≠ [] ∧
    Accounts [5, 3] (localNode.readMany (.replied mixedBody) "0x01" [5, 3]).result := by
  have hslots : ([5, 3] : List Int) ≠ [] := List.cons_ne_nil _ _
  have hmet : FirstMet [5, 3] [5, 3] := ⟨fun _ => Iff.rfl, by decide⟩
  have hbody : bodyOf (.replied mixedBody) = .ok (.list [.null, .int 7, .text "x", .list [.int 0],
      .record [("id", .int 1), ("result", .text "0x7")]]) := by decide +kernel
  obtain ⟨asked, hasked, haccounts, -⟩ := readMany_accounts localNode "0x01" hslots (.replied mixedBody)
  obtain rfl := hasked.unique hmet
  refine ⟨hslots, haccounts fun v fault hv hdefies => ?_⟩
  obtain rfl := Except.ok.inj (hbody.symm.trans hv)
  rw [← replies_eq_error_iff] at hdefies
  cases hdefies

/-- A node may answer with nothing at all; no slot is named then. -/
theorem null_ends_batch :
    (localNode.readMany (.replied "null") "0x01" [5]).result = .error .notSequence ∧
      ¬Accounts [5] (localNode.readMany (.replied "null") "0x01" [5]).result := by
  have hresult : (localNode.readMany (.replied "null") "0x01" [5]).result =
      .error .notSequence := by decide +kernel
  rw [hresult]
  refine ⟨rfl, fun h => ?_⟩
  cases h

end UpgradeSafety.BatchNode
