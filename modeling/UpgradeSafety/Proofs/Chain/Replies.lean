import UpgradeSafety.Chain.Batch
import UpgradeSafety.Proofs.Chain.Reading
import UpgradeSafety.Proofs.Json.Numbers
import UpgradeSafety.Proofs.Number.Denotation

/-! What a batch reader makes of an answer. Each distinct slot has one request, numbered in the order
in which the slots were met first (`BatchNode.FirstMet`), and the request names the slot in
hexadecimal (`BatchNode.Asks`). Where the replies are told apart by their numbers, at most one of
them has the number of a slot, so it does not matter where it stands (`BatchNode.replyTo_of_perm`).
The slots whose replies have words are read and the others fail
(`BatchNode.readMany_matches_replies`). -/
namespace UpgradeSafety.BatchNode
open Added (Reading)

/-! ### Requests -/

/-- The distinct ones of some slots, in the order in which they were met first. -/
structure FirstMet (slots asked : List Int) : Prop where
  mem_iff : ∀ slot, slot ∈ asked ↔ slot ∈ slots
  ordered : asked.Pairwise fun a b => slots.idxOf a < slots.idxOf b

section FirstMet
variable {slots asked asked' : List Int}

theorem FirstMet.nodup (h : FirstMet slots asked) : asked.Nodup :=
  h.ordered.imp fun {a b} hlt heq => by
    subst heq
    exact Nat.lt_irrefl _ hlt

/-- There is one such order. -/
theorem FirstMet.unique (h : FirstMet slots asked) (h' : FirstMet slots asked') : asked = asked' := by
  have hperm : asked.Perm asked' := by
    refine (List.perm_ext_iff_of_nodup h.nodup h'.nodup).mpr fun slot => ?_
    rw [h.mem_iff, h'.mem_iff]
  exact hperm.eq_of_pairwise (fun a b _ _ hab hba => absurd hab (Nat.lt_asymm hba)) h.ordered
    h'.ordered

theorem firstMet_eraseDups (slots : List Int) : FirstMet slots slots.eraseDups := by
  refine ⟨fun slot => List.mem_eraseDups, ?_⟩
  induction slots using List.reverseRecOn with
  | nil => exact .nil
  | append_singleton slots last ih =>
    have hbefore : slots.eraseDups.Pairwise fun a b =>
        (slots ++ [last]).idxOf a < (slots ++ [last]).idxOf b := by
      refine ih.imp_of_mem fun ha hb hlt => ?_
      rwa [List.idxOf_append_of_mem (List.mem_eraseDups.mp ha),
        List.idxOf_append_of_mem (List.mem_eraseDups.mp hb)]
    rw [List.eraseDups_append]
    -- a slot that has been met adds nothing, and any other comes after those that have been met
    by_cases hmem : last ∈ slots
    · simpa [List.removeAll, hmem] using hbefore
    · have hlast : ([last].removeAll slots).eraseDups = [last] := by
        simp [List.removeAll, hmem, List.eraseDups_cons]
      rw [hlast, List.pairwise_append]
      refine ⟨hbefore, List.pairwise_singleton _ _, fun a ha b hb => ?_⟩
      obtain rfl := List.mem_singleton.mp hb
      have ha' := List.mem_eraseDups.mp ha
      rw [List.idxOf_append_of_mem ha', List.idxOf_append_of_notMem hmem]
      exact Nat.lt_of_lt_of_le (List.idxOf_lt_length_of_mem ha') (Nat.le_add_right _ _)

end FirstMet

/-- A request for a slot under a number: it asks for the word that an address has there, and the
number that it writes for the slot is the slot. -/
def Asks (n : BatchNode) (address : Text) (slot : Int) (number : Nat) (request : Value) : Prop :=
  ∃ hex, Numeral.read? hex = some slot ∧ request = .record [
    ("jsonrpc", .text "2.0"),
    ("method", .text "eth_getStorageAt"),
    ("params", .list [.text address, .text hex, n.block]),
    ("id", .int number)]

theorem asks_request (n : BatchNode) (address : Text) {slot : Int} (h : 0 ≤ slot) (number : Nat) :
    n.Asks address slot number (n.request address slot number) :=
  ⟨Hex.ofInt slot, Numeral.read?_ofInt h, rfl⟩

/-- What was posted. -/
def posts (events : List ChainEvent) : List Value :=
  events.filterMap fun
    | .posted body => some body
    | _ => none

theorem posts_append (xs ys : List ChainEvent) : posts (xs ++ ys) = posts xs ++ posts ys :=
  List.filterMap_append

/-- Steps that come to answers without posting come to theirs together. -/
theorem mapM_quiet {ε α β : Type} {f : α → Journal ChainEvent ε β} {g : α → β} {xs : List α}
    (h : ∀ x ∈ xs, (f x).result = .ok (g x) ∧ posts (f x).notes = []) :
    (xs.mapM f).result = .ok (xs.map g) ∧ posts (xs.mapM f).notes = [] := by
  constructor
  · rw [Journal.result_mapM, mapM_congr fun x hx => (h x hx).1]
    exact List.mapM_pure
  · rw [Journal.notes_mapM fun x hx => ⟨_, (h x hx).1⟩, posts, List.filterMap_flatMap]
    exact List.flatMap_eq_nil_iff.mpr fun x hx => (h x hx).2

/-! ### Replies -/

/-- Items are told apart by their numbers, which are all values that a table can have as keys. -/
structure Numbered (items : List Value) : Prop where
  isKey : ∀ item ∈ items, (item.field "id").isKey = true
  apart : items.Pairwise fun a b => (a.field "id").same (b.field "id") = false

/-- Some item with the number holds the word. -/
def Grants (items : List Value) (number : Nat) (word : Bytes) : Prop :=
  ∃ item ∈ items, (item.field "id").same (.int number) = true ∧
    ∃ s, item.field "result" = .text s ∧ Word.ofText s = .ok word

/-- The word that a reply holds. -/
def wordIn? (reply : Value) : Option Bytes :=
  match reply.field "result" with
  | .text s => (Word.ofText s).toOption
  | _ => none

theorem toOption_word? (reply : Value) : (word? reply).toOption = wordIn? reply := by
  unfold word? wordIn?
  cases reply.field "result" with
  | text s =>
    dsimp only
    cases Word.ofText s with
    | ok word => rfl
    | error fault => rfl
  | _ => rfl

/-- The log can say what is wrong with a reply that it can show. -/
theorem exists_complaint (place : Text) {reply : Value} (h : reply.Short)
    (fault : Option WordFault) : ∃ text, complaint place reply fault = .ok text := by
  cases fault with
  | some fault => exact ⟨_, rfl⟩
  | none =>
    obtain ⟨result, hresult⟩ := (Value.exists_describe_iff _).mpr (h.field "result")
    obtain ⟨error, herror⟩ := Value.exists_display (h.field "error")
    exact ⟨_, by rw [complaint, hresult, herror]; rfl⟩

/-- What a body holds can be shown. -/
theorem short_of_bodyOf {outcome : PostOutcome} {v : Value} (h : bodyOf outcome = .ok v) :
    v.Short := by
  unfold bodyOf at h
  split at h
  · cases h
  · split at h
    · next body w hread => exact Except.ok.inj h ▸ Json.short_of_read? hread
    · cases h

theorem short_of_objects? {v : Value} {items : List Value} (hv : v.Short)
    (h : objects? v = some items) : ∀ item ∈ items, item.Short := by
  unfold objects? at h
  split at h
  · obtain rfl := Option.some.inj h
    exact List.forall_mem_singleton.mpr hv
  · obtain rfl := Option.some.inj h
    exact fun item hitem => Value.shortItems_iff.mp hv item (List.mem_of_mem_filter hitem)
  · obtain rfl := Option.some.inj h
    exact nofun
  · cases h

theorem short_of_replies {v : Value} {items : List Value} (hv : v.Short)
    (h : replies v = .ok items) : ∀ item ∈ items, item.Short := by
  unfold replies at h
  split at h
  · cases h
  · next found hfound =>
    split at h
    · exact Except.ok.inj h ▸ short_of_objects? hv hfound
    · cases h

theorem short_replyTo {items : List Value} (h : ∀ item ∈ items, item.Short) (number : Nat) :
    (replyTo items number).Short := by
  unfold replyTo
  cases hfound : items.reverse.find? fun item => (item.field "id").same (.int number) with
  | none => trivial
  | some item => exact h item (List.mem_reverse.mp (List.mem_of_find?_eq_some hfound))

theorem wordIn?_eq_some_iff {reply : Value} {word : Bytes} : wordIn? reply = some word ↔
    ∃ s, reply.field "result" = .text s ∧ Word.ofText s = .ok word := by
  unfold wordIn?
  split
  · next s hs =>
    rw [toOption_eq_some_iff, hs]
    exact ⟨fun h => ⟨s, rfl, h⟩, fun ⟨s', hs', h⟩ => Value.text.inj hs' ▸ h⟩
  · next hs => exact ⟨nofun, fun ⟨s, hs', _⟩ => absurd hs' (hs s)⟩

section Numbered
variable {items items' : List Value}

/-- The items with a number. -/
def withNumber (items : List Value) (number : Nat) : List Value :=
  items.filter fun item => (item.field "id").same (.int number)

/-- The last item with a number counts, if there is one. -/
theorem replyTo_eq (items : List Value) (number : Nat) :
    replyTo items number = (withNumber items number).getLast?.getD (.record []) := by
  rw [replyTo, ← List.head?_filter, List.filter_reverse, List.head?_reverse]
  rfl

/-- Of items that are told apart one has the number, or none. -/
theorem Numbered.withNumber_cases (h : Numbered items) (number : Nat) :
    withNumber items number = [] ∨ ∃ item, withNumber items number = [item] := by
  have hapart := h.apart.filter fun item => (item.field "id").same (.int number)
  have hnumber : ∀ item ∈ withNumber items number, (item.field "id").same (.int number) = true :=
    fun item hitem => (List.mem_filter.mp hitem).2
  change (withNumber items number).Pairwise _ at hapart
  match hitems : withNumber items number with
  | [] => exact .inl rfl
  | [item] => exact .inr ⟨item, rfl⟩
  | a :: b :: rest =>
    -- two items with the number would be the same as it, and so as each other
    rw [hitems] at hapart hnumber
    have hdiffer := List.rel_of_pairwise_cons hapart (List.mem_cons_self (a := b))
    have hsame := Value.same_of_same_int (hnumber a List.mem_cons_self)
      (hnumber b (List.mem_cons_of_mem a List.mem_cons_self))
    rw [hsame] at hdiffer
    cases hdiffer

/-- A word is taken from the reply with the number of its slot. -/
theorem Numbered.wordIn?_replyTo (h : Numbered items) (number : Nat) (word : Bytes) :
    wordIn? (replyTo items number) = some word ↔ Grants items number word := by
  have hgrants : Grants items number word ↔
      ∃ item ∈ withNumber items number, wordIn? item = some word := by
    simp only [Grants, withNumber, List.mem_filter, wordIn?_eq_some_iff, and_assoc]
  rw [hgrants, replyTo_eq]
  rcases h.withNumber_cases number with hnone | ⟨item, hone⟩
  · rw [hnone]
    exact ⟨nofun, nofun⟩
  · rw [hone]
    simp

/-- Where the replies stand in an answer does not matter. -/
theorem Numbered.replyTo_of_perm (h : Numbered items) (hperm : items'.Perm items) (number : Nat) :
    replyTo items' number = replyTo items number := by
  have hfilter : (withNumber items' number).Perm (withNumber items number) := hperm.filter _
  rw [replyTo_eq, replyTo_eq]
  rcases h.withNumber_cases number with hnone | ⟨item, hone⟩
  · rw [hnone] at hfilter ⊢
    rw [hfilter.eq_nil]
  · rw [hone] at hfilter ⊢
    rw [List.perm_singleton.mp hfilter]

/-- Nor does it matter for what is made of the answer. -/
theorem Numbered.conclude_of_perm (h : Numbered items) (hperm : items'.Perm items)
    (address : Text) (slots : List Int) :
    conclude address slots items' = conclude address slots items := by
  have hreply : replyTo items' = replyTo items := funext (h.replyTo_of_perm hperm)
  unfold conclude collect
  rw [hreply]

end Numbered

/-! ### Words -/

section Words
variable {asked : List Int}

/-- The slots of requests with their numbers. -/
theorem zipIdx_of_nodup (h : asked.Nodup) :
    asked.zipIdx = asked.map fun slot => (slot, asked.idxOf slot) := by
  refine List.ext_getElem (by simp) fun i hi hi' => ?_
  have hlt : i < asked.length := by simpa using hi
  simp [h.idxOf_getElem i hlt]

/-- What a node has in the slots that it was asked for, as far as its replies tell. -/
def granted (asked : List Int) (items : List Value) (slot : Int) : Option Bytes :=
  wordIn? (replyTo items (asked.idxOf slot))

/-- The replies are looked up one after another, without posting anything more. -/
theorem collect_spec (address : Text) (hasked : asked.Nodup) {items : List Value}
    (hshort : ∀ item ∈ items, item.Short) :
    (collect address asked items).result =
        .ok (asked.map fun slot => (slot, granted asked items slot)) ∧
      posts (collect address asked items).notes = [] := by
  have hwords : (asked.map fun slot => (slot, granted asked items slot)) =
      asked.zipIdx.map fun entry => (entry.1, wordIn? (replyTo items entry.2)) := by
    rw [zipIdx_of_nodup hasked, List.map_map]
    rfl
  rw [hwords]
  refine mapM_quiet fun entry _ => ?_
  obtain ⟨slot, number⟩ := entry
  rw [← toOption_word?]
  dsimp only
  cases word? (replyTo items number) with
  | ok word => exact ⟨rfl, rfl⟩
  | error fault =>
    obtain ⟨text, htext⟩ := exists_complaint (address ++ "[" ++ Hex.ofInt slot ++ "]")
      (short_replyTo hshort number) fault
    dsimp only
    rw [htext]
    exact ⟨rfl, rfl⟩

/-- The words of the replies are the answer, unless some slot has none. -/
theorem conclude_spec (address : Text) (hasked : asked.Nodup) {items : List Value}
    (hshort : ∀ item ∈ items, item.Short) :
    (conclude address asked items).result =
      (match (Reading.ofChain (granted asked items) asked).failed with
        | [] => .ok (Reading.ofChain (granted asked items) asked).words
        | first :: rest => .error (.unread ⟨toString (first :: rest).length ++ " 个存储槽读取失败",
            some first, first :: rest, (Reading.ofChain (granted asked items) asked).words⟩)) ∧
      posts (conclude address asked items).notes = [] := by
  obtain ⟨hresult, hposts⟩ := collect_spec address hasked hshort
  have hwords : (asked.filterMap fun slot => (granted asked items slot).map fun word => (slot, word)) =
      (Reading.ofChain (granted asked items) asked).words := rfl
  have hfailed : (asked.filterMap fun slot =>
      if (granted asked items slot).isNone then some slot else none) =
        (Reading.ofChain (granted asked items) asked).failed := by
    rw [Reading.ofChain, ← List.filterMap_eq_filter]
    rfl
  unfold conclude
  rw [Journal.result_bind_ok _ hresult, Journal.notes_bind_ok _ hresult, posts_append, hposts]
  simp only [List.filterMap_map, Function.comp_def, hwords, hfailed]
  cases (Reading.ofChain (granted asked items) asked).failed with
  | nil => exact ⟨rfl, rfl⟩
  | cons first rest => exact ⟨rfl, rfl⟩

end Words

/-! ### The request as a whole -/

/-- What is posted for slots. -/
def post (n : BatchNode) (address : Text) (asked : List Int) : Value :=
  .record [("url", .text n.url), ("json", n.requests address asked), ("timeout", .int n.timeout)]

section ReadMany
variable {slots : List Int} {outcome : PostOutcome} {items : List Value}

/-- Some slots are posted, and then the answer decides. -/
theorem exists_readMany_eq (n : BatchNode) (address : Text) (hslots : slots ≠ [])
    (outcome : PostOutcome) : ∃ first rest, slots.eraseDups = first :: rest ∧
      n.readMany outcome address slots = (do
        .note (.posted (n.post address (first :: rest)))
        match bodyOf outcome with
        | .error text => do
          .note (.logged .error ("RPC批量请求失败: " ++ text))
          .fail (.unread ⟨"RPC批量请求失败: " ++ text, some first, first :: rest, []⟩)
        | .ok v => do conclude address (first :: rest) (← .ofExcept (replies v))) := by
  cases hasked : slots.eraseDups with
  | nil =>
    obtain ⟨slot, hslot⟩ := List.exists_mem_of_ne_nil slots hslots
    exact absurd (hasked ▸ List.mem_eraseDups.mpr hslot) List.not_mem_nil
  | cons first rest =>
    refine ⟨first, rest, rfl, ?_⟩
    unfold readMany
    rw [hasked]
    rfl

/-- The replies to what was posted are looked up. -/
theorem readMany_of_replies (n : BatchNode) (address : Text) (hslots : slots ≠ []) {v : Value}
    (hbody : bodyOf outcome = .ok v) (hitems : replies v = .ok items) :
    n.readMany outcome address slots = (do
      .note (.posted (n.post address slots.eraseDups))
      conclude address slots.eraseDups items) := by
  obtain ⟨first, rest, hasked, hread⟩ := exists_readMany_eq n address hslots outcome
  rw [hread, hasked, hbody]
  simp only [hitems]
  rfl

/-- Whatever comes of it, the slots are asked for in one request. -/
theorem posts_readMany (n : BatchNode) (address : Text) (hslots : slots ≠ [])
    (outcome : PostOutcome) :
    posts (n.readMany outcome address slots).notes = [n.post address slots.eraseDups] := by
  obtain ⟨first, rest, hasked, hread⟩ := exists_readMany_eq n address hslots outcome
  have hnodup := (firstMet_eraseDups slots).nodup
  rw [hasked] at hnodup ⊢
  rw [hread, Journal.notes_bind_ok _ (Journal.result_note _), posts_append]
  refine congrArg (_ :: ·) ?_
  cases hbody : bodyOf outcome with
  | error text => rfl
  | ok v =>
    dsimp only
    cases hitems : replies v with
    | error fault => rfl
    | ok items =>
      exact (conclude_spec address hnodup (short_of_replies (short_of_bodyOf hbody) hitems)).2

theorem replies_eq_ok {v : Value} (hv : objects? v = some items)
    (h : ∀ item ∈ items, (item.field "id").isKey = true) : replies v = .ok items := by
  rw [replies, hv]
  exact if_pos (List.all_eq_true.mpr h)

/-- **A batch of slots is posted as one request for each distinct slot, under its number in the order
of the slots, and whatever order the replies come in, a slot has the word of the reply with its
number. If all have one, these words are the answer; if not, the fault names the slots without one
in order, and has the words of the others.** -/
theorem readMany_matches_replies (n : BatchNode) (address : Text) (hslots : slots ≠ [])
    (hnatural : ∀ slot ∈ slots, 0 ≤ slot) : ∃ asked, FirstMet slots asked ∧
      (∃ requests, List.Forall₂ (fun entry request => n.Asks address entry.1 entry.2 request)
          asked.zipIdx requests ∧
        ∀ outcome, posts (n.readMany outcome address slots).notes = [.record [
          ("url", .text n.url), ("json", .list requests), ("timeout", .int n.timeout)]]) ∧
      ∀ outcome v items, bodyOf outcome = .ok v → objects? v = some items → Numbered items →
        (∃ chain, (∀ i slot, asked[i]? = some slot →
            ∀ word, chain slot = some word ↔ Grants items i word) ∧
          (n.readMany outcome address slots).result =
            match (Reading.ofChain chain asked).failed with
            | [] => .ok (Reading.ofChain chain asked).words
            | first :: rest => .error (.unread ⟨toString (first :: rest).length ++ " 个存储槽读取失败",
                some first, first :: rest, (Reading.ofChain chain asked).words⟩)) ∧
        ∀ outcome' v' items', bodyOf outcome' = .ok v' → objects? v' = some items' →
          items'.Perm items →
            n.readMany outcome' address slots = n.readMany outcome address slots := by
  have hmet := firstMet_eraseDups slots
  refine ⟨slots.eraseDups, hmet, ⟨slots.eraseDups.zipIdx.map fun entry : Int × Nat =>
    n.request address entry.1 entry.2, ?_, posts_readMany n address hslots⟩, ?_⟩
  · rw [List.forall₂_map_right_iff, List.forall₂_same]
    intro entry hentry
    exact asks_request n address (hnatural _ ((hmet.mem_iff _).mp (List.fst_mem_of_mem_zipIdx hentry)))
      entry.2
  · intro outcome v items hbody hv hnumbered
    have hread := readMany_of_replies n address hslots hbody (replies_eq_ok hv hnumbered.isKey)
    refine ⟨⟨granted slots.eraseDups items, fun i slot hslot word => ?_, ?_⟩, ?_⟩
    · obtain ⟨hi, rfl⟩ := List.getElem?_eq_some_iff.mp hslot
      rw [granted, hmet.nodup.idxOf_getElem i hi]
      exact hnumbered.wordIn?_replyTo i word
    · rw [hread, Journal.result_bind_ok _ (Journal.result_note _)]
      exact (conclude_spec address hmet.nodup (short_of_objects? (short_of_bodyOf hbody) hv)).1
    · intro outcome' v' items' hbody' hv' hperm
      have hkeys : ∀ item ∈ items', (item.field "id").isKey = true := fun item hitem =>
        hnumbered.isKey item (hperm.mem_iff.mp hitem)
      rw [hread, readMany_of_replies n address hslots hbody' (replies_eq_ok hv' hkeys),
        hnumbered.conclude_of_perm hperm]

end ReadMany

/-- A node of the machine itself. -/
def localNode : BatchNode := ⟨"localhost", .text "latest", 30⟩

/-- The answer of a node that holds a seven in one slot and is too busy for another. -/
def busyBody : Text :=
  "[\x7b\"id\": 1.0, \"result\": \"0x7\"\x7d, \x7b\"id\": 0, \"error\": \"busy\"\x7d]"

def busyItems : List Value :=
  [.record [("id", .real (.finite false (2 ^ 52) (-52))), ("result", .text "0x7")],
    .record [("id", .int 0), ("error", .text "busy")]]

/-- The slot that was met second has the word of the reply with its number, and the one that was met
first and again at the end has none. -/
theorem readMany_matches_replies_busy :
    ([5, 3, 5] : List Int) ≠ [] ∧ (∀ slot ∈ ([5, 3, 5] : List Int), 0 ≤ slot) ∧
      Numbered busyItems ∧ (localNode.readMany (.replied busyBody) "0x01" [5, 3, 5]).result =
        .error (.unread ⟨"1 个存储槽读取失败", some 5, [5], [(3, List.replicate 31 0 ++ [7])]⟩) := by
  have hslots : ([5, 3, 5] : List Int) ≠ [] := List.cons_ne_nil _ _
  have hnatural : ∀ slot ∈ ([5, 3, 5] : List Int), 0 ≤ slot := by decide
  have hbody : bodyOf (.replied busyBody) = .ok (.list busyItems) := by decide +kernel
  have hnumbered : Numbered busyItems := ⟨by decide, by decide⟩
  have hmet : FirstMet [5, 3, 5] [5, 3] := ⟨fun slot => by grind, by decide⟩
  obtain ⟨asked, hasked, -, hread⟩ := readMany_matches_replies localNode "0x01" hslots hnatural
  obtain rfl := hasked.unique hmet
  obtain ⟨⟨chain, hchain, hresult⟩, -⟩ := hread _ _ busyItems hbody rfl hnumbered
  have hfive : chain 5 = none := by
    refine Option.eq_none_iff_forall_ne_some.mpr fun word h => ?_
    obtain ⟨item, hitem, hid, s, hs, -⟩ := (hchain 0 5 rfl word).mp h
    rcases hitem with _ | ⟨_, _ | ⟨_, hitem⟩⟩
    · cases hid
    · cases hs
    · cases hitem
  have hthree : chain 3 = some (List.replicate 31 0 ++ [7]) :=
    (hchain 1 3 rfl _).mpr ⟨_, List.mem_cons_self, by decide, "0x7", rfl, rfl⟩
  have hreading : Reading.ofChain chain [5, 3] = ⟨[(3, List.replicate 31 0 ++ [7])], [5]⟩ := by
    simp [Reading.ofChain, hfive, hthree]
  refine ⟨hslots, hnatural, hnumbered, ?_⟩
  rw [hresult, hreading]
  rfl

end UpgradeSafety.BatchNode
