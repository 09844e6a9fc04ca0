import UpgradeSafety.Proofs.Chain.Attempts
import UpgradeSafety.Proofs.Chain.Replies
import UpgradeSafety.Proofs.Number.Spelling

/-! Words keep the number of the answer that they are made of. Hexadecimal digits, in any number up
to two for each byte of a word, and bytes up to a whole word become the one word that writes their
number (`Word.ofText_spec`, `Word.ofBytes_spec`); without a digit or a byte there is none. So a node
that answers a single call and one that replies to a batch are read alike, however the second spells
what the first returns (`Word.ofAnswer_keeps_number`). -/
namespace UpgradeSafety
open Numeral (IsDigit)

/-- A text writes hexadecimal digits, with `0x` in front or without. -/
def Hex.Writes (s : Text) (ds : List Nat) : Prop :=
  ∃ mark cs, s = .ofChars (mark ++ cs) ∧ (mark = [] ∨ mark = ['0', 'x'] ∨ mark = ['0', 'X']) ∧
    List.Forall₂ (IsDigit 16) cs ds

/-- The digits of bytes, two for each. -/
def Hex.digitsOf (bs : Bytes) : List Nat :=
  bs.flatMap fun b => [b.toNat / 16, b.toNat % 16]

/-- A text is another spelling of bytes: it has their digits or, where they fit into a word, no
more digits than a word, and those of the same number. -/
inductive Word.Respells (s : Text) (bs : Bytes) : Prop where
  | digits (h : Hex.Writes s (Hex.digitsOf bs))
  | number {ds : List Nat} (h : Hex.Writes s ds) (hds : 1 ≤ ds.length ∧ ds.length ≤ 64)
      (hbs : 1 ≤ bs.length ∧ bs.length ≤ wordSize)
      (hvalue : Nat.ofDigits 16 ds.reverse = Word.toNat bs)

/-- One of the calls is answered, and those before it have failed; if there are any, others can
follow. -/
def Node.Returns (lib : Libraries) (p : NodePolicy) (responses : Nat → Response) (a : Answer) :
    Prop :=
  ∃ i < p.attempts, responses i = .answered a ∧ (∀ j < i, ∃ text, responses j = .raised text) ∧
    (0 < i → Node.Retries lib p.attempts p.delay)

/-- The last reply with a number holds a text. -/
def BatchNode.Holds (items : List Value) (number : Nat) (s : Text) : Prop :=
  ∃ before reply after, items = before ++ reply :: after ∧
    (reply.field "id").same (.int number) = true ∧
    (∀ item ∈ after, (item.field "id").same (.int number) = false) ∧
    reply.field "result" = .text s

/-- The requests are answered by replies with numbers that can be looked up, and a text is held
under one of them. -/
def BatchNode.Replies (outcome : PostOutcome) (number : Nat) (s : Text) : Prop :=
  ∃ v items, bodyOf outcome = .ok v ∧ objects? v = some items ∧
    (∀ item ∈ items, (item.field "id").isKey = true) ∧ Holds items number s

/-! ### Digits in pairs -/

namespace Hex
open Text

/-- The bytes that digits write in pairs. -/
def octets : List Nat → Bytes
  | high :: low :: rest => UInt8.ofNat (high * 16 + low) :: octets rest
  | _ => []

private theorem digitChar_pairs : ∀ d < 16,
    (isAsciiBlank (Nat.digitChar d) = false ∧ asciiHexValue? (Nat.digitChar d) = some d) ∧
      isAsciiBlank (Nat.digitChar d).toUpper = false ∧
        asciiHexValue? (Nat.digitChar d).toUpper = some d := by
  decide

theorem asciiHexValue?_of_isDigit {c : Char} {d : Nat} (h : IsDigit 16 c d) :
    isAsciiBlank c = false ∧ asciiHexValue? c = some d := by
  obtain ⟨hd, rfl | rfl⟩ := h
  · exact (digitChar_pairs d hd).1
  · exact (digitChar_pairs d hd).2

/-- Digits in pairs are read as the bytes that they write. -/
theorem byteList?_of_isDigit {cs : List Char} {ds : List Nat} (h : List.Forall₂ (IsDigit 16) cs ds)
    (heven : ds.length % 2 = 0) : byteList? cs = some (octets ds) := by
  induction ds using octets.induct generalizing cs with
  | case1 high low rest ih =>
    obtain ⟨_, _, hhigh, htail, rfl⟩ := List.forall₂_cons_right_iff.mp h
    obtain ⟨_, _, hlow, hrest, rfl⟩ := List.forall₂_cons_right_iff.mp htail
    have hread := ih hrest (by simp at heven; omega)
    obtain ⟨hblank, hhigh⟩ := asciiHexValue?_of_isDigit hhigh
    obtain ⟨-, hlow⟩ := asciiHexValue?_of_isDigit hlow
    simp [byteList?, octets, hblank, hhigh, hlow, hread]
  | case2 ds hshort =>
    cases ds with
    | nil =>
      obtain rfl := List.forall₂_nil_right_iff.mp h
      rfl
    | cons d rest =>
      cases rest with
      | nil => exact absurd heven (by simp)
      | cons low rest => exact (hshort d low rest rfl).elim

theorem octets_digitsOf (bs : Bytes) : octets (digitsOf bs) = bs := by
  induction bs with
  | nil => rfl
  | cons b bs ih =>
    have hb : b.toNat / 16 * 16 + b.toNat % 16 = b.toNat := by omega
    change UInt8.ofNat (b.toNat / 16 * 16 + b.toNat % 16) :: octets (digitsOf bs) = b :: bs
    rw [ih, hb, UInt8.ofNat_toNat]

theorem length_octets : (ds : List Nat) → (octets ds).length = ds.length / 2
  | [] => rfl
  | [_] => by simp [octets]
  | _ :: _ :: rest => by
    have hrest := length_octets rest
    simp only [octets, List.length_cons, hrest]
    omega

end Hex

namespace Word
open Hex

/-- The number of bytes is that of their positions in base 256, counted from the last one. -/
theorem toNat_eq_ofDigits (bs : Bytes) : toNat bs = Nat.ofDigits 256 (bs.map UInt8.toNat).reverse := by
  rw [← Numeral.value_eq_ofDigits, Numeral.value, List.foldl_map]
  rfl

theorem toNat_cons (b : UInt8) (bs : Bytes) :
    toNat (b :: bs) = b.toNat * 256 ^ bs.length + toNat bs := by
  rw [toNat_eq_ofDigits, toNat_eq_ofDigits, List.map_cons, List.reverse_cons, Nat.ofDigits_append,
    Nat.ofDigits_singleton, List.length_reverse, List.length_map]
  ring

/-- Two digits at a time, the bytes write the number of the digits. -/
theorem toNat_octets (ds : List Nat) (heven : ds.length % 2 = 0) (hds : ∀ d ∈ ds, d < 16) :
    toNat (octets ds) = Nat.ofDigits 16 ds.reverse := by
  match ds with
  | [] => rfl
  | [_] => exact absurd heven (by simp)
  | high :: low :: rest =>
    obtain ⟨hhigh, hlow, hrest⟩ : high < 16 ∧ low < 16 ∧ ∀ d ∈ rest, d < 16 := by
      simpa only [List.forall_mem_cons] using hds
    have heven' : rest.length % 2 = 0 := by simp at heven; omega
    have hpow : 256 ^ (rest.length / 2) = 16 ^ rest.length := by
      rw [show 256 = 16 ^ 2 from rfl, ← Nat.pow_mul]
      congr 1
      omega
    have hbyte : (UInt8.ofNat (high * 16 + low)).toNat = high * 16 + low :=
      UInt8.toNat_ofNat_of_lt' (by change _ < 256; omega)
    rw [octets, toNat_cons, toNat_octets rest heven' hrest, length_octets, hpow, hbyte,
      List.reverse_cons, List.reverse_cons, Nat.ofDigits_append, Nat.ofDigits_append,
      Nat.ofDigits_singleton, Nat.ofDigits_singleton, List.length_append, List.length_reverse,
      List.length_singleton]
    ring

/-- Zeros in front add nothing. -/
theorem toNat_replicate_append (k : Nat) (bs : Bytes) :
    toNat (List.replicate k 0 ++ bs) = toNat bs := by
  induction k with
  | zero => rfl
  | succ k ih => simp [List.replicate_succ, toNat_cons, ih]

/-- As many bytes with one number are the same. -/
theorem eq_of_toNat_eq {bs bs' : Bytes} (hlength : bs.length = bs'.length)
    (h : toNat bs = toNat bs') : bs = bs' := by
  have hsmall (bs : Bytes) : ∀ d ∈ (bs.map UInt8.toNat).reverse, d < 256 := by
    intro d hd
    obtain ⟨b, -, rfl⟩ := List.mem_map.mp (List.mem_reverse.mp hd)
    exact b.toNat_lt
  rw [toNat_eq_ofDigits, toNat_eq_ofDigits] at h
  have hreverse := Nat.ofDigits_inj_of_len_eq (by decide) (by simpa using hlength) (hsmall bs)
    (hsmall bs') h
  exact List.map_injective_iff.mpr (fun _ _ => UInt8.toNat.inj) (List.reverse_injective hreverse)

theorem ofBytes_eq_ok_iff {bs w : Bytes} : ofBytes bs = .ok w ↔
    (1 ≤ bs.length ∧ bs.length ≤ wordSize) ∧
      List.replicate (wordSize - bs.length) 0 ++ bs = w := by
  unfold ofBytes
  cases bs with
  | nil => exact ⟨nofun, fun h => absurd h.1.1 (by decide)⟩
  | cons b bs =>
    rw [List.isEmpty_cons, if_neg Bool.false_ne_true]
    split
    · next hlong => exact ⟨nofun, fun h => absurd h.1.2 (Nat.not_le.mpr hlong)⟩
    · next hshort =>
      rw [Except.ok.injEq]
      exact ⟨fun h => ⟨⟨Nat.succ_pos _, Nat.not_lt.mp hshort⟩, h⟩, fun h => h.2⟩

/-- Bytes become a word if there are any and no more than fit, and it is the word with their number. -/
theorem ofBytes_spec (bs : Bytes) :
    ((∃ w, ofBytes bs = .ok w) ↔ 1 ≤ bs.length ∧ bs.length ≤ wordSize) ∧
      ∀ w, ofBytes bs = .ok w → w.length = wordSize ∧ toNat w = toNat bs ∧ ofBytes w = .ok w := by
  refine ⟨⟨fun ⟨w, h⟩ => (ofBytes_eq_ok_iff.mp h).1, fun h => ⟨_, ofBytes_eq_ok_iff.mpr ⟨h, rfl⟩⟩⟩,
    fun w h => ?_⟩
  have hlength : w.length = wordSize := length_ofBytes h
  obtain ⟨-, rfl⟩ := ofBytes_eq_ok_iff.mp h
  refine ⟨hlength, toNat_replicate_append _ bs, ofBytes_eq_ok_iff.mpr ⟨?_, ?_⟩⟩
  · rw [hlength]
    decide
  · rw [hlength, Nat.sub_self]
    rfl

/-- The digits in pairs, with a zero in front of an odd number of them. -/
def paired (ds : List Nat) : List Nat :=
  if ds.length % 2 = 1 then 0 :: ds else ds

theorem pairs_of_isDigit {mark cs : List Char} {ds : List Nat}
    (hmark : mark = [] ∨ mark = ['0', 'x'] ∨ mark = ['0', 'X'])
    (h : List.Forall₂ (IsDigit 16) cs ds) :
    pairs (mark ++ cs) = if cs.length % 2 = 1 then '0' :: cs else cs := by
  rcases hmark with rfl | rfl | rfl
  · -- digits do not start with a mark
    have hunmarked (x : Char) (hx : ∀ d < 16, ¬IsDigit 16 x d) (rest : List Char) :
        cs ≠ '0' :: x :: rest := by
      rintro rfl
      obtain ⟨_, _, -, hrest, -⟩ := List.forall₂_cons_left_iff.mp h
      obtain ⟨d, _, hd, -, -⟩ := List.forall₂_cons_left_iff.mp hrest
      exact hx d hd.1 hd
    rw [List.nil_append, pairs]
    · exact hunmarked 'x' (by decide)
    · exact hunmarked 'X' (by decide)
  · rfl
  · rfl

theorem isDigit_paired {cs : List Char} {ds : List Nat} (h : List.Forall₂ (IsDigit 16) cs ds) :
    List.Forall₂ (IsDigit 16) (if cs.length % 2 = 1 then '0' :: cs else cs) (paired ds) := by
  unfold paired
  rw [h.length_eq]
  split
  · exact .cons (by decide) h
  · exact h

theorem length_paired (ds : List Nat) :
    (paired ds).length % 2 = 0 ∧ (paired ds).length / 2 = (ds.length + 1) / 2 := by
  unfold paired
  split
  · rw [List.length_cons]
    omega
  · omega

/-- Digits are read in pairs. -/
theorem ofText_eq_ofBytes {s : Text} {ds : List Nat} (h : Hex.Writes s ds) :
    ofText s = ofBytes (octets (paired ds)) := by
  obtain ⟨mark, cs, rfl, hmark, hcs⟩ := h
  rw [ofText, Text.chars?_ofChars, Option.bind_some, pairs_of_isDigit hmark hcs,
    byteList?_of_isDigit (isDigit_paired hcs) (length_paired ds).1]

theorem toNat_octets_paired {ds : List Nat} (hds : ∀ d ∈ ds, d < 16) :
    toNat (octets (paired ds)) = Nat.ofDigits 16 ds.reverse := by
  have hpaired : ∀ d ∈ paired ds, d < 16 := by
    unfold paired
    split
    · exact List.forall_mem_cons.mpr ⟨by decide, hds⟩
    · exact hds
  rw [toNat_octets _ (length_paired ds).1 hpaired, paired]
  split
  · rw [List.reverse_cons, Nat.ofDigits_append_zero]
  · rfl

theorem lt_of_writes {s : Text} {ds : List Nat} (h : Hex.Writes s ds) : ∀ d ∈ ds, d < 16 := by
  obtain ⟨_, cs, -, -, hcs⟩ := h
  intro d hd
  obtain ⟨c, -, hc⟩ := exists_mem_of_forall₂ hcs.flip hd
  exact hc.1

/-- Hexadecimal digits become a word if there are any and no more than fit, and it is the word with
their number. -/
theorem ofText_spec {s : Text} {ds : List Nat} (h : Hex.Writes s ds) :
    ((∃ w, ofText s = .ok w) ↔ 1 ≤ ds.length ∧ ds.length ≤ 64) ∧
      ∀ w, ofText s = .ok w → w.length = wordSize ∧ toNat w = Nat.ofDigits 16 ds.reverse ∧
        ofBytes w = .ok w := by
  obtain ⟨hok, hword⟩ := ofBytes_spec (octets (paired ds))
  rw [ofText_eq_ofBytes h]
  rw [toNat_octets_paired (lt_of_writes h)] at hword
  refine ⟨?_, hword⟩
  rw [hok, length_octets, (length_paired ds).2]
  change 1 ≤ (ds.length + 1) / 2 ∧ (ds.length + 1) / 2 ≤ 32 ↔ _
  omega

theorem length_digitsOf (bs : Bytes) : (digitsOf bs).length = 2 * bs.length := by
  induction bs with
  | nil => rfl
  | cons b bs ih =>
    change (digitsOf bs).length + 2 = 2 * (bs.length + 1)
    rw [ih]
    omega

/-- Bytes and another spelling of them become the same word, or neither becomes one. -/
theorem Respells.ofText_eq {s : Text} {bs : Bytes} (h : Respells s bs) :
    ofText s = ofBytes bs := by
  cases h with
  | digits h =>
    have heven : paired (digitsOf bs) = digitsOf bs :=
      if_neg (by rw [length_digitsOf, Nat.mul_mod_right]; decide)
    rw [ofText_eq_ofBytes h, heven, octets_digitsOf]
  | number h hds hbs hvalue =>
    obtain ⟨w, hw⟩ := (ofText_spec h).1.mpr hds
    obtain ⟨w', hw'⟩ := (ofBytes_spec bs).1.mpr hbs
    obtain ⟨hlength, hnumber, -⟩ := (ofText_spec h).2 w hw
    obtain ⟨hlength', hnumber', -⟩ := (ofBytes_spec bs).2 w' hw'
    rw [hw, hw', eq_of_toNat_eq (hlength.trans hlength'.symm)
      (hnumber.trans (hvalue.trans hnumber'.symm))]

end Word

/-! ### Readers -/

namespace Node
variable {lib : Libraries} {p : NodePolicy} {responses : Nat → Response} {a : Answer}
  {address : Text}

/-- A node that answers is read as the word of its answer, or the fault names the slot. -/
theorem read_of_returns (haddress : ∃ checksum, lib.checksum? address = some checksum) (slot : Int)
    (h : Returns lib p responses a) :
    (∀ w, Word.ofAnswer a = .ok w → (read lib p responses address slot).result = .ok w) ∧
      ∀ fault, Word.ofAnswer a = .error fault →
        ∃ f, (read lib p responses address slot).result = .error f ∧ f.failedSlots = [slot] := by
  obtain ⟨checksum, hchecksum⟩ := haddress
  obtain ⟨k, hk, hanswered, hbefore, hretries⟩ := h
  have hneeded : 1 < p.attempts → (∃ text, responses 0 = .raised text) →
      Retries lib p.attempts p.delay := by
    rintro - ⟨text, hraised⟩
    refine hretries (Nat.pos_of_ne_zero ?_)
    rintro rfl
    rw [hanswered] at hraised
    cases hraised
  obtain ⟨-, -, hword, hfault⟩ := (read_abides lib p responses address slot hneeded).answered
    checksum k a hchecksum hk hanswered hbefore
  exact ⟨hword, hfault⟩

end Node

namespace BatchNode
open Added (Reading)
variable {outcome : PostOutcome} {items : List Value} {s : Text}

theorem replyTo_of_holds {number : Nat} (h : Holds items number s) :
    (replyTo items number).field "result" = .text s := by
  obtain ⟨before, reply, after, rfl, hnumber, hafter, hresult⟩ := h
  have hnone : withNumber after number = [] :=
    List.filter_eq_nil_iff.mpr fun item hitem => Bool.eq_false_iff.mp (hafter item hitem)
  have hlast : withNumber (before ++ reply :: after) number = withNumber before number ++ [reply] := by
    unfold withNumber at hnone ⊢
    rw [List.filter_append, List.filter_cons, if_pos hnumber, hnone]
  rw [replyTo_eq, hlast, List.getLast?_concat]
  exact hresult

/-- The reply to the request for a slot alone is the one with the number zero. -/
theorem granted_of_holds (slot : Int) (h : Holds items 0 s) :
    granted [slot] items slot = (Word.ofText s).toOption := by
  unfold granted wordIn?
  rw [List.idxOf_cons_self, replyTo_of_holds h]

/-- A node that replies to a single request is read as the word of the reply, or the fault names the
slot. -/
theorem read_of_replies (n : BatchNode) (address : Text) (slot : Int) (h : Replies outcome 0 s) :
    (∀ w, Word.ofText s = .ok w → (n.read outcome address slot).result = .ok (some w)) ∧
      ∀ fault, Word.ofText s = .error fault → ∃ f,
        (n.read outcome address slot).result = .error (.unread f) ∧ f.failedSlots = [slot] := by
  obtain ⟨v, items, hbody, hv, hkeys, hholds⟩ := h
  have hslots : [slot] ≠ [] := List.cons_ne_nil slot []
  have hgranted : granted [slot] items slot = (Word.ofText s).toOption := granted_of_holds slot hholds
  have hasked : [slot].eraseDups = [slot] := rfl
  obtain ⟨hconclude, -⟩ := conclude_spec address (List.nodup_singleton slot)
    (short_of_objects? (short_of_bodyOf hbody) hv)
  unfold read
  rw [Journal.result_bind, readMany_of_replies n address hslots hbody (replies_eq_ok hv hkeys),
    Journal.result_bind_ok _ (Journal.result_note _), hasked, hconclude]
  constructor
  · intro w hw
    have hreading : Reading.ofChain (granted [slot] items) [slot] = ⟨[(slot, w)], []⟩ := by
      simp [Reading.ofChain, hgranted, hw, Except.toOption]
    rw [hreading]
    exact congrArg Except.ok List.lookup_cons_self
  · intro fault hfault
    have hreading : Reading.ofChain (granted [slot] items) [slot] = ⟨[], [slot]⟩ := by
      simp [Reading.ofChain, hgranted, hfault, Except.toOption]
    rw [hreading]
    exact ⟨_, rfl, rfl⟩

end BatchNode

namespace Word

/-- **An answer becomes a word with the number of its hexadecimal digits, if there are one to
sixty-four of them, or of its bytes, if there are one to thirty-two; a word stays what it is. A node
that returns bytes and one that replies with another spelling of them are read alike.** -/
theorem ofAnswer_keeps_number :
    (∀ s ds, Hex.Writes s ds →
      ((∃ w, ofAnswer (.value (.text s)) = .ok w) ↔ 1 ≤ ds.length ∧ ds.length ≤ 64) ∧
        ∀ w, ofAnswer (.value (.text s)) = .ok w → w.length = 32 ∧
          toNat w = Nat.ofDigits 16 ds.reverse ∧ ofAnswer (.bytes w) = .ok w) ∧
      (∀ bs, ((∃ w, ofAnswer (.bytes bs) = .ok w) ↔ 1 ≤ bs.length ∧ bs.length ≤ 32) ∧
        ∀ w, ofAnswer (.bytes bs) = .ok w → w.length = 32 ∧ toNat w = toNat bs ∧
          ofAnswer (.bytes w) = .ok w) ∧
      ∀ lib p responses (n : BatchNode) outcome bs s address slot,
        (∃ checksum, lib.checksum? address = some checksum) →
        Node.Returns lib p responses (.bytes bs) → BatchNode.Replies outcome 0 s → Respells s bs →
          (∃ w, (Node.read lib p responses address slot).result = .ok w ∧
            (n.read outcome address slot).result = .ok (some w)) ∨
          ∃ f f', (Node.read lib p responses address slot).result = .error f ∧
            (n.read outcome address slot).result = .error (.unread f') ∧
            f.failedSlots = [slot] ∧ f'.failedSlots = [slot] := by
  refine ⟨fun s ds h => ofText_spec h, ofBytes_spec, ?_⟩
  intro lib p responses n outcome bs s address slot haddress hreturns hreplies hrespells
  obtain ⟨hword, hfault⟩ := Node.read_of_returns haddress slot hreturns
  obtain ⟨hword', hfault'⟩ := BatchNode.read_of_replies n address slot hreplies
  rw [hrespells.ofText_eq] at hword' hfault'
  cases hbs : ofBytes bs with
  | ok w => exact .inl ⟨w, hword w hbs, hword' w hbs⟩
  | error fault =>
    obtain ⟨f, hread, hfailed⟩ := hfault fault hbs
    obtain ⟨f', hread', hfailed'⟩ := hfault' fault hbs
    exact .inr ⟨f, f', hread, hread', hfailed, hfailed'⟩

/-- A node that is busy at first and then returns a seven. -/
def busyThenSeven : Nat → Response
  | 0 => .raised "busy"
  | _ => .answered (.bytes [7])

/-- The reply that spells the seven with three digits. -/
def sevenBody : Text := "\x7b\"id\": 0, \"result\": \"0X007\"\x7d"

theorem ofAnswer_keeps_number_seven :
    (∃ w, ofAnswer (.value (.text "0X007")) = .ok w ∧ toNat w = 7) ∧
      (∃ w, ofAnswer (.bytes [7]) = .ok w ∧ toNat w = 7) ∧
      ∃ w, (Node.read .standard (.ofAttempts (.text "latest") 2 (.int 2)) busyThenSeven
          Node.sampleAddress 5).result = .ok w ∧
        (BatchNode.localNode.read (.replied sevenBody) Node.sampleAddress 5).result =
          .ok (some w) := by
  obtain ⟨htext, hbytes, hreaders⟩ := ofAnswer_keeps_number
  have hwrites : Hex.Writes "0X007" [0, 0, 7] :=
    ⟨['0', 'X'], ['0', '0', '7'], rfl, .inr (.inr rfl),
      .cons (by decide) (.cons (by decide) (.cons (by decide) .nil))⟩
  have hbody : BatchNode.bodyOf (.replied sevenBody) =
      .ok (.record [("id", .int 0), ("result", .text "0X007")]) := by decide +kernel
  have hreplies : BatchNode.Replies (.replied sevenBody) 0 "0X007" :=
    ⟨_, _, hbody, rfl, by decide, [], _, [], rfl, by decide,
      fun _ hitem => absurd hitem List.not_mem_nil, rfl⟩
  have hreturns : Node.Returns .standard (.ofAttempts (.text "latest") 2 (.int 2)) busyThenSeven
      (.bytes [7]) := by
    refine ⟨1, by decide, rfl, fun j hj => ?_, fun _ => ⟨?_, rfl⟩⟩
    · obtain rfl := Nat.lt_one_iff.mp hj
      exact ⟨_, rfl⟩
    · exact Numeral.short_of_natAbs_lt 3 (by decide) (by decide +kernel)
  have hseven : Nat.ofDigits 16 [0, 0, 7].reverse = 7 := by decide
  have hrespells : Respells "0X007" [7] := .number hwrites (by decide) (by decide) hseven
  obtain ⟨w, hw⟩ := (htext _ _ hwrites).1.mpr (by decide)
  obtain ⟨w', hw'⟩ := (hbytes [7]).1.mpr (by decide)
  refine ⟨⟨w, hw, ((htext _ _ hwrites).2 w hw).2.1.trans hseven⟩,
    ⟨w', hw', ((hbytes [7]).2 w' hw').2.1⟩, ?_⟩
  rcases hreaders _ _ _ BatchNode.localNode _ _ _ Node.sampleAddress 5
    Node.exists_checksum_sampleAddress hreturns hreplies hrespells with hread | ⟨_, _, -, hread, -⟩
  · exact hread
  · have hok : (BatchNode.localNode.read (.replied sevenBody)
        Node.sampleAddress 5).result.isOk = true := by decide +kernel
    rw [hread] at hok
    cases hok

end Word

end UpgradeSafety
