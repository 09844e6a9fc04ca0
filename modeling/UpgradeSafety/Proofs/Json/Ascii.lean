import UpgradeSafety.Proofs.Json.Numbers

/-! Documents are ASCII, whatever value they write (`Json.ascii_write`): numbers have digits and signs
only, and what is no printable ASCII character in a text is escaped. So an output that shows these
characters shows every document. -/
namespace UpgradeSafety

/-- All characters of the text are ASCII characters. -/
def Text.Ascii (s : Text) : Prop :=
  ∀ p ∈ s, p.code < 0x80

instance (s : Text) : Decidable s.Ascii :=
  inferInstanceAs (Decidable (∀ p ∈ s, p.code < 0x80))

namespace Text

theorem Ascii.append {s t : Text} (hs : s.Ascii) (ht : t.Ascii) : (s ++ t).Ascii :=
  List.forall_mem_append.mpr ⟨hs, ht⟩

theorem ascii_ofChars {cs : List Char} (h : ∀ c ∈ cs, c.toNat < 0x80) : (ofChars cs).Ascii :=
  List.forall_mem_map.mpr h

end Text

/-! ### Numbers -/

theorem ascii_of_all {cs : List Char} (h : cs.all (·.toNat < 0x80) = true) :
    ∀ c ∈ cs, c.toNat < 0x80 := fun c hc =>
  of_decide_eq_true (List.all_eq_true.mp h c hc)

theorem ascii_toDigits (n : Nat) : ∀ c ∈ Nat.toDigits 10 n, c.toNat < 0x80 := by
  intro c hc
  have hdigit : c.isDigit = true := Nat.isDigit_of_mem_toDigits (by decide) (by decide) hc
  simp only [Char.isDigit, Bool.and_eq_true, decide_eq_true_eq] at hdigit
  have hle : c.toNat ≤ 0x39 := UInt32.le_iff_toNat_le.mp hdigit.2
  omega

theorem ascii_toString : ∀ n : Int, (Text.ofString (toString n)).Ascii
  | .ofNat m => Text.ascii_ofChars (Json.toList_toString_ofNat m ▸ ascii_toDigits m)
  | .negSucc m => Text.ascii_ofChars (Json.toList_toString_negSucc m ▸
    List.forall_mem_cons.mpr ⟨by decide, ascii_toDigits (m + 1)⟩)

namespace Binary64

theorem mem_of_mem_withoutTrailingZeros {ds : List Char} {c : Char}
    (h : c ∈ withoutTrailingZeros ds) : c ∈ ds ∨ c = '0' := by
  unfold withoutTrailingZeros at h
  split at h
  · exact .inr (List.mem_singleton.mp h)
  · exact .inl (List.mem_reverse.mp ((List.dropWhile_sublist _).mem (List.mem_reverse.mp h)))

theorem ascii_write (l : Layout) (d : Nat) (k : Int) : ∀ c ∈ l.write d k, c.toNat < 0x80 := by
  have hzeros (n : Nat) : ∀ c ∈ List.replicate n '0', c.toNat < 0x80 := by
    intro c hc
    rw [List.eq_of_mem_replicate hc]
    decide
  have hds : ∀ c ∈ withoutTrailingZeros (Nat.toDigits 10 d), c.toNat < 0x80 := by
    intro c hc
    rcases mem_of_mem_withoutTrailingZeros hc with hc | rfl
    · exact ascii_toDigits d c hc
    · decide
  have htake (n : Nat) : ∀ c ∈ (withoutTrailingZeros (Nat.toDigits 10 d)).take n, c.toNat < 0x80 :=
    fun c hc => hds c (List.mem_of_mem_take hc)
  have hdrop (n : Nat) : ∀ c ∈ (withoutTrailingZeros (Nat.toDigits 10 d)).drop n, c.toNat < 0x80 :=
    fun c hc => hds c (List.mem_of_mem_drop hc)
  unfold Layout.write
  dsimp only
  split
  · exact ascii_of_all rfl
  · split
    · split
      · simp only [List.forall_mem_append]
        exact ⟨⟨ascii_of_all rfl, hzeros _⟩, hds⟩
      · split
        · simp only [List.forall_mem_append]
          exact ⟨⟨hds, hzeros _⟩, ascii_of_all rfl⟩
        · simp only [List.forall_mem_append]
          exact ⟨⟨htake _, ascii_of_all rfl⟩, hdrop _⟩
    · simp only [List.forall_mem_append]
      refine ⟨⟨⟨⟨htake _, ?_⟩, ?_⟩, hzeros _⟩, ascii_toDigits _⟩
      · split
        · exact List.forall_mem_nil _
        · exact List.forall_mem_cons.mpr ⟨by decide, hdrop _⟩
      · split <;> exact ascii_of_all rfl

theorem ascii_text (x : Binary64) : (Text.ofString x.text).Ascii := by
  cases x with
  | nan => decide
  | infinite negative => cases negative <;> decide
  | finite negative m q =>
    refine Text.ascii_ofChars ?_
    unfold text
    dsimp only
    rw [String.toList_ofList, List.forall_mem_append]
    refine ⟨?_, ascii_write _ _ _⟩
    split <;> exact ascii_of_all rfl

end Binary64

/-! ### Texts -/

namespace Json
open Text (Ascii)

theorem ascii_writeNumber (x : Binary64) : (writeNumber x).Ascii := by
  unfold writeNumber
  split
  · decide
  · decide
  · decide
  · exact x.ascii_text

theorem ascii_digit : ∀ d < 16, (Hex.digit d).toNat < 0x80 := by
  decide

theorem ascii_escapeUnit {n : Nat} (h : n < 0x10000) : (escapeUnit n).Ascii := by
  refine Text.ascii_ofChars ?_
  simp only [List.forall_mem_cons]
  exact ⟨by decide, by decide, ascii_digit _ (by omega), ascii_digit _ (by omega),
    ascii_digit _ (by omega), ascii_digit _ (by omega), List.forall_mem_nil _⟩

theorem ascii_escape (p : Point) : (escape p).Ascii := by
  have hlt := p.code_lt
  unfold escape
  split
  · next h => rcases h with rfl | rfl <;> decide
  · iterate 5
      split
      · decide
    split
    · exact List.forall_mem_singleton.mpr (by omega)
    · unfold escapeCode
      split
      · next h => exact ascii_escapeUnit h
      · exact (ascii_escapeUnit (by omega)).append (ascii_escapeUnit (by omega))

theorem ascii_writeText (s : Text) : (writeText s).Ascii := by
  have hparts : Ascii (s.flatMap escape) := by
    intro p hp
    obtain ⟨q, -, hp⟩ := List.mem_flatMap.mp hp
    exact ascii_escape q p hp
  exact (Ascii.append (by decide) hparts).append (by decide)

theorem ascii_newline (depth : Nat) : (newline depth).Ascii := by
  refine List.forall_mem_cons.mpr ⟨by decide, fun p hp => ?_⟩
  rw [List.eq_of_mem_replicate hp]
  decide

/-! ### Documents -/

mutual

/-- What is written for a value is ASCII. -/
theorem ascii_write (depth : Nat) : ∀ v : Value, (write depth v).Ascii
  | .null => (by decide : Ascii "null")
  | .bool true => (by decide : Ascii "true")
  | .bool false => (by decide : Ascii "false")
  | .int n => ascii_toString n
  | .real x => ascii_writeNumber x
  | .moment t | .text t => ascii_writeText t
  | .list [] => (by decide : Ascii "[]")
  | .list (v :: rest) => by
    have hopen : Ascii "[" := by decide
    have hclose : Ascii "]" := by decide
    exact ((((hopen.append (ascii_newline _)).append (ascii_write _ v)).append
      (ascii_writeItems _ rest)).append (ascii_newline _)).append hclose
  | .record [] => (by decide : Ascii "\x7b\x7d")
  | .record ((key, v) :: rest) => by
    have hopen : Ascii "\x7b" := by decide
    have hcolon : Ascii ": " := by decide
    have hclose : Ascii "\x7d" := by decide
    exact ((((((hopen.append (ascii_newline _)).append (ascii_writeText key)).append hcolon).append
      (ascii_write _ v)).append (ascii_writeFields _ rest)).append (ascii_newline _)).append hclose

theorem ascii_writeItems (depth : Nat) : ∀ items : List Value, (writeItems depth items).Ascii
  | [] => List.forall_mem_nil _
  | v :: rest => by
    have hcomma : Ascii "," := by decide
    exact ((hcomma.append (ascii_newline _)).append (ascii_write _ v)).append
      (ascii_writeItems _ rest)

theorem ascii_writeFields (depth : Nat) :
    ∀ fields : List (Text × Value), (writeFields depth fields).Ascii
  | [] => List.forall_mem_nil _
  | (key, v) :: rest => by
    have hcomma : Ascii "," := by decide
    have hcolon : Ascii ": " := by decide
    exact ((((hcomma.append (ascii_newline _)).append (ascii_writeText key)).append hcolon).append
      (ascii_write _ v)).append (ascii_writeFields _ rest)

end

end Json
end UpgradeSafety
