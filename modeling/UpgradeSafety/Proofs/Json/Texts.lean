import Mathlib.Data.List.Forall2
import UpgradeSafety.Json.Reader
import UpgradeSafety.Json.Writer

/-! Texts in documents. A code point is spelt by itself or by its number, and a character beyond the
basic plane by the numbers of two halves (`Spells`). What is written for a text is read as such
spellings (`exists_spellings?`). Halves that stand next to each other are spelt like the character
that they make, so that is what comes back of them, and all else comes back as it was
(`next?_writeText`). -/
namespace UpgradeSafety.Json
open Text (joinHalves)

/-! ### Halves -/

theorem isHigh_iff {p : Point} : p.isHigh = true ↔ 0xd800 ≤ p.code ∧ p.code < 0xdc00 := by
  simp [Point.isHigh]

theorem isLow_iff {p : Point} : p.isLow = true ↔ 0xdc00 ≤ p.code ∧ p.code < 0xe000 := by
  simp [Point.isLow]

theorem code_joined {high low : Point} (hhigh : high.isHigh = true) (hlow : low.isLow = true) :
    0x10000 ≤ (high.joined low).code := by
  rw [isHigh_iff] at hhigh
  rw [isLow_iff] at hlow
  rw [Point.joined, Point.code_ofCode (by omega)]
  omega

/-! ### Spellings -/

/-- How a code point is spelt. Only ASCII characters stand for themselves. -/
inductive Spells : Point → List Spelling → Prop where
  | plain {p : Point} (h : p.code < 0x80) : Spells p [.plain p]
  | coded (p : Point) : Spells p [.coded p]
  | halves {high low : Point} (hhigh : high.isHigh = true) (hlow : low.isLow = true) :
      Spells (high.joined low) [.coded high, .coded low]

/-- Whether a number that is spelt next would make a pair with a code point. -/
def Pairs (p : Point) (ss : List Spelling) : Prop :=
  ∃ q, ss.head? = some (.coded q) ∧ p.isHigh = true ∧ q.isLow = true

theorem Spells.points_append {p : Point} {ss rest : List Spelling} (h : Spells p ss)
    (hpairs : ¬Pairs p rest) : Spelling.points (ss ++ rest) = p :: Spelling.points rest := by
  cases h with
  | plain => rfl
  | coded =>
    cases rest with
    | nil => rfl
    | cons s rest =>
      cases s with
      | plain => rfl
      | coded q =>
        have hnot : (p.isHigh && q.isLow) = false := by
          rw [← Bool.not_eq_true, Bool.and_eq_true]
          exact fun hboth => hpairs ⟨q, rfl, hboth⟩
        show Spelling.points (.coded p :: .coded q :: rest) = _
        rw [Spelling.points, hnot, if_neg Bool.false_ne_true]
  | @halves high low hhigh hlow =>
    show Spelling.points (.coded high :: .coded low :: rest) = _
    rw [Spelling.points, hhigh, hlow, Bool.and_true, if_pos rfl]

/-- Only the second half of a pair is spelt like one. -/
theorem Spells.isLow_of_head? {p q : Point} {ss rest : List Spelling} (h : Spells p ss)
    (hq : (ss ++ rest).head? = some (.coded q)) (hlow : q.isLow = true) : p.isLow = true := by
  cases h with
  | plain => cases hq
  | coded =>
    obtain rfl := Spelling.coded.inj (Option.some.inj hq)
    exact hlow
  | halves hhigh =>
    obtain rfl := Spelling.coded.inj (Option.some.inj hq)
    rw [isHigh_iff] at hhigh
    rw [isLow_iff] at hlow
    omega

/-- A half is spelt by its number. -/
theorem Spells.eq_coded {p : Point} {ss : List Spelling} (h : Spells p ss)
    (hhalf : 0xd800 ≤ p.code ∧ p.code < 0xe000) : ss = [.coded p] := by
  cases h with
  | plain h => omega
  | coded => rfl
  | halves hhigh hlow =>
    have hjoined := code_joined hhigh hlow
    omega

/-- A text that is spelt point by point comes back with its halves joined. -/
theorem points_of_spells {s : Text} {sss : List (List Spelling)} (h : List.Forall₂ Spells s sss) :
    Spelling.points sss.flatten = joinHalves s := by
  fun_induction joinHalves s generalizing sss with
  | case1 high low rest hboth ih =>
    rw [Bool.and_eq_true] at hboth
    obtain ⟨hhigh, hlow⟩ := hboth
    cases h with
    | cons hfirst h =>
      cases h with
      | cons hsecond hrest =>
        have hhigh' := isHigh_iff.mp hhigh
        have hlow' := isLow_iff.mp hlow
        rw [hfirst.eq_coded (by omega), hsecond.eq_coded (by omega)]
        show Spelling.points (.coded high :: .coded low :: _) = _
        rw [Spelling.points, hhigh, hlow, Bool.and_true, if_pos rfl]
        exact congrArg (high.joined low :: ·) (ih hrest)
  | case2 high low rest hnot ih =>
    cases h with
    | cons hfirst h =>
      have hpairs {ss : List Spelling} {more : List (List Spelling)} (hsecond : Spells low ss) :
          ¬Pairs high (ss :: more).flatten := by
        intro hpairs
        obtain ⟨q, hq, hhigh, hlow⟩ := hpairs
        exact hnot (Bool.and_eq_true_iff.mpr ⟨hhigh, hsecond.isLow_of_head? hq hlow⟩)
      have htail := ih h
      cases h with
      | cons hsecond hrest =>
        rw [List.flatten_cons, hfirst.points_append (hpairs hsecond), htail]
  | case3 s hshort =>
    cases h with
    | nil => rfl
    | @cons p ss _ _ hfirst h =>
      cases h with
      | nil =>
        have hpairs : ¬Pairs p [] := by
          intro hpairs
          obtain ⟨q, hq, -⟩ := hpairs
          cases hq
        rw [List.flatten_cons, List.flatten_nil, hfirst.points_append hpairs]
        rfl
      | cons => exact (hshort _ _ _ rfl).elim

/-! ### Escapes -/

/-- What is read in front of a text that goes on. -/
def ReadsAs (written : Text) (ss : List Spelling) : Prop :=
  ∀ more, spellings? (written ++ more) =
    (spellings? more).map fun (rest, after) => (ss ++ rest, after)

theorem asciiHexValue?_digit : ∀ d < 16, Text.asciiHexValue? (Hex.digit d) = some d := by
  decide

theorem readsAs_escapeUnit {n : Nat} (h : n < 0x10000) :
    ReadsAs (escapeUnit n) [.coded (.ofCode n)] := by
  intro more
  have hunit : unit? (Hex.digit (n / 0x1000)) (Hex.digit (n / 0x100 % 0x10))
      (Hex.digit (n / 0x10 % 0x10)) (Hex.digit (n % 0x10)) = some n := by
    unfold unit?
    simp only [Point.char?, Option.bind_some]
    rw [asciiHexValue?_digit _ (by omega), asciiHexValue?_digit _ (by omega),
      asciiHexValue?_digit _ (by omega), asciiHexValue?_digit _ (by omega)]
    simp only [Option.some.injEq]
    omega
  show spellings? (.char '\\' :: .char 'u' :: _ :: _ :: _ :: _ :: more) = _
  rw [spellings?, hunit]
  cases spellings? more <;> rfl

theorem ReadsAs.append {written written' : Text} {ss ss' : List Spelling}
    (h : ReadsAs written ss) (h' : ReadsAs written' ss') :
    ReadsAs (written ++ written') (ss ++ ss') := by
  intro more
  rw [List.append_assoc, h, h', Option.map_map]
  congr 1
  funext found
  simp

theorem readsAs_self {p : Point} (hquote : p ≠ '\"') (hslash : p ≠ '\\') (h : 0x20 ≤ p.code) :
    ReadsAs [p] [.plain p] := by
  intro more
  show spellings? (p :: more) = _
  rw [spellings?.eq_def]
  split
  · next heq => cases heq
  · next heq => exact absurd (List.cons.inj heq).1 hquote
  · next heq => exact absurd (List.cons.inj heq).1 hslash
  · next heq => exact absurd (List.cons.inj heq).1 hslash
  · next heq =>
    obtain ⟨rfl, rfl⟩ := List.cons.inj heq
    rw [if_neg (Nat.not_lt.mpr h)]
    cases spellings? more <;> rfl

theorem exists_escapeCode (p : Point) : ∃ ss, Spells p ss ∧ ReadsAs (escapeCode p.code) ss := by
  unfold escapeCode
  split
  · next h =>
    refine ⟨_, .coded p, ?_⟩
    conv => arg 2; rw [← p.ofCode_code]
    exact readsAs_escapeUnit h
  · next h =>
    have hlt := p.code_lt
    generalize hhigh : 0xd800 + (p.code - 0x10000) / 0x400 = high
    generalize hlow : 0xdc00 + (p.code - 0x10000) % 0x400 = low
    have hhighcode : (Point.ofCode high).code = high := Point.code_ofCode (by omega)
    have hlowcode : (Point.ofCode low).code = low := Point.code_ofCode (by omega)
    have hjoined : (Point.ofCode high).joined (.ofCode low) = p := by
      have hcode : 0x10000 + (high - 0xd800) * 0x400 + (low - 0xdc00) = p.code := by omega
      rw [Point.joined, hhighcode, hlowcode, hcode, Point.ofCode_code]
    refine ⟨_, hjoined ▸ .halves (isHigh_iff.mpr ?_) (isLow_iff.mpr ?_),
      (readsAs_escapeUnit (by omega)).append (readsAs_escapeUnit (by omega))⟩
    · rw [hhighcode]
      omega
    · rw [hlowcode]
      omega

/-- Every code point is written as one of its spellings. -/
theorem exists_escape (p : Point) : ∃ ss, Spells p ss ∧ ReadsAs (escape p) ss := by
  have hletter (c d : Char) (hc : unescape? d = some c) (hu : d ≠ 'u') (hascii : c.toNat < 0x80) :
      ∃ ss, Spells c ss ∧ ReadsAs ['\\', d] ss := by
    refine ⟨_, .plain hascii, fun more => ?_⟩
    show spellings? (.char '\\' :: .char d :: more) = _
    rw [spellings?]
    · rw [hc]
      cases spellings? more <;> rfl
    · rintro _ _ _ _ _ ⟨⟩
      exact absurd rfl hu
  unfold escape
  split
  · next h =>
    rcases h with rfl | rfl
    · exact hletter '\"' '\"' rfl (by decide) (by decide)
    · exact hletter '\\' '\\' rfl (by decide) (by decide)
  · next h =>
    rw [not_or] at h
    split
    · next h => exact h ▸ hletter '\n' 'n' rfl (by decide) (by decide)
    · split
      · next h => exact h ▸ hletter '\r' 'r' rfl (by decide) (by decide)
      · split
        · next h => exact h ▸ hletter '\t' 't' rfl (by decide) (by decide)
        · split
          · next h => exact h ▸ hletter '\x08' 'b' rfl (by decide) (by decide)
          · split
            · next h => exact h ▸ hletter '\x0c' 'f' rfl (by decide) (by decide)
            · split
              · next hprintable =>
                exact ⟨_, .plain (by omega), readsAs_self h.1 h.2 hprintable.1⟩
              · exact exists_escapeCode p

/-! ### Whole texts -/

/-- What is written for a text is read as spellings of its code points. -/
theorem exists_spellings? (s rest : Text) : ∃ sss, List.Forall₂ Spells s sss ∧
    spellings? (s.flatMap escape ++ .char '\"' :: rest) = some (sss.flatten, rest) := by
  induction s with
  | nil => exact ⟨[], .nil, rfl⟩
  | cons p s ih =>
    obtain ⟨sss, hsss, hread⟩ := ih
    obtain ⟨ss, hss, hescape⟩ := exists_escape p
    refine ⟨ss :: sss, .cons hss hsss, ?_⟩
    rw [List.flatMap_cons, List.append_assoc, hescape, hread]
    rfl

/-- **A text that is written into a document is read with its halves joined, and whatever follows
it is left.** -/
theorem next?_writeText (s rest : Text) :
    next? (writeText s ++ rest) = some (.atom (.text (joinHalves s)), rest) := by
  obtain ⟨sss, hsss, hread⟩ := exists_spellings? s rest
  have hwritten : writeText s ++ rest = .char '\"' :: (s.flatMap escape ++ .char '\"' :: rest) := by
    simp [writeText, Text.ofString, Text.ofChars]
  rw [hwritten, next?, hread, Option.map_some]
  exact congrArg (fun t => some (Token.atom (.text t), rest)) (points_of_spells hsss)

end UpgradeSafety.Json
