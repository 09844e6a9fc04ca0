import Mathlib.Data.List.Induction
import Mathlib.Tactic.IntervalCases
import UpgradeSafety.Json.Reader
import UpgradeSafety.Json.Writer
import UpgradeSafety.Proofs.Runs

/-! The whole numbers of a document have decimal texts. A number is read with at most as many digits
as a decimal text may have, so it is below the bound (`short_of_unsigned?`), and the reader makes no
numbers of its own: each step of the machine keeps what it holds writable (`State.Short.step`). What
is read can then be shown in a message (`short_of_read?`). The other way round, a whole number that is
not too long is read as it was written (`next?_toString`). -/
namespace UpgradeSafety.Json

/-! ### Digits -/

/-- Digits write a number below the power of ten with as many zeros. -/
theorem natOf_lt {ds : Text} (h : ∀ p ∈ ds, p.is Char.isDigit = true) :
    natOf ds < Nat.pow 10 ds.length := by
  induction ds using List.reverseRecOn with
  | nil => exact Nat.one_pos
  | append_singleton ds p ih =>
    have hds : natOf ds < Nat.pow 10 ds.length := ih fun d hd => h d (List.mem_append_left _ hd)
    have hdigit := h p (List.mem_append_right _ List.mem_cons_self)
    have hp : p.code - 0x30 ≤ 9 := by
      cases p with
      | half n => cases hdigit
      | char c =>
        simp only [Point.is, Char.isDigit, Bool.and_eq_true, decide_eq_true_eq] at hdigit
        have hle : c.toNat ≤ 0x39 := UInt32.le_iff_toNat_le.mp hdigit.2
        rw [Point.code]
        omega
    have hstep : natOf (ds ++ [p]) = natOf ds * 10 + (p.code - 0x30) := by
      simp [natOf]
    have hpow : Nat.pow 10 (ds.length + 1) = Nat.pow 10 ds.length * 10 := rfl
    rw [hstep, List.length_append, List.length_singleton, hpow]
    omega

theorem isDigit_of_mem_digits {s : Text} {p : Point} (h : p ∈ (digits s).1) :
    p.is Char.isDigit = true :=
  List.all_eq_true.mp List.all_takeWhile p h

theorem isDigit_of_whole? {s ds rest : Text} (h : whole? s = some (ds, rest)) :
    ∀ p ∈ ds, p.is Char.isDigit = true := by
  unfold whole? at h
  split at h
  · obtain rfl := congrArg Prod.fst (Option.some.inj h)
    exact List.forall_mem_singleton.mpr rfl
  · split at h
    · obtain rfl := congrArg Prod.fst (Option.some.inj h)
      exact fun p => isDigit_of_mem_digits
    · cases h
  · cases h

/-! ### Tokens -/

/-- Whether the whole numbers of a token have decimal texts. -/
def Token.Short : Token → Prop
  | .atom v => v.Short
  | _ => True

theorem short_of_unsigned? {negative : Bool} {s rest : Text} {v : Value}
    (h : unsigned? negative s = some (v, rest)) : v.Short := by
  unfold unsigned? at h
  obtain ⟨⟨ds, after⟩, hwhole, h⟩ := Option.bind_eq_some_iff.mp h
  dsimp only at h
  split at h
  · split at h
    · next hlimit =>
      obtain rfl := congrArg Prod.fst (Option.some.inj h)
      refine Numeral.short_of_natAbs_lt _ ?_ (Numeral.bound_le hlimit)
      have hlt := natOf_lt (isDigit_of_whole? hwhole)
      split <;> omega
    · cases h
  · obtain rfl := congrArg Prod.fst (Option.some.inj h)
    trivial

theorem short_of_next? {s rest : Text} {t : Token} (h : next? s = some (t, rest)) :
    t.Short := by
  unfold next? at h
  split at h
  case h_7 =>
    obtain ⟨⟨ss, after⟩, -, h⟩ := Option.map_eq_some_iff.mp h
    obtain rfl := congrArg Prod.fst h
    trivial
  case h_8 =>
    split at h
    · next word v hword =>
      obtain rfl := congrArg Prod.fst (Option.some.inj h)
      have hwords : ∀ entry ∈ words, entry.2.Short := by simp [words, Value.Short]
      exact hwords _ (List.mem_of_find?_eq_some hword)
    · split at h
      all_goals
        obtain ⟨⟨v, after⟩, hv, h⟩ := Option.map_eq_some_iff.mp h
        obtain rfl := congrArg Prod.fst h
        exact short_of_unsigned? hv
  all_goals
    obtain rfl := congrArg Prod.fst (Option.some.inj h)
    trivial

theorem short_of_scan {s : Text} {ts : List Token} (h : scan s = some ts) :
    ∀ t ∈ ts, t.Short := by
  induction s using scan.induct generalizing ts with
  | case1 =>
    rw [scan] at h
    obtain rfl := Option.some.inj h
    exact nofun
  | case2 c rest hblank ih =>
    rw [scan, if_pos hblank] at h
    exact ih h
  | case3 c rest hblank hnext =>
    rw [scan, if_neg hblank] at h
    split at h
    · cases h
    · next heq => rw [hnext] at heq; cases heq
  | case4 c rest hblank t after hnext ih =>
    rw [scan, if_neg hblank] at h
    split at h
    · cases h
    · next t' after' heq =>
      rw [hnext] at heq
      obtain ⟨rfl, rfl⟩ := Prod.mk.inj (Option.some.inj heq)
      obtain ⟨ts', hts', rfl⟩ := Option.map_eq_some_iff.mp h
      exact List.forall_mem_cons.mpr ⟨short_of_next? hnext, ih hts'⟩

/-! ### The machine -/

def Frame.Short : Frame → Prop
  | .list items => Value.ShortItems items
  | .record fields _ => Value.ShortFields fields

/-- Whether all whole numbers that the machine holds have decimal texts. -/
def State.Short : State → Prop
  | .value stack | .item stack | .entry stack => ∀ frame ∈ stack, frame.Short
  | .key fields stack | .colon fields _ stack =>
    Value.ShortFields fields ∧ ∀ frame ∈ stack, frame.Short
  | .after v stack => v.Short ∧ ∀ frame ∈ stack, frame.Short

theorem State.Short.begin? {stack : List Frame} {t : Token} {s : State}
    (hstack : ∀ frame ∈ stack, frame.Short) (ht : t.Short) (h : begin? stack t = some s) :
    s.Short := by
  cases t with
  | openList =>
    obtain rfl := Option.some.inj h
    exact List.forall_mem_cons.mpr ⟨trivial, hstack⟩
  | openRecord =>
    obtain rfl := Option.some.inj h
    exact hstack
  | atom v =>
    obtain rfl := Option.some.inj h
    exact ⟨ht, hstack⟩
  | _ => cases h

/-- A step makes no numbers. -/
theorem State.Short.step {s s' : State} {t : Token} (hs : s.Short) (ht : t.Short)
    (h : step s t = some s') : s'.Short := by
  unfold Json.step at h
  split at h
  case h_6 | h_8 | h_10 | h_15 => cases h
  case h_1 | h_3 => exact .begin? hs ht h
  all_goals obtain rfl := Option.some.inj h
  case h_2 => exact ⟨trivial, (List.forall_mem_cons.mp hs).2⟩
  case h_4 | h_5 => exact ⟨trivial, hs⟩
  case h_7 => exact hs
  case h_9 => exact List.forall_mem_cons.mpr hs
  case h_11 v items stack =>
    obtain ⟨hitems, hstack⟩ := List.forall_mem_cons.mp hs.2
    exact List.forall_mem_cons.mpr ⟨⟨hs.1, hitems⟩, hstack⟩
  case h_12 v items stack =>
    obtain ⟨hitems, hstack⟩ := List.forall_mem_cons.mp hs.2
    have hall : Value.ShortItems (v :: items) := ⟨hs.1, hitems⟩
    refine ⟨Value.shortItems_iff.mpr fun w hw => ?_, hstack⟩
    exact Value.shortItems_iff.mp hall w (List.mem_reverse.mp hw)
  case h_13 | h_14 =>
    obtain ⟨hfields, hstack⟩ := List.forall_mem_cons.mp hs.2
    exact ⟨hfields.put _ hs.1, hstack⟩

theorem State.Short.foldlM_step {s s' : State} {ts : List Token} (hs : s.Short)
    (hts : ∀ t ∈ ts, t.Short) (h : ts.foldlM Json.step s = some s') : s'.Short := by
  induction ts generalizing s with
  | nil => exact Option.some.inj h ▸ hs
  | cons t ts ih =>
    obtain ⟨ht, hts⟩ := List.forall_mem_cons.mp hts
    rw [List.foldlM_cons] at h
    obtain ⟨next, hnext, h⟩ := Option.bind_eq_some_iff.mp h
    exact ih (hs.step ht hnext) hts h

/-- **All whole numbers of a value that was read from text have decimal texts.** -/
theorem short_of_read? {s : Text} {v : Value} (h : read? s = some v) : v.Short := by
  obtain ⟨ts, hts, h⟩ := Option.bind_eq_some_iff.mp h
  unfold ofTokens? at h
  split at h
  · next w hend =>
    obtain rfl := Option.some.inj h
    have hstart : State.Short (.value []) := nofun
    exact (hstart.foldlM_step (short_of_scan hts) hend).1
  · cases h

/-! ### Numbers read back -/

open Text (ofChars)

/-- A value may end in front of a comma or a blank. -/
def Ends (rest : Text) : Prop :=
  ∀ p ∈ rest.head?, p = ',' ∨ p.is isBlank = true

theorem ends_comma (rest : Text) : Ends (.char ',' :: rest) := by
  rintro _ ⟨⟩
  exact .inl rfl

theorem ends_newline (depth : Nat) (rest : Text) : Ends (newline depth ++ rest) := by
  rintro _ ⟨⟩
  exact .inr rfl

/-- What stands where a value ends does not go on with a number. -/
theorem Ends.stops {rest : Text} (h : Ends rest) {p : Point} (hp : p ∈ rest.head?) :
    p.is Char.isDigit = false ∧ p ≠ '.' ∧ p ≠ 'e' ∧ p ≠ 'E' := by
  have hblank (c : Char) (hc : isBlank c = true) :
      c.isDigit = false ∧ c ≠ '.' ∧ c ≠ 'e' ∧ c ≠ 'E' := by
    simp only [isBlank, Bool.or_eq_true, beq_iff_eq] at hc
    rcases hc with ((rfl | rfl) | rfl) | rfl <;> decide
  rcases h p hp with rfl | hc
  · decide
  · cases p with
    | half n => cases hc
    | char c =>
      obtain ⟨hdigit, hothers⟩ := hblank c hc
      exact ⟨hdigit, by simpa using hothers⟩

theorem natOf_ofChars (cs : List Char) : natOf (ofChars cs) = Nat.ofDigitChars 10 cs 0 := by
  rw [natOf, ofChars, List.foldl_map, Nat.ofDigitChars_eq_foldl]
  congr 1
  funext n c
  rw [Nat.mul_comm]
  rfl

theorem isDigit_of_mem_toDigits {n : Nat} :
    ∀ p ∈ ofChars (Nat.toDigits 10 n), p.is Char.isDigit = true := by
  intro p hp
  obtain ⟨c, hc, rfl⟩ := List.mem_map.mp hp
  exact Nat.isDigit_of_mem_toDigits (by decide) (by decide) hc

/-- Only the zero is written with a zero in front. -/
theorem eq_zero_of_toDigits {n : Nat} {cs : List Char} (h : Nat.toDigits 10 n = '0' :: cs) :
    cs = [] := by
  have hvalue : natOf (ofChars cs) = n := by
    rw [natOf_ofChars, ← Nat.ofDigitChars_ten_toDigits (n := n), h, Nat.ofDigitChars_cons]
    rfl
  have hdigits : ∀ p ∈ ofChars cs, p.is Char.isDigit = true := fun p hp =>
    isDigit_of_mem_toDigits (n := n) p (h ▸ List.mem_cons_of_mem _ hp)
  have hlt := natOf_lt hdigits
  rw [hvalue, ofChars, List.length_map] at hlt
  by_contra hne
  have hlength := (Nat.length_toDigits_le_iff (by decide) (List.length_pos_iff.mpr hne)).mpr hlt
  rw [h, List.length_cons] at hlength
  omega

theorem whole?_toDigits {n : Nat} {rest : Text} (h : Ends rest) :
    whole? (ofChars (Nat.toDigits 10 n) ++ rest) = some (ofChars (Nat.toDigits 10 n), rest) := by
  have hstops : ∀ p ∈ rest.head?, p.is Char.isDigit = false := fun p hp => (h.stops hp).1
  cases hds : Nat.toDigits 10 n with
  | nil => exact absurd hds Nat.toDigits_ne_nil
  | cons c cs =>
    by_cases hc : c = '0'
    · subst hc
      rw [eq_zero_of_toDigits hds]
      rfl
    · have hdigits := isDigit_of_mem_toDigits (n := n)
      rw [hds] at hdigits
      have hfirst : (Point.char c).is Char.isDigit = true := hdigits _ List.mem_cons_self
      show whole? (.char c :: (ofChars cs ++ rest)) = _
      rw [whole?, if_pos hfirst]
      · show some (digits (ofChars (c :: cs) ++ rest)) = _
        rw [digits, takeWhile_run hdigits hstops, dropWhile_run hdigits hstops]
      · rintro ⟨⟩
        exact hc rfl

theorem length_toDigits_le {n limit : Nat} (hlimit : 0 < limit) (h : n < Nat.pow 10 limit) :
    (ofChars (Nat.toDigits 10 n)).length ≤ limit := by
  rw [ofChars, List.length_map]
  exact (Nat.length_toDigits_le_iff (by decide) hlimit).mpr h

theorem unsigned?_toDigits {negative : Bool} {n : Nat} (hn : n < Nat.pow 10 Numeral.decimalLimit)
    {rest : Text} (h : Ends rest) :
    unsigned? negative (ofChars (Nat.toDigits 10 n) ++ rest) =
      some (.int (if negative then -(n : Int) else n), rest) := by
  have hfraction : fraction rest = ([], rest) := by
    unfold fraction
    split
    · exact absurd rfl (h.stops rfl).2.1
    · rfl
  have hexponent : exponent rest = (none, rest) := by
    unfold exponent
    split
    · have hstops := (h.stops rfl).2.2
      rw [if_neg (not_or.mpr hstops)]
    · rfl
  have hlength := length_toDigits_le (by decide) hn
  rw [unsigned?, whole?_toDigits h, Option.bind_some]
  dsimp only
  rw [hfraction]
  dsimp only
  rw [hexponent]
  dsimp only
  rw [List.isEmpty_nil, Option.isNone_none, Bool.and_true, if_pos rfl, if_pos hlength,
    natOf_ofChars, Nat.ofDigitChars_ten_toDigits]

theorem next?_digit {c : Char} (hc : c.isDigit = true) (rest : Text) :
    next? (.char c :: rest) =
        (unsigned? false (.char c :: rest)).map (fun (v, rest) => (.atom v, rest)) ∧
      next? (.char '-' :: .char c :: rest) =
        (unsigned? true (.char c :: rest)).map fun (v, rest) => (.atom v, rest) := by
  obtain ⟨d, hd, rfl⟩ : ∃ d < 10, c = Char.ofNat (48 + d) := by
    simp only [Char.isDigit, Bool.and_eq_true, decide_eq_true_eq] at hc
    have hge : 48 ≤ c.toNat := UInt32.le_iff_toNat_le.mp hc.1
    have hle : c.toNat ≤ 57 := UInt32.le_iff_toNat_le.mp hc.2
    refine ⟨c.toNat - 48, by omega, ?_⟩
    rw [show 48 + (c.toNat - 48) = c.toNat by omega, Char.ofNat_toNat]
  interval_cases d <;> exact ⟨rfl, rfl⟩

theorem toList_toString_ofNat (m : Nat) : (toString (Int.ofNat m)).toList = Nat.toDigits 10 m :=
  Nat.toList_repr

theorem toList_toString_negSucc (m : Nat) :
    (toString (Int.negSucc m)).toList = '-' :: Nat.toDigits 10 (m + 1) := by
  rw [Int.toString_eq_repr]
  simp [Int.repr]

/-- A whole number is read as it was written. -/
theorem next?_toString {n : Int} (hn : Numeral.Short n) {rest : Text} (h : Ends rest) :
    next? (Text.ofString (toString n) ++ rest) = some (.atom (.int n), rest) := by
  have hlead (m : Nat) : ∃ c cs, Nat.toDigits 10 m = c :: cs ∧ c.isDigit = true := by
    obtain ⟨c, cs, hds⟩ := List.exists_cons_of_ne_nil (Nat.toDigits_ne_nil (n := m) (b := 10))
    exact ⟨c, cs, hds, Nat.isDigit_of_mem_toDigits (by decide) (by decide)
      (hds ▸ List.mem_cons_self)⟩
  cases n with
  | ofNat m =>
    have hwritten : Text.ofString (toString (Int.ofNat m)) = ofChars (Nat.toDigits 10 m) :=
      congrArg ofChars (toList_toString_ofNat m)
    obtain ⟨c, cs, hds, hc⟩ := hlead m
    have hread : unsigned? false _ = _ := unsigned?_toDigits (n := m) hn h
    rw [hwritten]
    rw [hds] at hread ⊢
    show next? (.char c :: (ofChars cs ++ rest)) = _
    rw [(next?_digit hc _).1]
    exact congrArg _ hread
  | negSucc m =>
    have hwritten : Text.ofString (toString (Int.negSucc m)) =
        .char '-' :: ofChars (Nat.toDigits 10 (m + 1)) :=
      congrArg ofChars (toList_toString_negSucc m)
    obtain ⟨c, cs, hds, hc⟩ := hlead (m + 1)
    have hread : unsigned? true _ = _ := unsigned?_toDigits (n := m + 1) hn h
    rw [hwritten]
    rw [hds] at hread ⊢
    show next? (.char '-' :: .char c :: (ofChars cs ++ rest)) = _
    rw [(next?_digit hc _).2]
    exact congrArg _ hread

end UpgradeSafety.Json
