import Mathlib.Data.List.Basic
import Mathlib.Data.List.TakeWhile
import Mathlib.Data.Nat.Digits.Defs
import UpgradeSafety.Number.Numeral
import UpgradeSafety.Proofs.Runs

/-! What a numeral in ASCII spells. Its digits stand in a row with single underscores between them
(`Grouped`), and the number is their positional value with the sign, if there is one (`Spells`). The
white space around it is no part of it (`Trimmed`). A numeral is read exactly if it spells a number,
and as that number (`read?_eq_some_iff`). -/
namespace UpgradeSafety.Numeral
open Text

/-- A character is the digit of a number below a base of at most sixteen, a letter in either case. -/
def IsDigit (base : Nat) (c : Char) (d : Nat) : Prop :=
  d < base ∧ (c = Nat.digitChar d ∨ c = (Nat.digitChar d).toUpper)

instance (base : Nat) (c : Char) (d : Nat) : Decidable (IsDigit base c d) :=
  inferInstanceAs (Decidable (_ ∧ _))

/-- Digits with single underscores between them. -/
inductive Grouped (base : Nat) : List Char → List Nat → Prop where
  | last {c : Char} {d : Nat} (h : IsDigit base c d) : Grouped base [c] [d]
  | next {c : Char} {d : Nat} {cs : List Char} {ds : List Nat} (h : IsDigit base c d)
      (hrest : Grouped base cs ds) : Grouped base (c :: cs) (d :: ds)
  | parted {c : Char} {d : Nat} {cs : List Char} {ds : List Nat} (h : IsDigit base c d)
      (hrest : Grouped base cs ds) : Grouped base (c :: '_' :: cs) (d :: ds)

/-- Characters spell a number: decimal digits, not too many of them, that may have a sign, or
hexadecimal digits after `0x`, with an underscore between the two or none. -/
inductive Spells : List Char → Int → Prop where
  | unsigned {cs : List Char} {ds : List Nat} (h : Grouped 10 cs ds) (hlimit : ds.length ≤ 4300) :
      Spells cs (Nat.ofDigits 10 ds.reverse : Nat)
  | plus {cs : List Char} {ds : List Nat} (h : Grouped 10 cs ds) (hlimit : ds.length ≤ 4300) :
      Spells ('+' :: cs) (Nat.ofDigits 10 ds.reverse : Nat)
  | minus {cs : List Char} {ds : List Nat} (h : Grouped 10 cs ds) (hlimit : ds.length ≤ 4300) :
      Spells ('-' :: cs) (-(Nat.ofDigits 10 ds.reverse : Nat))
  | hexadecimal {x : Char} {mark cs : List Char} {ds : List Nat} (hx : x = 'x' ∨ x = 'X')
      (hmark : mark = [] ∨ mark = ['_']) (h : Grouped 16 cs ds) :
      Spells ('0' :: x :: (mark ++ cs)) (Nat.ofDigits 16 ds.reverse : Nat)

/-- The characters within the white space at both ends. -/
structure Trimmed (cs rest : List Char) : Prop where
  within : ∃ before after, cs = before ++ rest ++ after ∧
    (∀ c ∈ before, isBlank c = true) ∧ ∀ c ∈ after, isBlank c = true
  head : ∀ c ∈ rest.head?, isBlank c = false
  last : ∀ c ∈ rest.getLast?, isBlank c = false

/-! ### Digits -/

section Digits
variable {base : Nat} {c : Char} {d : Nat}

private theorem decimalValue?_digitChar : ∀ d < 10,
    decimalValue? (Nat.digitChar d) = some d ∧ decimalValue? (Nat.digitChar d).toUpper = some d := by
  decide

private theorem hexValue?_digitChar : ∀ d < 16,
    hexValue? (Nat.digitChar d) = some d ∧ hexValue? (Nat.digitChar d).toUpper = some d := by
  decide

private theorem isDigit_of_ascii : ∀ n < 0x80,
    (∀ d ∈ decimalValue? (Char.ofNat n), IsDigit 10 (Char.ofNat n) d) ∧
      ∀ d ∈ hexValue? (Char.ofNat n), IsDigit 16 (Char.ofNat n) d := by
  decide +kernel

theorem decimalValue?_eq_some_iff (hc : c.toNat < 0x80) :
    decimalValue? c = some d ↔ IsDigit 10 c d := by
  constructor
  · intro h
    rw [← Char.ofNat_toNat c] at h ⊢
    exact (isDigit_of_ascii c.toNat hc).1 d h
  · intro h
    obtain ⟨hd, rfl | rfl⟩ := h
    · exact (decimalValue?_digitChar d hd).1
    · exact (decimalValue?_digitChar d hd).2

theorem hexValue?_eq_some_iff (hc : c.toNat < 0x80) : hexValue? c = some d ↔ IsDigit 16 c d := by
  constructor
  · intro h
    rw [← Char.ofNat_toNat c] at h ⊢
    exact (isDigit_of_ascii c.toNat hc).2 d h
  · intro h
    obtain ⟨hd, rfl | rfl⟩ := h
    · exact (hexValue?_digitChar d hd).1
    · exact (hexValue?_digitChar d hd).2

theorem IsDigit.ne_underscore (h : IsDigit base c d) (hbase : base ≤ 16) : c ≠ '_' := by
  have hnone : ∀ d < 16, Nat.digitChar d ≠ '_' ∧ (Nat.digitChar d).toUpper ≠ '_' := by decide
  obtain ⟨hd, rfl | rfl⟩ := h
  · exact (hnone d (Nat.lt_of_lt_of_le hd hbase)).1
  · exact (hnone d (Nat.lt_of_lt_of_le hd hbase)).2

/-- The value of digits is that of their positions, counted from the last one. -/
theorem value_eq_ofDigits (base : Nat) (ds : List Nat) :
    value base ds = Nat.ofDigits base ds.reverse := by
  rw [Nat.ofDigits_eq_foldr, List.foldr_reverse]
  unfold value
  congr 1
  funext n d
  rw [Nat.add_comm, Nat.mul_comm]
  rfl

/-- No group of digits starts with an underscore, nor with anything else that is no digit. -/
theorem Grouped.head {cs : List Char} {ds : List Nat} (h : Grouped base cs ds) :
    ∃ c d rest, cs = c :: rest ∧ IsDigit base c d := by
  cases h with
  | last h => exact ⟨_, _, _, rfl, h⟩
  | next h => exact ⟨_, _, _, rfl, h⟩
  | parted h => exact ⟨_, _, _, rfl, h⟩

theorem grouped?_eq_some_iff {digit? : Char → Option Nat} {cs : List Char} {ds : List Nat}
    (hbase : base ≤ 16) (hdigit : ∀ c ∈ cs, ∀ d, digit? c = some d ↔ IsDigit base c d) :
    grouped? digit? cs = some ds ↔ Grouped base cs ds := by
  induction cs using grouped?.induct generalizing ds with
  | case1 => exact ⟨nofun, nofun⟩
  | case2 c =>
    rw [grouped?, Option.map_eq_some_iff]
    constructor
    · intro h
      obtain ⟨d, hd, rfl⟩ := h
      exact .last ((hdigit c List.mem_cons_self d).mp hd)
    · intro h
      cases h with
      | last h => exact ⟨_, (hdigit c List.mem_cons_self _).mpr h, rfl⟩
      | next _ hrest => cases hrest
  | case3 c rest ih =>
    obtain ⟨hc, hcs⟩ := List.forall_mem_cons.mp hdigit
    rw [grouped?, Option.bind_eq_some_iff]
    simp only [Option.map_eq_some_iff, ih (List.forall_mem_cons.mp hcs).2, hc]
    constructor
    · intro h
      obtain ⟨d, hd, ds, hrest, rfl⟩ := h
      exact .parted hd hrest
    · intro h
      cases h with
      | parted hd hrest => exact ⟨_, hd, _, hrest, rfl⟩
      | next _ hrest =>
        obtain ⟨_, _, _, heq, hd⟩ := hrest.head
        exact absurd (List.cons.inj heq).1.symm (hd.ne_underscore hbase)
  | case4 c next rest hnext ih =>
    obtain ⟨hc, hcs⟩ := List.forall_mem_cons.mp hdigit
    rw [grouped?, Option.bind_eq_some_iff]
    swap
    · exact hnext
    simp only [Option.map_eq_some_iff, ih hcs, hc]
    constructor
    · intro h
      obtain ⟨d, hd, ds, hrest, rfl⟩ := h
      exact .next hd hrest
    · intro h
      cases h with
      | next hd hrest => exact ⟨_, hd, _, hrest, rfl⟩
      | parted => exact absurd rfl hnext

end Digits

/-! ### Numerals -/

section Numerals
variable {cs : List Char} {ds : List Nat}

theorem grouped?_decimal_iff (hascii : ∀ c ∈ cs, c.toNat < 0x80) :
    grouped? decimalValue? cs = some ds ↔ Grouped 10 cs ds :=
  grouped?_eq_some_iff (by decide) fun c hc _ => decimalValue?_eq_some_iff (hascii c hc)

theorem grouped?_hexadecimal_iff (hascii : ∀ c ∈ cs, c.toNat < 0x80) :
    grouped? hexValue? cs = some ds ↔ Grouped 16 cs ds :=
  grouped?_eq_some_iff (by decide) fun c hc _ => hexValue?_eq_some_iff (hascii c hc)

theorem map_decimal?_eq_some_iff (hascii : ∀ c ∈ cs, c.toNat < 0x80) {f : Nat → Int} {n : Int} :
    (decimal? cs).map f = some n ↔
      ∃ ds, Grouped 10 cs ds ∧ ds.length ≤ 4300 ∧ f (Nat.ofDigits 10 ds.reverse) = n := by
  simp only [decimal?, Option.map_bind, Option.bind_eq_some_iff, grouped?_decimal_iff hascii,
    decimalLimit, Function.comp_apply, value_eq_ofDigits]
  refine exists_congr fun ds => and_congr_right fun _ => ?_
  split <;> simp [*]

theorem map_hexadecimal?_eq_some_iff (hascii : ∀ c ∈ cs, c.toNat < 0x80) {f : Nat → Int} {n : Int} :
    (hexadecimal? cs).map f = some n ↔ ∃ mark rest ds, cs = mark ++ rest ∧
      (mark = [] ∨ mark = ['_']) ∧ Grouped 16 rest ds ∧ f (Nat.ofDigits 16 ds.reverse) = n := by
  constructor
  · intro h
    obtain ⟨_, hn, rfl⟩ := Option.map_eq_some_iff.mp h
    unfold hexadecimal? at hn
    split at hn
    · next rest =>
      obtain ⟨ds, hds, rfl⟩ := Option.map_eq_some_iff.mp hn
      have hrest := (List.forall_mem_cons.mp hascii).2
      exact ⟨['_'], rest, ds, rfl, .inr rfl, (grouped?_hexadecimal_iff hrest).mp hds,
        congrArg f (value_eq_ofDigits 16 ds).symm⟩
    · obtain ⟨ds, hds, rfl⟩ := Option.map_eq_some_iff.mp hn
      exact ⟨[], cs, ds, rfl, .inl rfl, (grouped?_hexadecimal_iff hascii).mp hds,
        congrArg f (value_eq_ofDigits 16 ds).symm⟩
  · intro h
    obtain ⟨mark, rest, ds, rfl, hmark, hds, rfl⟩ := h
    rw [← value_eq_ofDigits]
    have hread : grouped? hexValue? rest = some ds :=
      (grouped?_hexadecimal_iff (List.forall_mem_append.mp hascii).2).mpr hds
    rcases hmark with rfl | rfl
    · obtain ⟨c, _, _, rfl, hc⟩ := hds.head
      rw [List.nil_append, hexadecimal?, hread, Option.map_some, Option.map_some]
      intro _ heq
      exact hc.ne_underscore (by decide) (List.cons.inj heq).1
    · rw [List.singleton_append, hexadecimal?, hread, Option.map_some, Option.map_some]

/-- No group of decimal digits starts with a sign or with the mark of a hexadecimal numeral. -/
theorem Grouped.head_notMem {c : Char} (h : Grouped 10 (c :: cs) ds) :
    c ∉ ['+', '-', 'x', 'X'] := by
  have hnone : ∀ d < 10, Nat.digitChar d ∉ ['+', '-', 'x', 'X'] ∧
      (Nat.digitChar d).toUpper ∉ ['+', '-', 'x', 'X'] := by decide
  obtain ⟨_, d, _, heq, hd, hc⟩ := h.head
  obtain ⟨rfl, -⟩ := List.cons.inj heq
  rcases hc with rfl | rfl
  · exact (hnone d hd).1
  · exact (hnone d hd).2

theorem Grouped.second_notMem {c x : Char} (h : Grouped 10 (c :: x :: cs) ds) :
    x ∉ ['+', '-', 'x', 'X'] := by
  cases h with
  | next _ hrest => exact hrest.head_notMem
  | parted => decide

/-- Without a mark, what is read is a decimal numeral with its sign. -/
theorem ofChars?_unmarked (h : ∀ x rest, cs = '0' :: x :: rest → x ∉ ['+', '-', 'x', 'X']) :
    ofChars? cs = signed? cs := by
  unfold ofChars?
  split
  · next rest => exact absurd (by decide) (h 'x' rest rfl)
  · next rest => exact absurd (by decide) (h 'X' rest rfl)
  · rfl

theorem signed?_unsigned (h : ∀ c rest, cs = c :: rest → c ∉ ['+', '-', 'x', 'X']) :
    signed? cs = (decimal? cs).map fun (n : Nat) => (n : Int) := by
  unfold signed?
  split
  · next rest => exact absurd (by decide) (h '-' rest rfl)
  · next rest => exact absurd (by decide) (h '+' rest rfl)
  · rfl

/-- Characters are read as the number that they spell. -/
theorem ofChars?_eq_some_iff (hascii : ∀ c ∈ cs, c.toNat < 0x80) {n : Int} :
    ofChars? cs = some n ↔ Spells cs n := by
  constructor
  · intro h
    unfold ofChars? at h
    split at h
    · next rest =>
      obtain ⟨mark, rest, ds, rfl, hmark, hds, rfl⟩ :=
        (map_hexadecimal?_eq_some_iff fun c hc => hascii c (by simp [hc])).mp h
      exact .hexadecimal (.inl rfl) hmark hds
    · next rest =>
      obtain ⟨mark, rest, ds, rfl, hmark, hds, rfl⟩ :=
        (map_hexadecimal?_eq_some_iff fun c hc => hascii c (by simp [hc])).mp h
      exact .hexadecimal (.inr rfl) hmark hds
    · unfold signed? at h
      split at h
      · obtain ⟨ds, hds, hlimit, rfl⟩ :=
          (map_decimal?_eq_some_iff (List.forall_mem_cons.mp hascii).2).mp h
        exact .minus hds hlimit
      · obtain ⟨ds, hds, hlimit, rfl⟩ :=
          (map_decimal?_eq_some_iff (List.forall_mem_cons.mp hascii).2).mp h
        exact .plus hds hlimit
      · obtain ⟨ds, hds, hlimit, rfl⟩ := (map_decimal?_eq_some_iff hascii).mp h
        exact .unsigned hds hlimit
  · intro h
    cases h with
    | unsigned h hlimit =>
      rw [ofChars?_unmarked fun x rest heq => (heq ▸ h).second_notMem,
        signed?_unsigned fun c rest heq => (heq ▸ h).head_notMem]
      exact (map_decimal?_eq_some_iff hascii).mpr ⟨_, h, hlimit, rfl⟩
    | plus h hlimit =>
      rw [ofChars?_unmarked fun _ _ heq => absurd (List.cons.inj heq).1 (by decide), signed?]
      exact (map_decimal?_eq_some_iff (List.forall_mem_cons.mp hascii).2).mpr ⟨_, h, hlimit, rfl⟩
    | minus h hlimit =>
      rw [ofChars?_unmarked fun _ _ heq => absurd (List.cons.inj heq).1 (by decide), signed?]
      exact (map_decimal?_eq_some_iff (List.forall_mem_cons.mp hascii).2).mpr ⟨_, h, hlimit, rfl⟩
    | @hexadecimal x mark cs ds hx hmark h =>
      have hrest : ∀ c ∈ mark ++ cs, c.toNat < 0x80 := fun c hc => hascii c (by simp [hc])
      rcases hx with rfl | rfl
      all_goals exact (map_hexadecimal?_eq_some_iff hrest).mpr ⟨mark, cs, ds, rfl, hmark, h, rfl⟩

end Numerals

/-! ### White space -/

/-- White space is dropped from the end, and from nowhere else. -/
theorem trimEnd_spec (cs : List Char) : ∃ after, cs = trimEnd cs ++ after ∧
    (∀ c ∈ after, isBlank c = true) ∧ ∀ c ∈ (trimEnd cs).getLast?, isBlank c = false := by
  have hsplit : cs.reverse.takeWhile isBlank ++ cs.reverse.dropWhile isBlank = cs.reverse :=
    List.takeWhile_append_dropWhile
  refine ⟨(cs.reverse.takeWhile isBlank).reverse, ?_, fun c hc => ?_, fun c hc => ?_⟩
  · rw [trimEnd, ← List.reverse_append, hsplit, List.reverse_reverse]
  · exact List.all_eq_true.mp List.all_takeWhile c (List.mem_reverse.mp hc)
  · rw [trimEnd, List.getLast?_reverse] at hc
    exact head?_dropWhile _ c hc

/-- What is kept of characters stands within white space, and has none at its ends. -/
theorem trimmed_trimChars (cs : List Char) : Trimmed cs (trimChars cs) := by
  obtain ⟨after, hsplit, hafter, hlast⟩ := trimEnd_spec (cs.dropWhile isBlank)
  refine ⟨⟨cs.takeWhile isBlank, after, ?_, ?_, hafter⟩, fun c hc => ?_, hlast⟩
  · rw [trimChars, List.append_assoc, ← hsplit, List.takeWhile_append_dropWhile]
  · exact List.all_eq_true.mp List.all_takeWhile
  · have hhead : c ∈ (cs.dropWhile isBlank).head? :=
      hsplit ▸ List.mem_head?_append_of_mem_head? hc
    exact head?_dropWhile _ c hhead

/-- There is one way only to drop the white space. -/
theorem Trimmed.trimChars_eq {cs rest : List Char} (h : Trimmed cs rest) : trimChars cs = rest := by
  obtain ⟨before, after, rfl, hbefore, hafter⟩ := h.within
  unfold trimChars
  rw [List.append_assoc, List.dropWhile_append_of_pos hbefore]
  cases rest with
  | nil =>
    rw [List.nil_append, List.dropWhile_eq_nil_iff.mpr hafter]
    rfl
  | cons c rest =>
    have hkept : (c :: rest ++ after).dropWhile isBlank = c :: rest ++ after :=
      List.dropWhile_cons_of_neg (by simp [h.head c rfl])
    rw [hkept, trimEnd, List.reverse_append,
      List.dropWhile_append_of_pos fun c hc => hafter c (List.mem_reverse.mp hc)]
    exact trimEnd_of_not_isBlank h.last

theorem read?_eq_some_iff {s : String} (hascii : ∀ c ∈ s.toList, c.toNat < 0x80) {n : Int} :
    read? s = some n ↔ ∃ rest, Trimmed s.toList rest ∧ Spells rest n := by
  have hread {rest : List Char} (h : Trimmed s.toList rest) :
      ofChars? rest = some n ↔ Spells rest n := by
    obtain ⟨before, after, hsplit, -, -⟩ := h.within
    exact ofChars?_eq_some_iff fun c hc => hascii c (by rw [hsplit]; simp [hc])
  rw [read?_ofString]
  constructor
  · intro h
    have htrimmed := trimmed_trimChars s.toList
    exact ⟨_, htrimmed, (hread htrimmed).mp h⟩
  · intro h
    obtain ⟨rest, htrimmed, hspells⟩ := h
    rw [htrimmed.trimChars_eq]
    exact (hread htrimmed).mpr hspells

end UpgradeSafety.Numeral
