import Mathlib.Data.List.Forall2
import UpgradeSafety.Layout.TypeId
import UpgradeSafety.Proofs.Runs

/-! The pieces that an id is cut into. What a numbered declaration looks like is said apart from how
it is read (`Piece.Numbered`), and an id is cut at those that are met from the left (`Cut`), in one
way (`cut_pieces`, `Cut.pieces_eq`). What is kept of a declaration ends with its only closing bracket,
and what follows its number is no digit. So no declaration comes to have a number when numbers are
left out or written anew (`Cut.startsNumbered`): without its numbers an id has no numbered
declaration left (`Cut.not_startsNumbered_kept`), and which numbers it had does not matter
(`Cut.renumber`). It is a normal form (`strip_normal_form`). -/
namespace UpgradeSafety.TypeId

/-! ### Numbered declarations -/

theorem toNat_lt_of_isAlphanum {c : Char} (h : c.isAlphanum = true) : c.toNat < 0x80 := by
  change (decide (c.val ≥ 'A'.val ∧ c.val ≤ 'Z'.val) || (c.val ≥ 'a'.val && c.val ≤ 'z'.val) ||
    (c.val ≥ '0'.val && c.val ≤ '9'.val)) = true at h
  simp only [Bool.or_eq_true, Bool.and_eq_true, decide_eq_true_eq, UInt32.le_iff_toNat_le,
    ge_iff_le] at h
  have hc : c.toNat = c.val.toNat := rfl
  have hZ : 'Z'.val.toNat = 90 := rfl
  have hz : 'z'.val.toNat = 122 := rfl
  have h9 : '9'.val.toNat = 57 := rfl
  omega

theorem isDecimal_of_isDigit {p : Point} (h : p.is Char.isDigit = true) : isDecimal p = true := by
  cases p with
  | half n => cases h
  | char c =>
    change c.isDigit = true at h
    have halphanum : (c.isAlpha || c.isDigit) = true := by rw [h, Bool.or_true]
    have hascii : c.toNat < 0x80 := toNat_lt_of_isAlphanum halphanum
    simp [isDecimal, Point.is, Text.isDecimal, Text.decimalValue?, hascii, h]

namespace Piece

/-- The text that a piece was cut from. -/
def chars (p : Piece) : Text :=
  p.kept ++ p.digits

/-- A mark, a kind, a capitalised name in brackets, and a number after it. -/
inductive Numbered : Piece → Prop where
  | mk {kind name digits : Text} {capital : Point} (hne : kind ≠ [])
      (hkind : ∀ c ∈ kind, isKindChar c = true) (hcapital : isUpper capital = true)
      (hname : ∀ c ∈ name, isWordChar c = true) (hdigits : digits ≠ [])
      (hdecimal : ∀ c ∈ digits, isDecimal c = true) :
      Numbered ⟨.char 't' :: .char '_' :: kind ++ .char '(' :: capital :: name ++ [.char ')'],
        digits⟩

variable {p : Piece}

theorem Numbered.withDigits (h : p.Numbered) {digits : Text} (hdigits : digits ≠ [])
    (hdecimal : ∀ c ∈ digits, isDecimal c = true) : Numbered ⟨p.kept, digits⟩ := by
  cases h with
  | mk hne hkind hcapital hname => exact .mk hne hkind hcapital hname hdigits hdecimal

theorem Numbered.digits_ne_nil (h : p.Numbered) : p.digits ≠ [] := by
  cases h with
  | mk _ _ _ _ hdigits => exact hdigits

theorem Numbered.isDecimal (h : p.Numbered) : ∀ c ∈ p.digits, isDecimal c = true := by
  cases h with
  | mk _ _ _ _ _ hdecimal => exact hdecimal

theorem Numbered.exists_digit (h : p.Numbered) :
    ∃ d digits, p.digits = d :: digits ∧ TypeId.isDecimal d = true := by
  obtain ⟨d, digits, hdigits⟩ := List.exists_cons_of_ne_nil h.digits_ne_nil
  exact ⟨d, digits, hdigits, h.isDecimal d (hdigits ▸ List.mem_cons_self)⟩

theorem Numbered.head? (h : p.Numbered) : p.kept.head? = some (.char 't') := by
  cases h with
  | mk => rfl

/-- What is kept of a declaration ends with its only closing bracket. -/
theorem Numbered.exists_stem (h : p.Numbered) :
    ∃ stem, p.kept = stem ++ [.char ')'] ∧ .char ')' ∉ stem := by
  cases h with
  | @mk kind name digits capital _ hkind hcapital hname =>
    refine ⟨.char 't' :: .char '_' :: kind ++ .char '(' :: capital :: name, rfl, ?_⟩
    have hclosing : .char ')' ≠ capital := by
      rintro rfl
      exact absurd hcapital (by decide)
    simp only [List.mem_cons, List.mem_append, not_or]
    have hkind' : .char ')' ∉ kind := fun hmem => absurd (hkind _ hmem) (by decide)
    have hname' : .char ')' ∉ name := fun hmem => absurd (hname _ hmem) (by decide)
    exact ⟨⟨by decide, by decide, hkind'⟩, by decide, hclosing, hname'⟩

end Piece

/-- A numbered declaration is at the start of a text. -/
def StartsNumbered (cs : Text) : Prop :=
  ∃ p after, Piece.Numbered p ∧ cs = p.chars ++ after

section Reading
variable {p : Piece} {kept rest cs after : Text}

/-- The number that is read is the whole run of digits. -/
theorem numbered_eq_some_iff :
    numbered kept rest = some (p, after) ↔ p.kept = kept ∧ p.digits ≠ [] ∧
      (∀ c ∈ p.digits, isDecimal c = true) ∧ (∀ c ∈ after.head?, isDecimal c = false) ∧
      rest = p.digits ++ after := by
  constructor
  · intro h
    unfold numbered at h
    dsimp only at h
    split at h
    · cases h
    · next hdigits =>
      obtain ⟨rfl, rfl⟩ := Prod.mk.inj (Option.some.inj h)
      exact ⟨rfl, by simpa using hdigits, List.all_eq_true.mp List.all_takeWhile,
        head?_dropWhile rest, List.takeWhile_append_dropWhile.symm⟩
  · intro h
    obtain ⟨rfl, hdigits, hdecimal, hafter, rfl⟩ := h
    unfold numbered
    rw [takeWhile_run hdecimal hafter, dropWhile_run hdecimal hafter]
    simp only [List.isEmpty_iff, hdigits, if_false]

/-- What is read as a declaration is one, with its whole number. -/
theorem declaration?_spec (h : declaration? cs = some (p, after)) :
    p.Numbered ∧ (∀ c ∈ after.head?, isDecimal c = false) ∧ cs = p.chars ++ after := by
  have happend := (declaration?_append h).symm
  unfold declaration? at h
  split at h
  · next rest =>
    dsimp only at h
    split at h
    · cases h
    · next c tail hdrop hne =>
      split at h
      · next hcapital =>
        split at h
        · next last hname =>
          obtain ⟨hkept, hdigits, hdecimal, hafter, -⟩ := numbered_eq_some_iff.mp h
          obtain ⟨kept, digits⟩ := p
          obtain rfl : kept = _ := hkept
          refine ⟨?_, hafter, happend⟩
          exact .mk hne (List.all_eq_true.mp List.all_takeWhile) hcapital
            (List.all_eq_true.mp List.all_takeWhile) hdigits hdecimal
        · cases h
      · cases h
    · cases h
  · cases h

/-- A declaration with its whole number is read. -/
theorem declaration?_of_numbered (h : p.Numbered)
    (hafter : ∀ c ∈ after.head?, isDecimal c = false) :
    declaration? (p.chars ++ after) = some (p, after) := by
  cases h with
  | @mk kind name digits capital hne hkind hcapital hname hdigits hdecimal =>
    have hopen : ∀ c ∈ (.char '(' :: capital :: (name ++ .char ')' :: (digits ++ after))).head?,
        isKindChar c = false := by
      rintro _ ⟨⟩
      rfl
    have hclose : ∀ c ∈ (.char ')' :: (digits ++ after)).head?, isWordChar c = false := by
      rintro _ ⟨⟩
      rfl
    have hnumber (kept : Text) :
        numbered kept (digits ++ after) = some (⟨kept, digits⟩, after) :=
      numbered_eq_some_iff.mpr ⟨rfl, hdigits, hdecimal, hafter, rfl⟩
    have hchars :
        Piece.chars ⟨.char 't' :: .char '_' :: kind ++ .char '(' :: capital :: name ++
          [.char ')'], digits⟩ ++ after =
          .char 't' :: .char '_' :: (kind ++ .char '(' :: capital ::
            (name ++ .char ')' :: (digits ++ after))) := by
      simp [Piece.chars]
    rw [hchars, declaration?]
    simp only [takeWhile_run hkind hopen, dropWhile_run hkind hopen, hcapital, if_true,
      takeWhile_run hname hclose, dropWhile_run hname hclose, hnumber]

theorem startsNumbered_iff : StartsNumbered cs ↔ ∃ p after, declaration? cs = some (p, after) := by
  constructor
  · intro h
    obtain ⟨p, after, hp, rfl⟩ := h
    -- the number goes on to the end of its run
    have hnumber : ∀ c ∈ p.digits ++ after.takeWhile isDecimal, isDecimal c = true :=
      List.forall_mem_append.mpr ⟨hp.isDecimal, List.all_eq_true.mp List.all_takeWhile⟩
    have hwhole := hp.withDigits (List.append_ne_nil_of_left_ne_nil hp.digits_ne_nil _) hnumber
    have hsplit : p.chars ++ after =
        Piece.chars ⟨p.kept, p.digits ++ after.takeWhile isDecimal⟩ ++
          after.dropWhile isDecimal := by
      simp [Piece.chars, List.takeWhile_append_dropWhile]
    exact ⟨_, _, hsplit ▸ declaration?_of_numbered hwhole (head?_dropWhile after)⟩
  · intro h
    obtain ⟨p, after, hsome⟩ := h
    obtain ⟨hp, -, heq⟩ := declaration?_spec hsome
    exact ⟨p, after, hp, heq⟩

theorem pieces_of_declaration (h : declaration? cs = some (p, after)) :
    pieces cs = p :: pieces after := by
  cases cs with
  | nil => cases h
  | cons c rest =>
    rw [pieces]
    split
    · next h' =>
      obtain ⟨rfl, rfl⟩ := Prod.mk.inj (Option.some.inj (h.symm.trans h'))
      rfl
    · next h' => cases h.symm.trans h'

theorem pieces_cons {c : Point} (h : declaration? (c :: rest) = none) :
    pieces (c :: rest) = ⟨[c], []⟩ :: pieces rest := by
  rw [pieces]
  split
  · next h' => cases h.symm.trans h'
  · rfl

end Reading

/-! ### Cuts -/

/-- The first closing bracket of a text. -/
theorem bracket_unique {stem stem' rest rest' : Text} (h : .char ')' ∉ stem)
    (h' : .char ')' ∉ stem') (heq : stem ++ .char ')' :: rest = stem' ++ .char ')' :: rest') :
    stem = stem' ∧ rest = rest' := by
  have hother {cs : Text} (h : .char ')' ∉ cs) : ∀ c ∈ cs, (c != .char ')') = true := fun c hc =>
    bne_iff_ne.mpr fun heq => h (heq ▸ hc)
  obtain ⟨hstem, hrest⟩ := run_unique (hother h) (by rintro _ ⟨⟩; rfl) (hother h')
    (by rintro _ ⟨⟩; rfl) heq
  exact ⟨hstem, (List.cons.inj hrest).2⟩

/-- A text cut at the numbered declarations that are met from the left, each with its whole number.
All other characters are pieces of their own. -/
inductive Cut : Text → List Piece → Prop where
  | nil : Cut [] []
  | declaration {p : Piece} {after : Text} {ps : List Piece} (hp : p.Numbered)
      (hafter : ∀ c ∈ after.head?, isDecimal c = false) (h : Cut after ps) :
      Cut (p.chars ++ after) (p :: ps)
  | plain {c : Point} {rest : Text} {ps : List Piece} (hnone : ¬StartsNumbered (c :: rest))
      (h : Cut rest ps) : Cut (c :: rest) (⟨[c], []⟩ :: ps)

/-- The text that pieces were cut from. -/
def join (ps : List Piece) : Text :=
  ps.flatMap Piece.chars

theorem join_cons (p : Piece) (ps : List Piece) :
    join (p :: ps) = p.kept ++ (p.digits ++ join ps) := by
  simp [join, Piece.chars]

theorem cut_pieces (cs : Text) : Cut cs (pieces cs) := by
  fun_induction pieces cs with
  | case1 => exact .nil
  | case2 c rest p after h ih =>
    obtain ⟨hp, hafter, heq⟩ := declaration?_spec h
    rw [heq]
    exact .declaration hp hafter ih
  | case3 c rest h ih =>
    refine .plain (fun hstarts => ?_) ih
    obtain ⟨p, after, hsome⟩ := startsNumbered_iff.mp hstarts
    cases h.symm.trans hsome

namespace Piece

/-- The same piece but for its number, which may be left out. -/
structure Varies (p q : Piece) : Prop where
  kept : q.kept = p.kept
  bare : p.digits = [] → q.digits = []
  decimal : ∀ c ∈ q.digits, isDecimal c = true

/-- The same piece but for its number, which is written in ASCII digits. -/
structure Renumbered (p q : Piece) : Prop where
  kept : q.kept = p.kept
  bare : q.digits = [] ↔ p.digits = []
  isDigit : ∀ c ∈ q.digits, c.is Char.isDigit = true

theorem Renumbered.varies {p q : Piece} (h : p.Renumbered q) : p.Varies q :=
  ⟨h.kept, h.bare.mpr, fun c hc => isDecimal_of_isDigit (h.isDigit c hc)⟩

/-- A piece without its number. -/
def withoutDigits (p : Piece) : Piece :=
  ⟨p.kept, []⟩

theorem varies_withoutDigits (p : Piece) : p.Varies p.withoutDigits :=
  ⟨rfl, fun _ => rfl, nofun⟩

end Piece

namespace Cut
variable {cs : Text} {ps qs : List Piece}

/-- There is one way to cut a text. -/
theorem pieces_eq (h : Cut cs ps) : pieces cs = ps := by
  induction h with
  | nil => rw [pieces]
  | declaration hp hafter _ ih =>
    rw [pieces_of_declaration (declaration?_of_numbered hp hafter), ih]
  | @plain c rest ps hnone _ ih =>
    have hread : declaration? (c :: rest) = none := by
      cases hread : declaration? (c :: rest) with
      | none => rfl
      | some found => exact absurd (startsNumbered_iff.mpr ⟨_, _, hread⟩) hnone
    rw [pieces_cons hread, ih]

theorem strip_eq (h : Cut cs ps) : strip cs = ps.flatMap Piece.kept := by
  rw [strip, h.pieces_eq]

/-- A text starts with the same character whatever its numbers are. -/
theorem head?_join (h : Cut cs ps) (hqs : List.Forall₂ Piece.Varies ps qs) :
    (join qs).head? = cs.head? := by
  cases h with
  | nil =>
    cases hqs
    rfl
  | declaration hp =>
    cases hqs with
    | cons hq => simp [join, Piece.chars, hq.kept, hp.head?]
  | plain =>
    cases hqs with
    | cons hq => simp [join, Piece.chars, hq.kept]

/-- A first closing bracket that has a number after it when other numbers are written has one in the
text as well. -/
theorem exists_number (h : Cut cs ps) (hqs : List.Forall₂ Piece.Varies ps qs)
    {stem more : Text} {d : Point} (hstem : .char ')' ∉ stem) (hd : isDecimal d = true)
    (heq : join qs = stem ++ .char ')' :: d :: more) :
    ∃ d' more', isDecimal d' = true ∧ cs = stem ++ .char ')' :: d' :: more' := by
  induction h generalizing qs stem with
  | nil =>
    cases hqs
    simp [join] at heq
  | @declaration p after ps hp _ _ _ =>
    cases hqs with
    | @cons _ q _ qs hq _ =>
      -- the bracket is that of the declaration, which has a number
      obtain ⟨stem', hkept, hstem'⟩ := hp.exists_stem
      obtain ⟨d', digits, hdigits, hd'⟩ := hp.exists_digit
      have hjoin : stem' ++ .char ')' :: (q.digits ++ join qs) =
          stem ++ .char ')' :: d :: more := by
        rw [← heq, join_cons, hq.kept, hkept, List.append_assoc]
        rfl
      obtain ⟨rfl, -⟩ := bracket_unique hstem' hstem hjoin
      refine ⟨d', digits ++ after, hd', ?_⟩
      simp [Piece.chars, hkept, hdigits]
  | @plain c rest ps _ hrest ih =>
    cases hqs with
    | @cons _ q _ qs hq hqs =>
      have hjoin : c :: join qs = stem ++ .char ')' :: d :: more := by
        rw [← heq, join_cons, hq.kept, hq.bare rfl]
        rfl
      cases stem with
      | nil =>
        obtain ⟨rfl, htail⟩ := List.cons.inj hjoin
        have hhead := hrest.head?_join hqs
        rw [htail] at hhead
        obtain ⟨rest', rfl⟩ := List.head?_eq_some_iff.mp hhead.symm
        exact ⟨d, rest', hd, rfl⟩
      | cons b stem =>
        obtain ⟨rfl, htail⟩ := List.cons.inj hjoin
        have hstem' : .char ')' ∉ stem := fun hmem => hstem (List.mem_cons_of_mem c hmem)
        obtain ⟨d', more', hd', rfl⟩ := ih hqs hstem' htail
        exact ⟨d', more', hd', rfl⟩

/-- No other numbers let a text start with a numbered declaration. -/
theorem startsNumbered (h : Cut cs ps) (hqs : List.Forall₂ Piece.Varies ps qs)
    (hstarts : StartsNumbered (join qs)) : StartsNumbered cs := by
  obtain ⟨p, after, hp, heq⟩ := hstarts
  obtain ⟨stem, hkept, hstem⟩ := hp.exists_stem
  obtain ⟨d, digits, hdigits, hd⟩ := hp.exists_digit
  have hjoin : join qs = stem ++ .char ')' :: d :: (digits ++ after) := by
    simp [heq, Piece.chars, hkept, hdigits]
  obtain ⟨d', more, hd', rfl⟩ := h.exists_number hqs hstem hd hjoin
  have hp' : Piece.Numbered ⟨p.kept, [d']⟩ :=
    hp.withDigits (List.cons_ne_nil d' []) (List.forall_mem_singleton.mpr hd')
  exact ⟨_, more, hp', by simp [Piece.chars, hkept]⟩

theorem join_withoutDigits (ps : List Piece) :
    join (ps.map Piece.withoutDigits) = ps.flatMap Piece.kept := by
  simp [join, List.flatMap_map, Piece.chars, Piece.withoutDigits]

theorem forall₂_withoutDigits (ps : List Piece) :
    List.Forall₂ Piece.Varies ps (ps.map Piece.withoutDigits) := by
  rw [List.forall₂_map_right_iff]
  exact List.forall₂_same.mpr fun p _ => p.varies_withoutDigits

/-- What ends with the bracket of a declaration is no numbered declaration when the number is left
out. -/
theorem not_startsNumbered_bracket {rest init : Text} (h : Cut rest ps)
    (hrest : ∀ c ∈ rest.head?, isDecimal c = false) (hinit : .char ')' ∉ init) :
    ¬StartsNumbered (init ++ .char ')' :: ps.flatMap Piece.kept) := by
  intro hstarts
  obtain ⟨p, after, hp, heq⟩ := hstarts
  obtain ⟨stem, hkept, hstem⟩ := hp.exists_stem
  obtain ⟨d, digits, hdigits, hd⟩ := hp.exists_digit
  have hsplit : init ++ .char ')' :: ps.flatMap Piece.kept =
      stem ++ .char ')' :: d :: (digits ++ after) := by
    simpa [Piece.chars, hkept, hdigits] using heq
  obtain ⟨-, hnumber⟩ := bracket_unique hinit hstem hsplit
  have hhead := h.head?_join (forall₂_withoutDigits ps)
  rw [join_withoutDigits, hnumber] at hhead
  have hnone := hrest d hhead.symm
  rw [hd] at hnone
  cases hnone

/-- Without its numbers a text has no numbered declaration. -/
theorem not_startsNumbered_kept (h : Cut cs ps) {before rest : Text}
    (hsplit : ps.flatMap Piece.kept = before ++ rest) : ¬StartsNumbered rest := by
  induction h generalizing before with
  | nil =>
    obtain ⟨-, rfl⟩ := List.append_eq_nil_iff.mp hsplit.symm
    intro hstarts
    obtain ⟨p, after, hp, heq⟩ := hstarts
    have hnil : p.kept = [] ∧ p.digits = [] ∧ after = [] := by
      simpa [Piece.chars] using heq.symm
    exact hp.digits_ne_nil hnil.2.1
  | @plain c _ ps hnone h ih =>
    rw [List.flatMap_cons] at hsplit
    cases before with
    | nil =>
      obtain rfl : _ = rest := hsplit
      refine fun hstarts => hnone ((Cut.plain hnone h).startsNumbered (forall₂_withoutDigits _) ?_)
      rw [join_withoutDigits]
      exact hstarts
    | cons b before => exact ih (List.cons.inj hsplit).2
  | @declaration p _ ps hp hafter h ih =>
    rw [List.flatMap_cons] at hsplit
    rcases List.append_eq_append_iff.mp hsplit with ⟨more, rfl, htail⟩ | ⟨last, hkept, rfl⟩
    · exact ih htail
    · -- what is left of the declaration is nothing, or ends with its bracket
      obtain rfl | ⟨init, b, rfl⟩ := List.eq_nil_or_concat' last
      · exact ih (List.nil_append _).symm
      · obtain ⟨stem, hstem, hnot⟩ := hp.exists_stem
        rw [hstem, ← List.append_assoc] at hkept
        obtain ⟨rfl, hb⟩ := List.append_inj' hkept rfl
        obtain rfl := (List.cons.inj hb).1
        rw [List.append_assoc]
        exact h.not_startsNumbered_bracket hafter fun hmem => hnot (List.mem_append_right _ hmem)

/-- Where there is no numbered declaration nothing is left out. -/
theorem flatMap_kept_eq_self (h : Cut cs ps)
    (hnone : ∀ before rest, cs = before ++ rest → ¬StartsNumbered rest) :
    ps.flatMap Piece.kept = cs := by
  induction h with
  | nil => rfl
  | @declaration p after _ hp => exact absurd ⟨p, after, hp, rfl⟩ (hnone [] _ rfl)
  | @plain c _ _ _ _ ih =>
    refine congrArg (List.cons c) (ih fun before rest hsplit => ?_)
    exact hnone (c :: before) rest (congrArg (List.cons c) hsplit)

/-- Pieces with other numbers are what their text is cut into. -/
theorem renumber (h : Cut cs ps) (hqs : List.Forall₂ Piece.Renumbered ps qs) :
    Cut (join qs) qs := by
  induction h generalizing qs with
  | nil =>
    cases hqs
    exact .nil
  | @declaration p _ _ hp hafter hrest ih =>
    cases hqs with
    | @cons _ q _ qs hq hqs =>
      have hnumbered : q.Numbered := by
        obtain ⟨kept, digits⟩ := q
        obtain rfl : kept = p.kept := hq.kept
        exact hp.withDigits (fun hnil => hp.digits_ne_nil (hq.bare.mp hnil)) hq.varies.decimal
      have hhead := hrest.head?_join (hqs.imp fun _ _ => Piece.Renumbered.varies)
      exact .declaration hnumbered (hhead ▸ hafter) (ih hqs)
  | @plain c rest ps hnone hrest ih =>
    cases hqs with
    | @cons _ q _ qs hq hqs =>
      obtain ⟨kept, digits⟩ := q
      obtain rfl : kept = [c] := hq.kept
      obtain rfl : digits = [] := hq.bare.mpr rfl
      refine .plain (fun hstarts => hnone ?_) (ih hqs)
      exact (Cut.plain hnone hrest).startsNumbered
        (.cons hq.varies (hqs.imp fun _ _ => Piece.Renumbered.varies)) hstarts

theorem flatMap_kept_renumbered (hqs : List.Forall₂ Piece.Renumbered ps qs) :
    qs.flatMap Piece.kept = ps.flatMap Piece.kept := by
  induction hqs with
  | nil => rfl
  | cons hq _ ih => rw [List.flatMap_cons, List.flatMap_cons, hq.kept, ih]

end Cut

/-! ### Ids without numbers -/

/-- **An id is cut in one way at the numbers of its declarations. Without them no declaration in it
has a number, so nothing more is left out the next time. Put in again where they were cut out they
make the id, and other numbers in their places leave the same without them.** -/
theorem strip_normal_form (id : Text) :
    ∃ ps, Cut id ps ∧ (∀ qs, Cut id qs → qs = ps) ∧
      strip id = ps.flatMap Piece.kept ∧ id = join ps ∧
      (∀ before p after, Piece.Numbered p → strip id ≠ before ++ (p.chars ++ after)) ∧
      strip (strip id) = strip id ∧
      ∀ qs, List.Forall₂ Piece.Renumbered ps qs → strip (join qs) = strip id := by
  have hcut := cut_pieces id
  have hkept := hcut.strip_eq
  have hnone (before rest : Text) (hsplit : strip id = before ++ rest) :
      ¬StartsNumbered rest :=
    hcut.not_startsNumbered_kept (hkept ▸ hsplit)
  refine ⟨_, hcut, fun qs hqs => hqs.pieces_eq.symm, hkept, (flatMap_pieces _).symm,
    fun before p after hp hsplit => hnone before _ hsplit ⟨p, after, hp, rfl⟩, ?_, fun qs hqs => ?_⟩
  · have hcut' := cut_pieces (strip id)
    rw [hcut'.strip_eq]
    exact hcut'.flatMap_kept_eq_self hnone
  · rw [(hcut.renumber hqs).strip_eq, hkept]
    exact Cut.flatMap_kept_renumbered hqs

/-- Two declarations, and after the first one a bracket with a number that is not its own. -/
theorem strip_normal_form_sides :
    strip "t_enum(Side)12)3,t_enum(Kind)7" = "t_enum(Side))3,t_enum(Kind)" ∧
      strip "t_enum(Side)9)3,t_enum(Kind)41" = "t_enum(Side))3,t_enum(Kind)" ∧
      strip "t_enum(Side))3,t_enum(Kind)" = "t_enum(Side))3,t_enum(Kind)" := by
  obtain ⟨ps, -, hunique, -, -, -, hagain, hother⟩ :=
    strip_normal_form "t_enum(Side)12)3,t_enum(Kind)7"
  have hstrip : strip "t_enum(Side)12)3,t_enum(Kind)7" = "t_enum(Side))3,t_enum(Kind)" := by
    decide +kernel
  have hpieces : pieces "t_enum(Side)12)3,t_enum(Kind)7" =
      [⟨"t_enum(Side)", "12"⟩, ⟨[.char ')'], []⟩, ⟨"3", []⟩, ⟨[.char ','], []⟩,
        ⟨"t_enum(Kind)", "7"⟩] := by
    decide +kernel
  obtain rfl := hunique _ (hpieces ▸ cut_pieces _)
  have hplain (c : Point) : Piece.Renumbered ⟨[c], []⟩ ⟨[c], []⟩ := ⟨rfl, Iff.rfl, nofun⟩
  have hrenumbered := hother
    [⟨"t_enum(Side)", "9"⟩, ⟨[.char ')'], []⟩, ⟨"3", []⟩, ⟨[.char ','], []⟩,
      ⟨"t_enum(Kind)", "41"⟩]
    (.cons ⟨rfl, by decide, List.all_eq_true.mp rfl⟩ (.cons (hplain (.char ')'))
      (.cons (hplain (.char '3')) (.cons (hplain (.char ','))
        (.cons ⟨rfl, by decide, List.all_eq_true.mp rfl⟩ .nil)))))
  rw [hstrip] at hagain
  exact ⟨hstrip, hrenumbered.trans hstrip, hagain⟩

end UpgradeSafety.TypeId
