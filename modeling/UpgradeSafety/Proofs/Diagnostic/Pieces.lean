import Mathlib.Data.List.Infix
import UpgradeSafety.Diagnostic.Mask
import UpgradeSafety.Proofs.Runs

/-! A source cut into its comments and strings and the characters between them. Reading from the
start, a comment or a string is taken whole wherever one begins (`Cut`), and the masked text shows a
blank for each of its characters and every other character as it is (`mask_of_cut`). Line ends stand
in the masked text where they stand in the source, and what is no blank there has been left as it was
(`mask_blanks`). -/
namespace UpgradeSafety.Source

/-- What may stand between two quotes: a backslash with any character after it, and any other
character but the quote and a line end. -/
inductive Quotable (quote : Char) : List Char → Prop where
  | nil : Quotable quote []
  | escaped (c : Char) {cs : List Char} (h : Quotable quote cs) : Quotable quote ('\\' :: c :: cs)
  | plain {c : Char} {cs : List Char} (hquote : c ≠ quote) (hescape : c ≠ '\\') (hline : c ≠ '\n')
      (h : Quotable quote cs) : Quotable quote (c :: cs)

/-- A comment or a string, and the text that comes after it. -/
inductive Hides : List Char → List Char → Prop where
  /-- A comment goes up to the end of its line. -/
  | line {body rest : List Char} (hbody : '\n' ∉ body) (hrest : ∀ c ∈ rest.head?, c = '\n') :
      Hides ('/' :: '/' :: body) rest
  /-- A comment in brackets goes up to the first that closes. -/
  | block {body rest : List Char} (hbody : ¬['*', '/'] <:+: body) :
      Hides ('/' :: '*' :: (body ++ ['*', '/'])) rest
  | string {quote : Char} {body rest : List Char} (hquote : quote = '\"' ∨ quote = '\'')
      (hbody : Quotable quote body) : Hides (quote :: (body ++ [quote])) rest

/-! ### The length of a comment or a string -/

section Length
variable {quote : Char} {body rest cs : List Char}

theorem lineLength_append (hbody : '\n' ∉ body) (hrest : ∀ c ∈ rest.head?, c = '\n') :
    lineLength (body ++ rest) = body.length := by
  induction body with
  | nil =>
    cases rest with
    | nil => rfl
    | cons c rest =>
      obtain rfl := hrest c rfl
      rfl
  | cons c body ih =>
    obtain ⟨hc, hbody⟩ := not_or.mp (mt List.mem_cons.mpr hbody)
    rw [List.cons_append, lineLength, ih hbody, List.length_cons]
    exact Ne.symm hc

theorem exists_line (cs : List Char) : ∃ body rest, cs = body ++ rest ∧ '\n' ∉ body ∧
    ∀ c ∈ rest.head?, c = '\n' := by
  refine ⟨cs.takeWhile (· != '\n'), cs.dropWhile (· != '\n'), List.takeWhile_append_dropWhile.symm,
    fun h => ?_, fun c hc => ?_⟩
  · simpa using List.all_eq_true.mp List.all_takeWhile _ h
  · simpa using head?_dropWhile cs c hc

theorem blockLength?_append (hbody : ¬['*', '/'] <:+: body) :
    blockLength? (body ++ ['*', '/'] ++ rest) = some (body.length + 2) := by
  induction body with
  | nil => rfl
  | cons c body ih =>
    -- the comment does not close here, so the character is one of it
    have hopen : ∀ tail, c = '*' → body ++ ['*', '/'] ++ rest ≠ '/' :: tail := by
      rintro tail rfl htail
      cases body with
      | nil => cases htail
      | cons d body =>
        obtain rfl : d = '/' := (List.cons.inj htail).1
        exact hbody ⟨[], body, rfl⟩
    have htail : ¬['*', '/'] <:+: body := fun h => hbody (h.trans (List.suffix_cons c body).isInfix)
    rw [List.cons_append, List.cons_append, blockLength?, ih htail]
    · rfl
    · exact hopen

theorem exists_block {n : Nat} (h : blockLength? cs = some n) :
    ∃ body rest, cs = body ++ ['*', '/'] ++ rest ∧ ¬['*', '/'] <:+: body := by
  induction cs generalizing n with
  | nil => cases h
  | cons c cs ih =>
    by_cases hclose : ∃ tail, c :: cs = '*' :: '/' :: tail
    · obtain ⟨tail, htail⟩ := hclose
      exact ⟨[], tail, htail, by simp⟩
    · rw [blockLength?] at h
      · obtain ⟨m, hm, -⟩ := Option.map_eq_some_iff.mp h
        obtain ⟨body, rest, rfl, hbody⟩ := ih hm
        refine ⟨c :: body, rest, rfl, fun hinfix => ?_⟩
        rcases List.infix_cons_iff.mp hinfix with ⟨tail, htail⟩ | hinfix
        · refine hclose ⟨tail ++ ['*', '/'] ++ rest, ?_⟩
          rw [← List.cons_append, ← List.cons_append, ← htail]
          rfl
        · exact hbody hinfix
      · rintro tail rfl rfl
        exact hclose ⟨tail, rfl⟩

theorem stringLength?_append (hquote : quote ≠ '\\') (hbody : Quotable quote body) :
    stringLength? quote (body ++ [quote] ++ rest) = some (body.length + 1) := by
  induction hbody with
  | nil =>
    rw [List.nil_append, List.singleton_append, stringLength?]
    · simp
    · rintro c tail rfl
      exact absurd rfl hquote
  | escaped c h ih =>
    simp only [List.cons_append, stringLength?, ih, Option.map_some, List.length_cons]
  | plain hne hescape hline h ih =>
    rw [List.cons_append, List.cons_append, stringLength?, ih]
    · simp [hne, hescape, hline]
    · rintro c tail rfl
      exact absurd rfl hescape

theorem exists_string {n : Nat} (h : stringLength? quote cs = some n) :
    ∃ body rest, cs = body ++ [quote] ++ rest ∧ Quotable quote body := by
  fun_induction stringLength? quote cs generalizing n with
  | case1 => cases h
  | case2 c rest ih =>
    obtain ⟨m, hm, -⟩ := Option.map_eq_some_iff.mp h
    obtain ⟨body, rest, rfl, hbody⟩ := ih hm
    exact ⟨'\\' :: c :: body, rest, rfl, .escaped c hbody⟩
  | case3 c rest _ hc =>
    obtain rfl := beq_iff_eq.mp hc
    exact ⟨[], rest, rfl, .nil⟩
  | case4 => cases h
  | case5 c rest _ hc hstop ih =>
    obtain ⟨m, hm, -⟩ := Option.map_eq_some_iff.mp h
    obtain ⟨body, rest, rfl, hbody⟩ := ih hm
    simp only [beq_iff_eq, Bool.or_eq_true, not_or] at hc hstop
    exact ⟨c :: body, rest, rfl, .plain hc hstop.1 hstop.2 hbody⟩

theorem exists_of_getD_ne_zero {o : Option Nat} {f : Nat → Nat} (h : (o.map f).getD 0 ≠ 0) :
    ∃ n, o = some n := by
  cases o with
  | none => exact absurd rfl h
  | some n => exact ⟨n, rfl⟩

/-- As many characters are hidden as the comment or string has. -/
theorem Hides.hiddenLength (h : Hides cs rest) : hiddenLength (cs ++ rest) = cs.length := by
  cases h with
  | line hbody hrest =>
    rw [List.cons_append, List.cons_append, Source.hiddenLength, lineLength_append hbody hrest]
    rfl
  | block hbody =>
    rw [List.cons_append, List.cons_append, Source.hiddenLength, blockLength?_append hbody]
    simp
  | string hquote hbody =>
    rcases hquote with rfl | rfl
    · rw [List.cons_append, Source.hiddenLength, stringLength?_append (by decide) hbody]
      simp
    · rw [List.cons_append, Source.hiddenLength, stringLength?_append (by decide) hbody]
      simp

/-- Characters are hidden only where a comment or a string begins. -/
theorem exists_hides (h : hiddenLength cs ≠ 0) :
    ∃ hidden rest, cs = hidden ++ rest ∧ Hides hidden rest := by
  unfold hiddenLength at h
  split at h
  · next rest =>
    obtain ⟨body, rest, rfl, hbody, hrest⟩ := exists_line rest
    exact ⟨_, rest, rfl, .line hbody hrest⟩
  · next rest =>
    obtain ⟨n, hn⟩ := exists_of_getD_ne_zero h
    obtain ⟨body, rest, rfl, hbody⟩ := exists_block hn
    exact ⟨_, rest, rfl, .block hbody⟩
  · next rest =>
    obtain ⟨n, hn⟩ := exists_of_getD_ne_zero h
    obtain ⟨body, rest, rfl, hbody⟩ := exists_string hn
    exact ⟨_, rest, rfl, .string (.inl rfl) hbody⟩
  · next rest =>
    obtain ⟨n, hn⟩ := exists_of_getD_ne_zero h
    obtain ⟨body, rest, rfl, hbody⟩ := exists_string hn
    exact ⟨_, rest, rfl, .string (.inr rfl) hbody⟩
  · exact absurd rfl h

end Length

/-! ### Cutting a text -/

/-- A comment or a string, or a character that stands for itself. -/
inductive Piece where
  | plain (c : Char)
  | hidden (cs : List Char)

def Piece.chars : Piece → List Char
  | .plain c => [c]
  | .hidden cs => cs

def Piece.shown : Piece → List Char
  | .plain c => [c]
  | .hidden cs => cs.map blank

/-- A text is cut from its start on, with a comment or a string wherever one begins. -/
inductive Cut : List Char → List Piece → Prop where
  | nil : Cut [] []
  | hidden {cs rest : List Char} {pieces : List Piece} (h : Hides cs rest) (hrest : Cut rest pieces) :
      Cut (cs ++ rest) (.hidden cs :: pieces)
  | plain {c : Char} {rest : List Char} {pieces : List Piece}
      (h : ∀ cs rest', c :: rest = cs ++ rest' → ¬Hides cs rest') (hrest : Cut rest pieces) :
      Cut (c :: rest) (.plain c :: pieces)

theorem Hides.length_pos {cs rest : List Char} (h : Hides cs rest) : 0 < cs.length := by
  cases h <;> exact Nat.succ_pos _

/-- Every text can be cut. -/
theorem exists_cut (cs : List Char) : ∃ pieces, Cut cs pieces := by
  induction hlength : cs.length using Nat.strong_induction_on generalizing cs with
  | _ n ih =>
    subst hlength
    by_cases h : ∃ hidden rest, cs = hidden ++ rest ∧ Hides hidden rest
    · obtain ⟨hidden, rest, rfl, hhides⟩ := h
      have hlt : rest.length < (hidden ++ rest).length := by
        rw [List.length_append]
        exact Nat.lt_add_of_pos_left hhides.length_pos
      obtain ⟨pieces, hpieces⟩ := ih _ hlt rest rfl
      exact ⟨_, .hidden hhides hpieces⟩
    · cases cs with
      | nil => exact ⟨[], .nil⟩
      | cons c rest =>
        obtain ⟨pieces, hpieces⟩ := ih _ (Nat.lt_succ_self _) rest rfl
        exact ⟨_, .plain (fun hidden rest' heq hhides => h ⟨hidden, rest', heq, hhides⟩) hpieces⟩

theorem maskFrom_append (cs rest : List Char) :
    maskFrom cs.length (cs ++ rest) = cs.map blank ++ maskFrom 0 rest := by
  induction cs with
  | nil => rfl
  | cons c cs ih => rw [List.length_cons, List.cons_append, maskFrom, ih]; rfl

theorem mask_of_hides {cs rest : List Char} (h : Hides cs rest) :
    mask (cs ++ rest) = cs.map blank ++ mask rest := by
  have hlength := h.hiddenLength
  cases cs with
  | nil => exact absurd h.length_pos (Nat.lt_irrefl 0)
  | cons c cs =>
    rw [List.cons_append] at hlength ⊢
    rw [mask, maskFrom, hlength]
    exact congrArg _ (maskFrom_append cs rest)

theorem mask_of_plain {c : Char} {rest : List Char}
    (h : ∀ cs rest', c :: rest = cs ++ rest' → ¬Hides cs rest') :
    mask (c :: rest) = c :: mask rest := by
  have hzero : hiddenLength (c :: rest) = 0 := by
    by_contra hne
    obtain ⟨hidden, rest', heq, hhides⟩ := exists_hides hne
    exact h hidden rest' heq hhides
  rw [mask, maskFrom, hzero]
  rfl

/-- The masked text shows the pieces of the source. -/
theorem mask_of_cut {cs : List Char} {pieces : List Piece} (h : Cut cs pieces) :
    cs = pieces.flatMap Piece.chars ∧ mask cs = pieces.flatMap Piece.shown := by
  induction h with
  | nil => exact ⟨rfl, rfl⟩
  | hidden h _ ih =>
    obtain ⟨hchars, hshown⟩ := ih
    rw [mask_of_hides h, hshown]
    exact ⟨congrArg _ hchars, rfl⟩
  | plain h _ ih =>
    obtain ⟨hchars, hshown⟩ := ih
    rw [mask_of_plain h, hshown]
    exact ⟨congrArg _ hchars, rfl⟩

/-- An index lies in one of the comments and strings. -/
def Covers (pieces : List Piece) (k : Nat) : Prop :=
  ∃ before cs after, pieces = before ++ .hidden cs :: after ∧
    (before.flatMap Piece.chars).length ≤ k ∧ k < (before.flatMap Piece.chars).length + cs.length

theorem length_flatMap_shown (pieces : List Piece) :
    (pieces.flatMap Piece.shown).length = (pieces.flatMap Piece.chars).length := by
  rw [List.length_flatMap, List.length_flatMap]
  congr 1
  refine List.map_congr_left fun piece _ => ?_
  cases piece with
  | plain c => rfl
  | hidden cs => exact List.length_map blank

theorem blank_eq (c : Char) : blank c = '\n' ∧ c = '\n' ∨ blank c = ' ' ∧ c ≠ '\n' := by
  by_cases h : c = '\n' <;> simp [blank, h]

/-- What a comment or a string covers is shown as blanks and line ends. -/
theorem Covers.shown_blank {pieces : List Piece} {k : Nat} (h : Covers pieces k) :
    (pieces.flatMap Piece.shown)[k]? = some ' ' ∨ (pieces.flatMap Piece.shown)[k]? = some '\n' := by
  obtain ⟨before, cs, after, rfl, hle, hlt⟩ := h
  rw [← length_flatMap_shown] at hle hlt
  obtain ⟨c, hc⟩ : ∃ c, cs[k - (before.flatMap Piece.shown).length]? = some c :=
    ⟨_, List.getElem?_eq_getElem (by omega)⟩
  have hplace : ((before ++ .hidden cs :: after).flatMap Piece.shown)[k]? = some (blank c) := by
    rw [List.flatMap_append, List.flatMap_cons, List.getElem?_append_right hle, Piece.shown,
      List.getElem?_append_left (by rw [List.length_map]; omega), List.getElem?_map, hc]
    rfl
  rw [hplace]
  rcases blank_eq c with h | h
  · exact .inr (congrArg some h.1)
  · exact .inl (congrArg some h.1)

/-! ### What masking keeps -/

/-- A text shows a source with blanks in the place of some characters, but not of line ends. -/
structure Blanks (source text : List Char) : Prop where
  length : text.length = source.length
  lines : ∀ i : Nat, text[i]? = some '\n' ↔ source[i]? = some '\n'
  kept : ∀ (i : Nat) (c : Char), source[i]? = some c → text[i]? = some c ∨ text[i]? = some ' '

theorem mask_blanks (cs : List Char) : Blanks cs (mask cs) where
  length := mask_length cs
  lines i := by
    rcases mask_kept_or_blank cs i with h | h
    · rw [h]
    · rw [h]
      cases cs[i]? with
      | none => simp
      | some c => rcases blank_eq c with ⟨hblank, rfl⟩ | ⟨hblank, hc⟩ <;> simp_all
  kept i c hc := by
    rcases mask_kept_or_blank cs i with h | h
    · exact .inl (h.trans hc)
    · rw [h, hc]
      rcases blank_eq c with ⟨hblank, rfl⟩ | ⟨hblank, -⟩
      · exact .inl (congrArg some hblank)
      · exact .inr (congrArg some hblank)

end UpgradeSafety.Source
