import UpgradeSafety.Proofs.Diagnostic.Ranges

/-! Definitions in whole names. A definition is a keyword and a name that both stand alone in the text,
with white space between them (`Declares`), and it starts with `abstract` where that stands before its
keyword (`StartsAt`). A search at word boundaries takes `$` for no part of a name: it comes to the first
of these definitions exactly if the name does not end in `$` and no match before it has one next to it
(`body_starts_at_declaration`). -/
namespace UpgradeSafety.Source

/-! ### Names and words -/

section Characters
variable {o : Option Char} {c : Char}

/-- No white space is a letter or number, of any script. -/
theorem isNameChar_of_isBlank (h : Text.isBlank c = true) : isNameChar c = false := by
  have hascii : ∀ n ∈ List.range' 0x09 5 ++ List.range' 0x1c 5, isNameChar (Char.ofNat n) = false := by
    decide
  have hranges : Text.wordRanges.all (fun r =>
      [(0x85, 0xa0), (0x1680, 0x1680), (0x2000, 0x205f), (0x3000, 0x3000)].all fun b =>
        r.2 < b.1 || b.2 < r.1) = true := by
    decide +kernel
  simp only [Text.isBlank, Bool.or_eq_true, Bool.and_eq_true, decide_eq_true_eq, beq_iff_eq] at h
  by_cases hlow : c.toNat < 0x80
  · rw [← Char.ofNat_toNat c]
    refine hascii _ ?_
    simp only [List.mem_append, List.mem_range'_1]
    omega
  · have hword : Text.isWordChar c = false := by
      rw [Text.isWordChar, if_neg hlow, ← Bool.not_eq_true, Text.inRanges_eq_true_iff]
      rintro ⟨r, hr, hfirst, hlast⟩
      have hapart := List.all_eq_true.mp hranges r hr
      simp only [List.all_cons, List.all_nil, Bool.and_eq_true, Bool.or_eq_true,
        decide_eq_true_eq] at hapart
      omega
    have hdollar : c ≠ '$' := by
      rintro rfl
      exact hlow (by decide)
    simp [isNameChar, hword, hdollar]

/-- No name is next to what is neither a word nor `$`. -/
theorem free_iff : Free o ↔ o.any Text.isWordChar = false ∧ o ≠ some '$' := by
  cases o with
  | none => simp [Free]
  | some c => simp [Free, isNameChar]

theorem isBoundary_iff {a b : Option Char} (ha : a.any Text.isWordChar = true) :
    isBoundary a b = true ↔ b.any Text.isWordChar = false := by
  rw [isBoundary, ha]
  cases b.any Text.isWordChar <;> decide

theorem isBoundary_comm (a b : Option Char) : isBoundary a b = isBoundary b a :=
  bne_comm

theorem isWordChar_of_isNameChar (h : isNameChar c = true) (hne : c ≠ '$') :
    Text.isWordChar c = true := by
  simpa [isNameChar, hne] using h

end Characters

/-! ### Declarations -/

/-- Two names that stand alone, with white space between them and nothing else. -/
structure Follows (cs a : List Char) (i : Nat) (b : List Char) (j : Nat) : Prop where
  first : Occurs cs a i
  second : Occurs cs b j
  gap : ∃ before gap after, cs = before ++ a ++ gap ++ b ++ after ∧ IsGap gap ∧ before.length = i ∧
    (before ++ a ++ gap).length = j

/-- A keyword stands at an index, with the name after it. -/
def Declares (cs name : List Char) (k : Nat) : Prop :=
  ∃ keyword ∈ keywords, ∃ j, Follows cs keyword k name j

/-- Where a definition starts that has its keyword at an index: there, or with the `abstract` before
it. -/
inductive StartsAt (cs : List Char) (k : Nat) : Nat → Prop where
  | abstract {start : Nat} (h : Follows cs "abstract".toList start "contract".toList k) :
      StartsAt cs k start
  | plain (h : ∀ start, ¬Follows cs "abstract".toList start "contract".toList k) : StartsAt cs k k

/-- A definition that stands alone: no name is next to its first word, and none to the name. -/
def Whole (name cs : List Char) (start stop : Nat) : Prop :=
  ∃ before opening gap after, cs = before ++ (opening ++ gap ++ name ++ after) ∧
    before.length = start ∧ stop = start + (opening ++ gap ++ name).length ∧ Opens opening ∧
    IsGap gap ∧ Free before.getLast? ∧ Free after.head?

section Gaps
variable {cs gap before rest a b t : List Char} {c : Char} {i j m : Nat}

theorem isGap_singleton (h : Text.isBlank c = true) : IsGap [c] :=
  ⟨List.cons_ne_nil c [], List.forall_mem_singleton.mpr h⟩

theorem IsGap.free_head (h : IsGap gap) : Free (gap ++ rest).head? := by
  obtain ⟨hne, hblank⟩ := h
  cases gap with
  | nil => exact absurd rfl hne
  | cons c gap => exact free_some (isNameChar_of_isBlank (hblank c List.mem_cons_self))

theorem IsGap.free_last (h : IsGap gap) : Free (before ++ gap).getLast? :=
  .append _ h.1 fun _ hc => isNameChar_of_isBlank (h.2 _ (List.mem_of_getLast? hc))

theorem IsName.exists_cons (h : IsName t) : ∃ c rest, t = c :: rest ∧ Text.isBlank c = false := by
  obtain ⟨c, rest, rfl⟩ := List.exists_cons_of_ne_nil h.ne_nil
  refine ⟨c, rest, rfl, Bool.eq_false_iff.mpr fun hblank => ?_⟩
  have hfree := isNameChar_of_isBlank hblank
  rw [h.chars c List.mem_cons_self] at hfree
  cases hfree

/-- No name starts between two that follow each other. -/
theorem Follows.le_or_le (h : Follows cs a i b j) (ht : Occurs cs t m) : m ≤ i ∨ j ≤ m := by
  by_contra hbetween
  obtain ⟨before, gap, after, rfl, hgap, rfl, rfl⟩ := h.gap
  simp only [List.length_append, not_or, not_le] at hbetween
  by_cases hinside : m ≤ before.length + a.length
  · -- it would start inside the first name
    obtain ⟨n, rfl⟩ : ∃ n, m = n + 1 := ⟨m - 1, by omega⟩
    obtain ⟨c, hc, hplace⟩ := h.first.exists_getElem? (j := n) (by omega) (by omega)
    have hfree := ht.free_getElem? c hplace
    rw [h.first.name.chars c hc] at hfree
    cases hfree
  · -- it would start with white space
    have hpos : 0 < t.length := List.length_pos_iff.mpr ht.name.ne_nil
    obtain ⟨c, hc, hplace⟩ := ht.exists_getElem? (j := m) (Nat.le_refl m) (by omega)
    rw [List.append_assoc, List.append_assoc, List.append_assoc, ← List.append_assoc before,
      List.getElem?_append_right (by simp; omega), List.getElem?_append_left (by simp; omega)] at hplace
    have hfree := isNameChar_of_isBlank (hgap.2 c (List.mem_of_getElem? hplace))
    rw [ht.name.chars c hc] at hfree
    cases hfree

theorem Follows.lt (h : Follows cs a i b j) : i < j := by
  obtain ⟨before, gap, after, rfl, hgap, rfl, rfl⟩ := h.gap
  have hpos : 0 < gap.length := List.length_pos_iff.mpr hgap.1
  simp only [List.length_append]
  omega

/-- A name that follows another follows no other. -/
theorem Follows.unique {a' : List Char} {i' : Nat} (h : Follows cs a i b j)
    (h' : Follows cs a' i' b j) : i = i' := by
  have := h.le_or_le h'.first
  have := h'.le_or_le h.first
  have := h.lt
  have := h'.lt
  omega

end Gaps

/-! ### Declarations and matches -/

section Declarations
variable {cs name before gap after : List Char} {k start stop start' stop' : Nat}

theorem isName_keyword {keyword : List Char} (h : keyword ∈ keywords) : IsName keyword := by
  simp only [keywords, List.mem_cons, List.not_mem_nil, or_false] at h
  rcases h with rfl | rfl | rfl <;> exact isName_of_all (by decide) (by decide)

theorem isName_abstract : IsName "abstract".toList := isName_of_all (by decide) (by decide)

theorem follows_append (before after : List Char) {a b : List Char} (ha : IsName a) (hb : IsName b)
    (hgap : IsGap gap) (hbefore : Free before.getLast?) (hafter : Free after.head?) :
    Follows (before ++ a ++ gap ++ b ++ after) a before.length b (before ++ a ++ gap).length where
  first := ⟨ha, before, gap ++ b ++ after, by simp, rfl, hbefore,
    by rw [List.append_assoc]; exact hgap.free_head⟩
  second := ⟨hb, before ++ a ++ gap, after, rfl, rfl, hgap.free_last, hafter⟩
  gap := ⟨before, gap, after, rfl, hgap, rfl, rfl⟩

/-- What is declared stands alone, from its start on. -/
theorem Declares.whole (h : Declares cs name k) (hstart : StartsAt cs k start) :
    ∃ stop, Whole name cs start stop := by
  obtain ⟨keyword, hkeyword, j, hfollows⟩ := h
  obtain ⟨before, gap, after, hcs, hgap, hk, hj⟩ := hfollows.gap
  subst hcs hk hj
  have hafter := hfollows.second.free_after
  cases hstart with
  | plain =>
    have hbefore : Free before.getLast? := by
      have hfirst := hfollows.first
      rw [List.append_assoc, List.append_assoc, List.append_assoc] at hfirst
      exact hfirst.free_before
    exact ⟨_, before, keyword, gap, after, by simp, rfl, rfl, .plain hkeyword, hgap, hbefore, hafter⟩
  | abstract habstract =>
    obtain rfl : keyword = "contract".toList := hfollows.first.unique habstract.second
    obtain ⟨before', gap', after', hcs, hgap', rfl, hk⟩ := habstract.gap
    have hbefore : Free before'.getLast? := by
      have hfirst := habstract.first
      rw [hcs, List.append_assoc, List.append_assoc, List.append_assoc] at hfirst
      exact hfirst.free_before
    -- what comes before the keyword ends with `abstract` and white space
    have hsplit : before' ++ "abstract".toList ++ gap' ++ ("contract".toList ++ after') =
        before ++ ("contract".toList ++ gap ++ name ++ after) := by
      simpa using hcs.symm
    obtain ⟨rfl, -⟩ := List.append_inj hsplit hk
    exact ⟨_, before', "abstract".toList ++ gap' ++ "contract".toList, gap, after, by simp, rfl, rfl,
      .abstract hgap', hgap, hbefore, hafter⟩

/-- What stands alone is declared, and starts with its keyword or with `abstract` before it. -/
theorem Whole.declares (hname : IsName name) (h : Whole name cs start stop) : ∃ k,
    Declares cs name k ∧
      (start = k ∨ Follows cs "abstract".toList start "contract".toList k) := by
  obtain ⟨before, opening, gap, after, rfl, rfl, -, hopens, hgap, hbefore, hafter⟩ := h
  cases hopens with
  | plain hkeyword =>
    have hfollows := follows_append before after (isName_keyword hkeyword) hname hgap hbefore hafter
    simp only [List.append_assoc] at hfollows ⊢
    exact ⟨_, ⟨opening, hkeyword, _, hfollows⟩, .inl rfl⟩
  | @abstract gap' hgap' =>
    have hcontract : "contract".toList ∈ keywords := by decide
    have hfirst := follows_append before (gap ++ (name ++ after)) isName_abstract
      (isName_keyword hcontract) hgap' hbefore hgap.free_head
    have hsecond := follows_append (before ++ "abstract".toList ++ gap') after
      (isName_keyword hcontract) hname hgap hgap'.free_last hafter
    simp only [List.append_assoc] at hfirst hsecond ⊢
    exact ⟨_, ⟨_, hcontract, _, hsecond⟩, .inr hfirst⟩

theorem StartsAt.le (h : StartsAt cs k start) : start ≤ k := by
  cases h with
  | abstract h => exact Nat.le_of_lt h.lt
  | plain => exact Nat.le_refl k

/-- The first declaration starts before all that stands alone. -/
theorem Whole.start_le (hname : IsName name) (h : Whole name cs start' stop')
    (hfirst : IsLeast {k | Declares cs name k} k) (hstart : StartsAt cs k start) : start ≤ start' := by
  obtain ⟨⟨keyword, -, j, hfollows⟩, hleast⟩ := hfirst
  obtain ⟨k', hdeclares, rfl | habstract⟩ := h.declares hname
  · exact Nat.le_trans hstart.le (hleast hdeclares)
  · rcases habstract.le_or_le hfollows.first with hle | hle
    · exact Nat.le_trans hstart.le hle
    · obtain rfl : k = k' := Nat.le_antisymm (hleast hdeclares) hle
      cases hstart with
      | plain hnone => exact absurd habstract (hnone start')
      | abstract habstract' => exact Nat.le_of_eq (habstract'.unique habstract)

/-- `$` stands next to a match, where a search at word boundaries takes no notice of it. -/
def Slips (cs : List Char) (start stop : Nat) : Prop :=
  (∃ i, start = i + 1 ∧ cs[i]? = some '$') ∨ cs[stop]? = some '$'

theorem slips_append_iff {t : List Char} :
    Slips (before ++ (t ++ after)) before.length (before.length + t.length) ↔
      before.getLast? = some '$' ∨ after.head? = some '$' := by
  refine or_congr ⟨?_, ?_⟩ ?_
  · rintro ⟨i, hi, hdollar⟩
    rw [List.getElem?_append_left (by omega)] at hdollar
    rwa [List.getLast?_eq_getElem?, hi, Nat.add_sub_cancel]
  · intro hdollar
    have hpos : 0 < before.length := by
      rw [List.length_pos_iff]
      rintro rfl
      cases hdollar
    refine ⟨before.length - 1, by omega, ?_⟩
    rwa [List.getElem?_append_left (by omega), ← List.getLast?_eq_getElem?]
  · rw [← List.append_assoc, ← List.length_append, List.getElem?_append_right (Nat.le_refl _),
      Nat.sub_self, List.head?_eq_getElem?]

theorem Opens.head {opening : List Char} (h : Opens opening) (rest : List Char) :
    (opening ++ rest).head?.any Text.isWordChar = true := by
  cases h with
  | plain h =>
    simp only [keywords, List.mem_cons, List.not_mem_nil, or_false] at h
    rcases h with rfl | rfl | rfl
    · exact (by decide : Text.isWordChar 'c' = true)
    · exact (by decide : Text.isWordChar 'l' = true)
    · exact (by decide : Text.isWordChar 'i' = true)
  | abstract => exact (by decide : Text.isWordChar 'a' = true)

/-- The matches that stand alone are those without `$` next to them. -/
theorem whole_iff (hname : IsName name) (hlast : name.getLast? ≠ some '$') :
    Whole name cs start stop ↔ Defines name cs start stop ∧ ¬Slips cs start stop := by
  have hword : name.getLast?.any Text.isWordChar = true := by
    cases hlast' : name.getLast? with
    | none => exact absurd (List.getLast?_eq_none_iff.mp hlast') hname.ne_nil
    | some c =>
      rw [hlast'] at hlast
      exact isWordChar_of_isNameChar (hname.chars c (List.mem_of_getLast? hlast'))
        (mt (congrArg some) hlast)
  constructor
  · rintro ⟨before, opening, gap, after, rfl, rfl, rfl, hopens, hgap, hbefore, hafter⟩
    obtain ⟨hbefore, hbefore'⟩ := free_iff.mp hbefore
    obtain ⟨hafter, hafter'⟩ := free_iff.mp hafter
    refine ⟨⟨before, _, opening, _, rfl, rfl, rfl, ?_, hopens, gap, after, hgap, rfl, ?_, rfl⟩, ?_⟩
    · rw [isBoundary_comm, List.append_assoc, List.append_assoc]
      exact (isBoundary_iff (hopens.head _)).mpr hbefore
    · exact (isBoundary_iff hword).mpr hafter
    · rw [slips_append_iff, not_or]
      exact ⟨hbefore', hafter'⟩
  · rintro ⟨⟨before, _, opening, _, rfl, rfl, rfl, hstart, hopens, gap, after, hgap, rfl, hstop, rfl⟩,
      hslips⟩
    rw [slips_append_iff, not_or] at hslips
    rw [isBoundary_comm, List.append_assoc, List.append_assoc, isBoundary_iff (hopens.head _)] at hstart
    rw [isBoundary_iff hword] at hstop
    exact ⟨before, opening, gap, after, rfl, rfl, rfl, hopens, hgap, free_iff.mpr ⟨hstart, hslips.1⟩,
      free_iff.mpr ⟨hstop, hslips.2⟩⟩

/-- After white space there is one text. -/
theorem IsGap.append_cancel {gap' a rest rest' : List Char} (hgap : IsGap gap) (hgap' : IsGap gap')
    (ha : IsName a) (h : gap ++ (a ++ rest) = gap' ++ (a ++ rest')) : rest = rest' := by
  obtain ⟨c, a, rfl, hc⟩ := ha.exists_cons
  obtain rfl : gap = gap' := by
    rw [← takeWhile_of_isGap hgap hc (a ++ rest), ← takeWhile_of_isGap hgap' hc (a ++ rest')]
    exact congrArg _ h
  exact List.append_cancel_left (List.append_cancel_left h)

/-- A text starts with one opening, and then the name is in one place. -/
theorem Opens.append_cancel {opening opening' gap' after' : List Char} (hname : IsName name)
    (hopens : Opens opening) (hopens' : Opens opening') (hgap : IsGap gap) (hgap' : IsGap gap')
    (h : opening ++ (gap ++ (name ++ after)) = opening' ++ (gap' ++ (name ++ after'))) :
    after = after' := by
  have hcontract : "contract".toList ∈ keywords := by decide
  have hnone : "abstract".toList ∉ keywords := by decide
  -- the first word of an opening ends where white space starts
  cases hopens with
  | plain hkeyword =>
    have hchars := (isName_keyword hkeyword).chars
    cases hopens' with
    | plain hkeyword' =>
      obtain ⟨rfl, -⟩ := run_unique hchars hgap.free_head (isName_keyword hkeyword').chars
        hgap'.free_head h
      exact hgap.append_cancel hgap' hname (List.append_cancel_left h)
    | abstract hblank =>
      rw [List.append_assoc, List.append_assoc] at h
      obtain ⟨rfl, -⟩ := run_unique hchars hgap.free_head isName_abstract.chars hblank.free_head h
      exact absurd hkeyword hnone
  | abstract hblank =>
    rw [List.append_assoc, List.append_assoc] at h
    cases hopens' with
    | plain hkeyword' =>
      obtain ⟨rfl, -⟩ := run_unique isName_abstract.chars hblank.free_head
        (isName_keyword hkeyword').chars hgap'.free_head h
      exact absurd hkeyword' hnone
    | abstract hblank' =>
      rw [List.append_assoc, List.append_assoc] at h
      exact hgap.append_cancel hgap' hname <|
        hblank.append_cancel hblank' (isName_keyword hcontract) (List.append_cancel_left h)

/-- No match at word boundaries ends with `$` where a name ends. -/
theorem Whole.not_defines (hname : IsName name) (hlast : name.getLast? = some '$')
    (h : Whole name cs start stop) : ¬Defines name cs start stop' := by
  rintro ⟨before', _, opening', _, hcs, hlength, rfl, -, hopens', gap', after', hgap', rfl, hboundary,
    rfl⟩
  obtain ⟨before, opening, gap, after, rfl, rfl, rfl, hopens, hgap, -, hafter⟩ := h
  obtain ⟨-, hrest⟩ := List.append_inj hcs hlength.symm
  simp only [List.append_assoc] at hrest
  obtain rfl := hopens.append_cancel hname hopens' hgap hgap' hrest
  rw [hlast, isBoundary, (free_iff.mp hafter).1] at hboundary
  exact absurd hboundary (by decide)

end Declarations

/-- **A contract starts with the first declaration of its name, exactly if `$` does not hide it.** The
keyword, the name and an `abstract` before them all stand alone, so that no definition of another name
is taken for this one. What can hide the declaration is a `$` at the end of the name, or one next to a
match before it. -/
theorem body_starts_at_declaration {source name : String} {k start : Nat} (hname : IsName name.toList)
    (hfirst : IsLeast {k | Declares (mask source.toList) name.toList k} k)
    (hstart : StartsAt (mask source.toList) k start) :
    (∃ l stop, Locator.ofSource source (some name) = .ok l ∧ l.body = some (start, stop)) ↔
      name.toList.getLast? ≠ some '$' ∧ ∀ start' stop',
        Defines name.toList (mask source.toList) start' stop' → start' < start →
          ¬Slips (mask source.toList) start' stop' := by
  obtain ⟨stop, hwhole⟩ := hfirst.1.whole hstart
  constructor
  · rintro ⟨l, stop', hl, hbody⟩
    obtain ⟨bounds, hsought, rfl⟩ := ofSource_eq_ok_iff.mp hl
    obtain rfl : bounds = some (start, stop') := hbody
    cases hsought with
    | within _ hmatch _ =>
      refine ⟨fun hlast => hwhole.not_defines hname hlast hmatch.defines, ?_⟩
      intro start' stop' hdefines hlt
      exact absurd (hmatch.first start' stop' hdefines) (Nat.not_le.mpr hlt)
  · rintro ⟨hlast, hslips⟩
    obtain ⟨hdefines, -⟩ := (whole_iff hname hlast).mp hwhole
    obtain ⟨start', nameEnd, hmatch⟩ := exists_isFirst hdefines
    obtain rfl : start' = start := by
      refine Nat.le_antisymm (hmatch.first start stop hdefines) ?_
      -- a match before the declaration would stand alone, and be a declaration itself
      by_contra hlt
      have hwhole' := (whole_iff hname hlast).mpr
        ⟨hmatch.defines, hslips start' nameEnd hmatch.defines (Nat.not_le.mp hlt)⟩
      exact hlt (hwhole'.start_le hname hfirst hstart)
    have hne : name ≠ "" := by
      rintro rfl
      exact hname.ne_nil rfl
    obtain ⟨stop', hends⟩ := exists_endsAt (mask source.toList) nameEnd
    exact ⟨_, stop', ofSource_eq_ok_iff.mpr ⟨_, .within hne hmatch hends, rfl⟩, rfl⟩

/-- A contract after one with a longer name. -/
def neighbours : String := "contract AB \x7b\x7d abstract contract A \x7b\x7d"

/-- The contract starts with its `abstract`, and not with the contract before it. -/
theorem body_starts_at_declaration_neighbours : ∃ l stop,
    Locator.ofSource neighbours (some "A") = .ok l ∧ l.body = some (15, stop) := by
  have hmask : mask neighbours.toList = "contract AB \x7b\x7d ".toList ++ "abstract".toList ++ [' '] ++
      "contract".toList ++ [' '] ++ "A".toList ++ " \x7b\x7d".toList := by
    decide +kernel
  have hnames : identifiers (mask neighbours.toList) = [⟨0, "contract".toList⟩, ⟨9, "AB".toList⟩,
      ⟨15, "abstract".toList⟩, ⟨24, "contract".toList⟩, ⟨33, "A".toList⟩] := by
    decide +kernel
  have hname : IsName "A".toList := isName_of_all (by decide) (by decide)
  have hcontract : "contract".toList ∈ keywords := by decide
  have hspace : IsGap [' '] := isGap_singleton (by decide)
  have hkeyword := follows_append ("contract AB \x7b\x7d ".toList ++ "abstract".toList ++ [' '])
    " \x7b\x7d".toList (isName_keyword hcontract) hname hspace hspace.free_last (free_some (by decide))
  have habstract := follows_append "contract AB \x7b\x7d ".toList
    ([' '] ++ ("A".toList ++ " \x7b\x7d".toList)) isName_abstract (isName_keyword hcontract) hspace
    (free_some (by decide)) hspace.free_head
  simp only [← List.append_assoc] at habstract
  rw [← hmask] at hkeyword habstract
  refine (body_starts_at_declaration hname ⟨⟨_, hcontract, _, hkeyword⟩, ?_⟩ (.abstract habstract)).mpr
    ⟨by decide, ?_⟩
  · rintro k ⟨keyword, hmem, j, hfollows⟩
    have hfirst := (mem_identifiers_iff ⟨k, keyword⟩).mpr hfollows.first
    have hsecond := (mem_identifiers_iff ⟨j, "A".toList⟩).mpr hfollows.second
    have hlonger := (mem_identifiers_iff ⟨9, "AB".toList⟩).mp (by rw [hnames]; decide)
    rw [hnames] at hfirst hsecond
    simp only [List.mem_cons, List.not_mem_nil, or_false, Name.mk.injEq] at hfirst
    rcases hfirst with ⟨rfl, -⟩ | ⟨-, rfl⟩ | ⟨-, rfl⟩ | ⟨rfl, -⟩ | ⟨-, rfl⟩
    · obtain rfl : j = 33 := by simpa using hsecond
      have hbetween : 9 ≤ 0 ∨ 33 ≤ 9 := hfollows.le_or_le hlonger
      omega
    · exact absurd hmem (by decide)
    · exact absurd hmem (by decide)
    · decide
    · exact absurd hmem (by decide)
  · rintro start' stop' - - (⟨i, -, hdollar⟩ | hdollar) <;>
      exact absurd (List.mem_of_getElem? hdollar) (by decide +kernel)

/-- The name of this contract ends in `$`, where a word does not. -/
def dollarName : String := "contract A$ \x7b uint x; \x7d"

/-- It is declared, and is not found. -/
theorem dollar_hides_declaration :
    IsLeast {k | Declares (mask dollarName.toList) "A$".toList k} 0 ∧
      StartsAt (mask dollarName.toList) 0 0 ∧
      ¬∃ l, Locator.ofSource dollarName (some "A$") = .ok l := by
  have hmask : mask dollarName.toList = [] ++ "contract".toList ++ [' '] ++ "A$".toList ++
      " \x7b uint x; \x7d".toList := by
    decide +kernel
  have hcontract : "contract".toList ∈ keywords := by decide
  have hname : IsName "A$".toList := isName_of_all (by decide) (by decide)
  have hspace : IsGap [' '] := isGap_singleton (by decide)
  have hkeyword := follows_append [] " \x7b uint x; \x7d".toList (isName_keyword hcontract) hname hspace
    free_none (free_some (by decide))
  rw [← hmask] at hkeyword
  refine ⟨⟨⟨_, hcontract, _, hkeyword⟩, fun k _ => Nat.zero_le k⟩, .plain fun start h => ?_, ?_⟩
  · exact absurd h.lt (Nat.not_lt_zero start)
  · rintro ⟨l, hl⟩
    have hfails : (Locator.ofSource dollarName (some "A$")).toOption.isNone = true := by decide +kernel
    rw [hl] at hfails
    cases hfails

end UpgradeSafety.Source
