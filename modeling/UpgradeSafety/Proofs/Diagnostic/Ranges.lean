import Mathlib.Order.Bounds.Basic
import UpgradeSafety.Proofs.Diagnostic.Contracts
import UpgradeSafety.Proofs.Diagnostic.Names
import UpgradeSafety.Proofs.Diagnostic.Pieces
import UpgradeSafety.Proofs.Diagnostic.Positions

/-! The ranges of labels. A label is looked for in the masked text (`Masks`), first in the contract that
is asked for (`Sought`) and then everywhere (`Chosen`). What is found there stands in the source itself:
the range that comes back shows the label, in one line and outside all comments and strings
(`locate_stands_in_source`). -/
namespace UpgradeSafety.Source

/-! ### Where a locator looks -/

/-- A text shows a source without its comments and strings. -/
structure Masks (source text : List Char) : Prop where
  cuts : ∃ pieces, Cut source pieces
  shown : ∀ pieces, Cut source pieces →
    source = pieces.flatMap Piece.chars ∧ text = pieces.flatMap Piece.shown
  blanks : Blanks source text

theorem masks_mask (source : List Char) : Masks source (mask source) :=
  ⟨exists_cut source, fun _ => mask_of_cut, mask_blanks source⟩

/-- The bounds in which a text is looked through first: those of the contract that is asked for, if
one is. -/
inductive Sought (text : List Char) : Option String → Option (Nat × Nat) → Prop where
  | anywhere : Sought text none none
  | unnamed : Sought text (some "") none
  | within {name : String} {start nameEnd stop : Nat} (hname : name ≠ "")
      (hfirst : IsFirst name.toList text start nameEnd) (hends : EndsAt text nameEnd stop) :
      Sought text (some name) (some (start, stop))

/-- A source is taken exactly if it has the bounds that are asked for. -/
theorem ofSource_eq_ok_iff {source : String} {contract : Option String} {l : Locator} :
    Locator.ofSource source contract = .ok l ↔ ∃ bounds,
      Sought (mask source.toList) contract bounds ∧
        l = ⟨mask source.toList, identifiers (mask source.toList), bounds⟩ := by
  unfold Locator.ofSource
  dsimp only
  constructor
  · intro h
    split at h
    · exact ⟨none, .anywhere, (Except.ok.inj h).symm⟩
    · next name =>
      split at h
      · next hempty =>
        obtain rfl := String.isEmpty_iff.mp hempty
        exact ⟨none, .unnamed, (Except.ok.inj h).symm⟩
      · next hempty =>
        split at h
        · next bounds hbody =>
          obtain ⟨start, stop⟩ := bounds
          obtain ⟨nameEnd, hfirst, hends⟩ := body?_eq_some_iff.mp hbody
          exact ⟨_, .within (mt String.isEmpty_iff.mpr hempty) hfirst hends, (Except.ok.inj h).symm⟩
        · cases h
  · rintro ⟨bounds, hsought, rfl⟩
    cases hsought with
    | anywhere => rfl
    | unnamed => rfl
    | within hname hfirst hends =>
      dsimp only
      rw [if_neg (mt String.isEmpty_iff.mp hname), body?_eq_some_iff.mpr ⟨_, hfirst, hends⟩]

/-! ### What is found -/

/-- The places in bounds where a label occurs. -/
def Inside (text label : List Char) (bounds : Option (Nat × Nat)) : Set Nat :=
  {k | Occurs text label k ∧ ∃ b ∈ bounds, b.1 ≤ k ∧ k + label.length ≤ b.2}

/-- The first place of a label in bounds or, where there is none, the first of all. -/
inductive Chosen (text label : List Char) (bounds : Option (Nat × Nat)) : Option Nat → Prop where
  | inside {k : Nat} (h : IsLeast (Inside text label bounds) k) : Chosen text label bounds (some k)
  | anywhere {k : Nat} (houtside : Inside text label bounds = ∅)
      (h : IsLeast {k | Occurs text label k} k) : Chosen text label bounds (some k)
  | nowhere (h : ∀ k, ¬Occurs text label k) : Chosen text label bounds none

section Search
variable {text label : List Char} {bounds : Option (Nat × Nat)} {start stop k : Nat} {n : Name}

/-- What starts before the end of a contract, or of the text, stands there as a whole. -/
theorem Occurs.lt_iff (h : Occurs text label k)
    (hstop : stop = text.length ∨ ∃ j, stop = j + 1 ∧ text[j]? = some '}') :
    k < stop ↔ k + label.length ≤ stop := by
  have hpos : 0 < label.length := List.length_pos_iff.mpr h.name.ne_nil
  refine ⟨fun hlt => ?_, fun hle => by omega⟩
  rcases hstop with rfl | ⟨j, rfl, hbrace⟩
  · exact h.le_length
  · by_contra hlong
    obtain ⟨c, hc, hplace⟩ := h.exists_getElem? (j := j) (by omega) (by omega)
    obtain rfl : '}' = c := Option.some.inj (hbrace.symm.trans hplace)
    exact absurd (h.name.chars _ hc) (by decide)

theorem find?_eq_some {bounds : Option (Nat × Nat)}
    (h : Locator.find? ⟨text, identifiers text, bounds⟩ label start stop = some n) :
    n.text = label ∧ IsLeast {k | Occurs text label k ∧ start ≤ k ∧ k < stop} n.start := by
  have hfound := List.find?_some h
  simp only [Bool.and_eq_true, decide_eq_true_eq, beq_iff_eq] at hfound
  obtain ⟨⟨hstart, hstop⟩, rfl⟩ := hfound
  have hn : n ∈ identifiers text := List.mem_of_find?_eq_some h
  refine ⟨rfl, ⟨(mem_identifiers_iff n).mp hn, hstart, hstop⟩, fun k ⟨hk, hstart', hstop'⟩ => ?_⟩
  have hmem : ⟨k, n.text⟩ ∈ identifiers text := (mem_identifiers_iff ⟨k, n.text⟩).mpr hk
  exact le_of_find?_eq_some (pairwise_identifiers text) h _ hmem (by simp [hstart', hstop'])

theorem find?_eq_none {bounds : Option (Nat × Nat)}
    (h : Locator.find? ⟨text, identifiers text, bounds⟩ label start stop = none) (k : Nat)
    (hk : Occurs text label k) (hstart : start ≤ k) : ¬k < stop := by
  intro hstop
  have hmem : ⟨k, label⟩ ∈ identifiers text := (mem_identifiers_iff ⟨k, label⟩).mpr hk
  have hnot := List.find?_eq_none.mp h _ hmem
  simp [hstart, hstop] at hnot

theorem inside_eq {contract : Option String} (h : Sought text contract (some (start, stop))) :
    Inside text label (some (start, stop)) = {k | Occurs text label k ∧ start ≤ k ∧ k < stop} := by
  cases h with
  | within hname hfirst hends =>
    ext k
    simp only [Inside, Set.mem_ofPred_eq, Option.mem_def, Option.some.injEq, exists_eq_left']
    exact and_congr_right fun hk => and_congr_right fun _ => (hk.lt_iff hends.brace).symm

/-- A look-up comes to the place that is chosen. -/
theorem exists_chosen {contract : Option String} (h : Sought text contract bounds)
    (label : List Char) :
    ∃ found, Chosen text label bounds found ∧
      Locator.search? ⟨text, identifiers text, bounds⟩ label = found.map fun k => ⟨k, label⟩ := by
  unfold Locator.search?
  dsimp only
  cases hinside : bounds.bind fun b =>
      Locator.find? ⟨text, identifiers text, bounds⟩ label b.1 b.2 with
  | some n =>
    obtain ⟨⟨start, stop⟩, rfl, hfind⟩ := Option.bind_eq_some_iff.mp hinside
    obtain ⟨htext, hleast⟩ := find?_eq_some hfind
    rw [← inside_eq h] at hleast
    exact ⟨some n.start, .inside hleast, by rw [← htext]; rfl⟩
  | none =>
    have houtside : Inside text label bounds = ∅ := by
      cases bounds with
      | none => exact Set.eq_empty_of_forall_notMem fun k ⟨_, b, hb, _⟩ => nomatch hb
      | some b =>
        obtain ⟨start, stop⟩ := b
        rw [inside_eq h]
        exact Set.eq_empty_of_forall_notMem fun k ⟨hk, hstart, hstop⟩ =>
          find?_eq_none hinside k hk hstart hstop
    have hall : ∀ k, Occurs text label k → 0 ≤ k ∧ k < text.length := fun k hk =>
      ⟨Nat.zero_le k, (hk.lt_iff (.inl rfl)).mpr hk.le_length⟩
    cases hfind : Locator.find? ⟨text, identifiers text, bounds⟩ label 0 text.length with
    | some n =>
      obtain ⟨htext, hmem, hleast⟩ := find?_eq_some hfind
      refine ⟨some n.start, .anywhere houtside ⟨hmem.1, fun k hk => hleast ⟨hk, hall k hk⟩⟩, ?_⟩
      rw [← htext]
      rfl
    | none =>
      exact ⟨none, .nowhere fun k hk => find?_eq_none hfind k hk (hall k hk).1 (hall k hk).2, rfl⟩

theorem Chosen.occurs (h : Chosen text label bounds (some k)) : Occurs text label k := by
  cases h with
  | inside h => exact h.1.1
  | anywhere _ h => exact h.1

end Search

/-! ### What stands in the source -/

/-- What a look-up answers, said of the source: no range for a label that was not found, and otherwise
the one that starts where it was found and shows it. -/
inductive Located (source label : List Char) : Option Nat → Range → Prop where
  | missing : Located source label none .none
  | found {k : Nat} {r : Range} (hstart : Marks source r.start k)
      (hstop : Marks source r.stop (k + label.length)) (hshows : Shows source r label)
      (hopen : ∀ pieces, Cut source pieces → ∀ j, k ≤ j → j < k + label.length → ¬Covers pieces j) :
      Located source label (some k) r

section Source
variable {source text label : List Char} {k : Nat}

theorem Located.shows {found : Option Nat} {r : Range} (h : Located source label found r)
    (hne : r ≠ .none) : Shows source r label := by
  cases h with
  | missing => exact absurd rfl hne
  | found _ _ hshows _ => exact hshows

theorem Blanks.positionOf_eq (h : Blanks source text) (i : Nat) :
    positionOf text i = positionOf source i := by
  refine positionOf_congr (List.ext_getElem (by simp [h.length]) fun j htext hsource => ?_) i
  rw [List.length_map] at htext hsource
  have hline := h.lines j
  rw [List.getElem?_eq_getElem htext, List.getElem?_eq_getElem hsource, Option.some.injEq,
    Option.some.injEq] at hline
  rw [List.getElem_map, List.getElem_map, Bool.eq_iff_iff, bne_iff_ne, bne_iff_ne]
  exact not_congr hline

/-- What has no blanks stands in the source where it stands in the text. -/
theorem Blanks.exists_append {before after : List Char} (h : Blanks source (before ++ label ++ after))
    (hlabel : ' ' ∉ label) :
    ∃ before' after', source = before' ++ label ++ after' ∧ before'.length = before.length := by
  have hlength : before.length + label.length + after.length = source.length := by
    rw [← h.length, List.length_append, List.length_append]
  obtain ⟨before', t, after', rfl, hbefore, ht⟩ : ∃ before' t after', source = before' ++ t ++ after' ∧
      before'.length = before.length ∧ t.length = label.length :=
    ⟨source.take before.length, (source.drop before.length).take label.length,
      (source.drop before.length).drop label.length, by simp, by simp; omega, by simp; omega⟩
  suffices t = label by exact ⟨before', after', by rw [this], hbefore⟩
  refine List.ext_getElem ht fun i hi hi' => ?_
  have hsource : (before' ++ t ++ after')[before.length + i]? = some t[i] := by
    rw [List.append_assoc, List.getElem?_append_right (by omega), List.getElem?_append_left (by omega)]
    simp [← hbefore, hi]
  have htext : (before ++ label ++ after)[before.length + i]? = some label[i] := by
    rw [List.append_assoc, List.getElem?_append_right (by omega), List.getElem?_append_left (by omega)]
    simp [hi']
  rcases h.kept _ _ hsource with hkept | hblank
  · exact Option.some.inj (hkept.symm.trans htext)
  · have hspace : ' ' = label[i] := Option.some.inj (hblank.symm.trans htext)
    exact absurd (hspace ▸ List.getElem_mem hi') hlabel

theorem Masks.located (h : Masks source text) (hk : Occurs text label k) :
    Located source label (some k) (Name.range text ⟨k, label⟩) := by
  have hnot {c : Char} (hc : isNameChar c = false) : c ∉ label := fun hmem => by
    rw [hk.name.chars c hmem] at hc
    cases hc
  have hrange : Name.range text ⟨k, label⟩ =
      ⟨positionOf source k, positionOf source (k + label.length)⟩ := by
    rw [Name.range, h.blanks.positionOf_eq, h.blanks.positionOf_eq]
  have hlength : k + label.length ≤ source.length := h.blanks.length ▸ hk.le_length
  rw [hrange]
  refine .found (marks_positionOf (by omega)) (marks_positionOf hlength) ?_ ?_
  · obtain ⟨before, after, rfl, rfl, -⟩ := hk.alone
    obtain ⟨before', after', rfl, hbefore⟩ := h.blanks.exists_append (hnot (by decide))
    rw [← hbefore]
    exact shows_positionOf before' after' (hnot (by decide))
  · intro pieces hcut j hle hlt hcovers
    obtain ⟨c, hc, hplace⟩ := hk.exists_getElem? hle hlt
    obtain ⟨-, rfl⟩ := h.shown pieces hcut
    rcases hcovers.shown_blank with hblank | hblank
    · exact hnot (c := ' ') (by decide) (Option.some.inj (hblank.symm.trans hplace) ▸ hc)
    · exact hnot (c := '\n') (by decide) (Option.some.inj (hblank.symm.trans hplace) ▸ hc)

end Source

/-- **A label comes to the range that shows it in the source.** Masking puts blanks in the place of
comments and strings and nothing else. A label has the range of its first place in the contract that is
asked for, if it has one there, and otherwise of its first place in the whole text, if it has one: in
the source, that range cuts the label out of one line, and none of it belongs to a comment or a
string. -/
theorem locate_stands_in_source {source : String} {contract : Option String} {l : Locator}
    (h : Locator.ofSource source contract = .ok l) :
    Masks source.toList l.text ∧ ∃ bounds, Sought l.text contract bounds ∧
      ∀ label : Text, (∀ cs, label.chars? = some cs → ∃ found, Chosen l.text cs bounds found ∧
          Located source.toList cs found (l.locate label)) ∧
        (label.chars? = none → l.locate label = .none) := by
  obtain ⟨bounds, hsought, rfl⟩ := ofSource_eq_ok_iff.mp h
  have hmasks := masks_mask source.toList
  refine ⟨hmasks, bounds, hsought, fun label => ⟨fun cs hcs => ?_, fun hnone => ?_⟩⟩
  swap
  · rw [Locator.locate, hnone]
    rfl
  obtain ⟨found, hchosen, hsearch⟩ := exists_chosen hsought cs
  refine ⟨found, hchosen, ?_⟩
  rw [Locator.locate, hcs, Option.bind_some, hsearch]
  cases found with
  | none => exact .missing
  | some k => exact hmasks.located hchosen.occurs

/-- The contract stands in a comment before it is defined, and its variable before the contract. -/
def hiddenContract : String :=
  "uint x; // contract A \x7b\ncontract A \x7b uint x; \x7d"

/-- The `x` that is found is the one of the contract, and not the one before it. -/
theorem locate_stands_in_source_hidden : ∃ l, Locator.ofSource hiddenContract (some "A") = .ok l ∧
    l.locate "x" = ⟨⟨2, 18⟩, ⟨2, 19⟩⟩ ∧ Shows hiddenContract.toList (l.locate "x") ['x'] := by
  have hlocate : (Locator.ofSource hiddenContract (some "A")).toOption.map (·.locate "x") =
      some ⟨⟨2, 18⟩, ⟨2, 19⟩⟩ := by
    decide +kernel
  cases h : Locator.ofSource hiddenContract (some "A") with
  | error e =>
    rw [h] at hlocate
    cases hlocate
  | ok l =>
    rw [h] at hlocate
    have hrange : l.locate "x" = ⟨⟨2, 18⟩, ⟨2, 19⟩⟩ := Option.some.inj hlocate
    obtain ⟨-, _, -, hlabels⟩ := locate_stands_in_source h
    obtain ⟨found, -, hlocated⟩ := (hlabels "x").1 _ rfl
    exact ⟨l, rfl, hrange, hlocated.shows (by rw [hrange]; decide)⟩

end UpgradeSafety.Source
