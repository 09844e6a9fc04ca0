import UpgradeSafety.Diagnostic.Locate
import UpgradeSafety.Proofs.Runs

/-! The names in a text. A name stands alone in a text where no character of a name stands next to it
(`Occurs`), and these places are what is found when the text is cut into its longest stretches of such
characters (`mem_identifiers_iff`). They are found in their order (`pairwise_identifiers`), so the
first one that is looked for is the least (`le_of_find?_eq_some`). -/
namespace UpgradeSafety.Source

/-- There is no character of a name here. -/
def Free (o : Option Char) : Prop := ∀ c ∈ o, isNameChar c = false

/-- Characters stand in a text from an index on, with none of a name next to them. -/
def StandsAlone (cs t : List Char) (k : Nat) : Prop :=
  ∃ before after, cs = before ++ t ++ after ∧ before.length = k ∧ Free before.getLast? ∧
    Free after.head?

/-- Characters of names, with one at the start that a name can start with. -/
structure IsName (t : List Char) : Prop where
  head : t.head?.any isNameStart = true
  chars : ∀ c ∈ t, isNameChar c = true

/-- A name occurs in a text at an index. -/
structure Occurs (cs t : List Char) (k : Nat) : Prop where
  name : IsName t
  alone : StandsAlone cs t k

theorem isName_of_all {t : List Char} (hhead : t.head?.any isNameStart = true)
    (hall : t.all isNameChar = true) : IsName t :=
  ⟨hhead, List.all_eq_true.mp hall⟩

theorem IsName.ne_nil {t : List Char} (h : IsName t) : t ≠ [] := by
  rintro rfl
  cases h.head

/-! ### Where a name ends -/

section Free
variable {before rest t t' after after' : List Char}

theorem free_none : Free none := nofun

theorem free_some {c : Char} (h : isNameChar c = false) : Free (some c) := by
  rintro _ ⟨⟩
  exact h

theorem Free.of_append (before : List Char) (h : Free (before ++ rest).getLast?) : Free rest.getLast? := by
  rw [List.getLast?_append] at h
  intro c hc
  exact h c (by rw [Option.mem_def.mp hc]; rfl)

theorem Free.append (before : List Char) (hne : rest ≠ []) (h : Free rest.getLast?) :
    Free (before ++ rest).getLast? := by
  rw [List.getLast?_append]
  cases hlast : rest.getLast? with
  | none => exact absurd (List.getLast?_eq_none_iff.mp hlast) hne
  | some c => rwa [hlast] at h

theorem not_free_getLast? (hne : t ≠ []) (hchars : ∀ c ∈ t, isNameChar c = true) :
    ¬Free t.getLast? := by
  intro h
  have hlast := h _ (List.getLast?_eq_getLast_of_ne_nil hne)
  rw [hchars _ (List.getLast_mem hne)] at hlast
  cases hlast

theorem not_free_head? (hne : t ≠ []) (hchars : ∀ c ∈ t, isNameChar c = true) :
    ¬Free (t ++ rest).head? := by
  cases t with
  | nil => exact absurd rfl hne
  | cons c t =>
    intro h
    have hhead := h c rfl
    rw [hchars c List.mem_cons_self] at hhead
    cases hhead

end Free

/-! ### Stretches -/

section Stretches
variable {run rest t current : List Char} {c : Char} {k i : Nat}

/-- After a stretch, characters stand where they stand in the rest of the text. -/
theorem standsAlone_append (hrun : ∀ c ∈ run, isNameChar c = true) (hrest : Free rest.head?)
    (hne : t ≠ []) (ht : ∀ c ∈ t, isNameChar c = true) : StandsAlone (run ++ rest) t k ↔
      k = 0 ∧ t = run ∨ ∃ j, k = run.length + j ∧ StandsAlone rest t j := by
  constructor
  · intro h
    obtain ⟨before, after, htext, rfl, hbefore, hafter⟩ := h
    rw [List.append_assoc] at htext
    rcases List.append_eq_append_iff.mp htext with ⟨gap, rfl, rfl⟩ | ⟨tail, rfl, htail⟩
    · refine .inr ⟨gap.length, List.length_append, gap, after, ?_, rfl, hbefore.of_append run, hafter⟩
      exact (List.append_assoc _ _ _).symm
    · -- what comes before is part of the stretch, so there is nothing before
      obtain rfl : before = [] := by
        by_contra hne
        exact not_free_getLast? hne (fun c hc => hrun c (List.mem_append_left _ hc)) hbefore
      exact .inl ⟨rfl, (run_unique ht hafter hrun hrest htail).1⟩
  · intro h
    rcases h with ⟨rfl, rfl⟩ | ⟨j, rfl, before, after, rfl, rfl, hbefore, hafter⟩
    · exact ⟨[], rest, rfl, rfl, free_none, hrest⟩
    · refine ⟨run ++ before, after, by simp, List.length_append, ?_, hafter⟩
      refine hbefore.append run ?_
      rintro rfl
      rw [List.append_assoc] at hrest
      exact not_free_head? hne ht hrest

/-- A character that no name has is passed over. -/
theorem standsAlone_cons (hc : isNameChar c = false) (hne : t ≠ [])
    (ht : ∀ c ∈ t, isNameChar c = true) :
    StandsAlone (c :: rest) t k ↔ ∃ j, k = j + 1 ∧ StandsAlone rest t j := by
  constructor
  · intro h
    obtain ⟨before, after, htext, rfl, hbefore, hafter⟩ := h
    cases before with
    | nil =>
      rw [List.nil_append] at htext
      have hfree : Free (t ++ after).head? := htext ▸ free_some hc
      exact absurd hfree (not_free_head? hne ht)
    | cons d before =>
      obtain ⟨-, rfl⟩ := List.cons.inj htext
      exact ⟨before.length, rfl, before, after, rfl, rfl, hbefore.of_append [d], hafter⟩
  · intro h
    obtain ⟨j, rfl, before, after, rfl, rfl, hbefore, hafter⟩ := h
    refine ⟨c :: before, after, rfl, rfl, ?_, hafter⟩
    cases before with
    | nil => exact free_some hc
    | cons d before => exact hbefore.append [c] (List.cons_ne_nil d before)

theorem not_standsAlone_nil (hne : t ≠ []) : ¬StandsAlone [] t k := by
  rintro ⟨before, after, htext, -⟩
  simp_all

/-- What is found when a stretch ends. -/
def Ends (i : Nat) (current : List Char) (n : Name) : Prop :=
  current ≠ [] ∧ n = ⟨i - current.length, current.reverse⟩

/-- The stretch that has been read is found, if there is one, and then those after it. -/
theorem mem_stretches_cons (hc : isNameChar c = false) (n : Name) :
    n ∈ stretches i current (c :: rest) ↔ Ends i current n ∨ n ∈ stretches (i + 1) [] rest := by
  rw [stretches, hc, if_neg Bool.false_ne_true, Ends]
  cases current with
  | nil => simp
  | cons d current => simp

theorem mem_stretches_nil (n : Name) : n ∈ stretches i current [] ↔ Ends i current n := by
  rw [stretches, Ends]
  cases current with
  | nil => simp
  | cons d current => simp

/-- The stretch that has been read has characters, all of them of names. -/
theorem ends_iff (hcurrent : ∀ c ∈ current, isNameChar c = true) (n : Name) : Ends i current n ↔
    (n.text ≠ [] ∧ ∀ c ∈ n.text, isNameChar c = true) ∧
      n.start = i - current.length ∧ n.text = current.reverse := by
  obtain ⟨start, text⟩ := n
  rw [Ends, Name.mk.injEq]
  constructor
  · rintro ⟨hne, rfl, rfl⟩
    exact ⟨⟨List.reverse_ne_nil_iff.mpr hne, fun c hc => hcurrent c (List.mem_reverse.mp hc)⟩, rfl, rfl⟩
  · rintro ⟨⟨hne, -⟩, rfl, rfl⟩
    exact ⟨List.reverse_ne_nil_iff.mp hne, rfl, rfl⟩

/-- The stretches of a text are the characters of names that stand alone in it. -/
theorem mem_stretches_iff (hcurrent : ∀ c ∈ current, isNameChar c = true) (hle : current.length ≤ i)
    (n : Name) : n ∈ stretches i current rest ↔ (n.text ≠ [] ∧ ∀ c ∈ n.text, isNameChar c = true) ∧
      ∃ k, n.start = i - current.length + k ∧ StandsAlone (current.reverse ++ rest) n.text k := by
  have hread : ∀ c ∈ current.reverse, isNameChar c = true := fun c hc =>
    hcurrent c (List.mem_reverse.mp hc)
  induction rest generalizing i current with
  | nil =>
    rw [mem_stretches_nil, ends_iff hcurrent]
    refine and_congr_right fun ⟨hne, htext⟩ => ?_
    have hend : Free ([] : List Char).head? := free_none
    simp only [standsAlone_append hread hend hne htext, not_standsAlone_nil hne, and_false,
      exists_false, or_false]
    exact ⟨fun h => ⟨0, h.1, rfl, h.2⟩, fun ⟨k, hk, hzero, htext⟩ => ⟨by omega, htext⟩⟩
  | cons c rest ih =>
    cases hc : isNameChar c with
    | true =>
      have hnext : ∀ d ∈ c :: current, isNameChar d = true := List.forall_mem_cons.mpr ⟨hc, hcurrent⟩
      have hrest := ih hnext (Nat.succ_le_succ hle) fun d hd => hnext d (List.mem_reverse.mp hd)
      rw [List.length_cons, Nat.succ_eq_add_one, Nat.add_sub_add_right, List.reverse_cons,
        List.append_assoc] at hrest
      rw [stretches, if_pos hc]
      exact hrest
    | false =>
      have hfree : Free (c :: rest).head? := free_some hc
      have hrest : n ∈ stretches (i + 1) [] rest ↔
          (n.text ≠ [] ∧ ∀ c ∈ n.text, isNameChar c = true) ∧
            ∃ k, n.start = i + 1 + k ∧ StandsAlone rest n.text k :=
        ih (List.forall_mem_nil _) (Nat.zero_le _) (List.forall_mem_nil _)
      rw [mem_stretches_cons hc, ends_iff hcurrent, hrest, ← and_or_left]
      refine and_congr_right fun ⟨hne, htext⟩ => ?_
      simp only [standsAlone_append hread hfree hne htext, standsAlone_cons hc hne htext]
      constructor
      · rintro (⟨hstart, htext⟩ | ⟨j, hstart, halone⟩)
        · exact ⟨0, hstart, .inl ⟨rfl, htext⟩⟩
        · refine ⟨current.reverse.length + (j + 1), ?_, .inr ⟨j + 1, rfl, j, rfl, halone⟩⟩
          rw [List.length_reverse]
          omega
      · rintro ⟨k, hstart, ⟨rfl, htext⟩ | ⟨_, rfl, j, rfl, halone⟩⟩
        · exact .inl ⟨hstart, htext⟩
        · rw [List.length_reverse] at hstart
          exact .inr ⟨j, by omega, halone⟩

/-- Each stretch comes after those before it. -/
theorem pairwise_stretches (hcurrent : ∀ c ∈ current, isNameChar c = true) (hle : current.length ≤ i) :
    (stretches i current rest).Pairwise fun m n => m.start < n.start := by
  induction rest generalizing i current with
  | nil => rw [stretches]; split <;> simp
  | cons c rest ih =>
    rw [stretches]
    split
    · next hc => exact ih (List.forall_mem_cons.mpr ⟨hc, hcurrent⟩) (Nat.succ_le_succ hle)
    · have hrest : (stretches (i + 1) [] rest).Pairwise fun m n => m.start < n.start :=
        ih (List.forall_mem_nil _) (Nat.zero_le _)
      split
      · exact hrest
      · refine List.pairwise_cons.mpr ⟨fun n hn => ?_, hrest⟩
        obtain ⟨-, k, hstart, -⟩ := (mem_stretches_iff (List.forall_mem_nil _) (Nat.zero_le _) n).mp hn
        rw [List.length_nil] at hstart
        dsimp only
        omega

end Stretches

/-! ### Names -/

section Names
variable {cs label : List Char}

/-- The identifiers of a text are the names that occur in it. -/
theorem mem_identifiers_iff (n : Name) : n ∈ identifiers cs ↔ Occurs cs n.text n.start := by
  rw [identifiers, List.mem_filter, mem_stretches_iff (List.forall_mem_nil _) (Nat.zero_le _)]
  constructor
  · rintro ⟨⟨⟨-, hchars⟩, k, hstart, halone⟩, hhead⟩
    obtain rfl : n.start = k := by simpa using hstart
    exact ⟨⟨hhead, hchars⟩, halone⟩
  · intro h
    exact ⟨⟨⟨h.name.ne_nil, h.name.chars⟩, n.start, by simp, h.alone⟩, h.name.head⟩

theorem pairwise_identifiers (cs : List Char) :
    (identifiers cs).Pairwise fun m n => m.start < n.start :=
  (pairwise_stretches (List.forall_mem_nil _) (Nat.zero_le _)).filter _

/-- The first item that is looked for is the least of them. -/
theorem le_of_find?_eq_some {names : List Name} {p : Name → Bool} {n : Name}
    (hsorted : names.Pairwise fun m n => m.start < n.start) (h : names.find? p = some n) :
    ∀ m ∈ names, p m = true → n.start ≤ m.start := by
  obtain ⟨-, before, after, rfl, hbefore⟩ := List.find?_eq_some_iff_append.mp h
  intro m hm hp
  rcases List.mem_append.mp hm with hm | hm
  · have hnot := hbefore m hm
    rw [hp] at hnot
    cases hnot
  · rcases List.mem_cons.mp hm with rfl | hm
    · exact Nat.le_refl _
    · exact Nat.le_of_lt (List.rel_of_pairwise_cons (List.pairwise_append.mp hsorted).2.1 hm)

/-- A name that occurs takes up as many characters as it has, and they are characters of names. -/
theorem Occurs.exists_getElem? {k j : Nat} (h : Occurs cs label k) (hle : k ≤ j)
    (hlt : j < k + label.length) : ∃ c ∈ label, cs[j]? = some c := by
  obtain ⟨before, after, rfl, rfl, -⟩ := h.alone
  have hplace : j - before.length < label.length := by omega
  refine ⟨label[j - before.length], List.getElem_mem hplace, ?_⟩
  rw [List.append_assoc, List.getElem?_append_right hle, List.getElem?_append_left hplace]
  exact List.getElem?_eq_getElem hplace

theorem Occurs.le_length {k : Nat} (h : Occurs cs label k) : k + label.length ≤ cs.length := by
  obtain ⟨before, after, rfl, rfl, -⟩ := h.alone
  simp

theorem Occurs.free_before {before rest : List Char} (h : Occurs (before ++ rest) label before.length) :
    Free before.getLast? := by
  obtain ⟨before', after, htext, hlength, hfree, -⟩ := h.alone
  rw [List.append_assoc] at htext
  obtain ⟨rfl, -⟩ := List.append_inj htext hlength.symm
  exact hfree

theorem Occurs.free_getElem? {k : Nat} (h : Occurs cs label (k + 1)) : Free cs[k]? := by
  obtain ⟨before, after, rfl, hlength, hfree, -⟩ := h.alone
  rwa [List.append_assoc, List.getElem?_append_left (by omega),
    show k = before.length - 1 by omega, ← List.getLast?_eq_getElem?]

theorem Occurs.free_after {before after : List Char}
    (h : Occurs (before ++ label ++ after) label before.length) : Free after.head? := by
  obtain ⟨before', after', htext, hlength, -, hfree⟩ := h.alone
  obtain ⟨-, rfl⟩ := List.append_inj htext (by simp [hlength])
  exact hfree

/-- One name occurs at an index. -/
theorem Occurs.unique {label' : List Char} {k : Nat} (h : Occurs cs label k) (h' : Occurs cs label' k) :
    label = label' := by
  obtain ⟨before, after, rfl, rfl, -, hafter⟩ := h.alone
  obtain ⟨before', after', htext, hlength, -, hafter'⟩ := h'.alone
  rw [List.append_assoc, List.append_assoc] at htext
  obtain ⟨rfl, hrest⟩ := List.append_inj htext hlength.symm
  exact (run_unique h.name.chars hafter h'.name.chars hafter' hrest).1

end Names

end UpgradeSafety.Source
