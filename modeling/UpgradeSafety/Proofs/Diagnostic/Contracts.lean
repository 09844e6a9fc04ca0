import Mathlib.Order.Bounds.Image
import UpgradeSafety.Diagnostic.Locate
import UpgradeSafety.Proofs.Runs

/-! Where a contract stands in a text. A definition is a keyword, white space and the name, between
two word boundaries (`Defines`); what is found is the first one there is, and the longest there
(`definition?_eq_some_iff`). The contract goes on to the brace that closes the first one after the
name, all braces between the two being balanced, or to the end of the text if none closes it
(`body?_eq_some_iff`). -/
namespace UpgradeSafety.Source

/-! ### Greatest matches -/

/-- The greatest of some numbers, if there are any. -/
def Greatest (S : Set Nat) : Option Nat → Prop
  | some n => IsGreatest S n
  | none => S = ∅

section Greatest
variable {S T : Set Nat} {o o' : Option Nat} {f : Nat → Nat} {n : Nat}

theorem Greatest.of_eq (h : Greatest S o) (heq : T = S) : Greatest T o := heq ▸ h

theorem Greatest.mem (h : Greatest S (some n)) : n ∈ S := h.1

theorem Greatest.le (h : Greatest S (some n)) {m : Nat} (hm : m ∈ S) : m ≤ n := h.2 hm

theorem Greatest.notMem (h : Greatest S none) (m : Nat) : m ∉ S := by
  rw [show S = ∅ from h]
  exact Set.notMem_empty m

theorem Greatest.image (hf : Monotone f) (h : Greatest S o) : Greatest (f '' S) (o.map f) := by
  cases o with
  | none =>
    rw [show S = ∅ from h]
    exact Set.image_empty f
  | some n => exact hf.map_isGreatest h

/-- Where one of two matches leaves no room for the other, it does not matter which is tried first. -/
theorem Greatest.or (h : Greatest S o) (h' : Greatest T o') (hapart : S.Nonempty → T = ∅) :
    Greatest (S ∪ T) (o.or o') := by
  cases o with
  | none => exact h'.of_eq (by rw [show S = ∅ from h, Set.empty_union])
  | some n => exact h.of_eq (by rw [hapart ⟨n, h.mem⟩, Set.union_empty])

end Greatest

/-! ### Definitions -/

/-- White space, some of it. -/
def IsGap (gap : List Char) : Prop := gap ≠ [] ∧ ∀ c ∈ gap, Text.isBlank c = true

/-- The words that a definition starts with. -/
inductive Opens : List Char → Prop where
  | plain {keyword : List Char} (h : keyword ∈ keywords) : Opens keyword
  | abstract {gap : List Char} (h : IsGap gap) :
      Opens ("abstract".toList ++ gap ++ "contract".toList)

/-- A text starts with an opening, white space and a name, `n` characters in all, and a word ends or
starts there. -/
def Spells (opening name cs : List Char) (n : Nat) : Prop :=
  ∃ gap after, IsGap gap ∧ cs = opening ++ gap ++ name ++ after ∧
    isBoundary name.getLast? after.head? = true ∧ n = (opening ++ gap ++ name).length

/-- A definition of a name stands in a text between two indices. -/
def Defines (name cs : List Char) (start stop : Nat) : Prop :=
  ∃ before rest opening n, cs = before ++ rest ∧ before.length = start ∧ stop = start + n ∧
    isBoundary before.getLast? rest.head? = true ∧ Opens opening ∧ Spells opening name rest n

section Definitions
variable {name cs keyword opening gap : List Char} {n : Nat}

theorem nameLength?_eq_some_iff : nameLength? name cs = some n ↔
    n = name.length ∧ ∃ after, cs = name ++ after ∧ isBoundary name.getLast? after.head? = true := by
  unfold nameLength?
  split
  · next h =>
    obtain ⟨hname, hboundary⟩ := Bool.and_eq_true_iff.mp h
    obtain ⟨after, rfl⟩ := List.isPrefixOf_iff_prefix.mp hname
    rw [List.drop_left] at hboundary
    exact ⟨fun h => ⟨(Option.some.inj h).symm, after, rfl, hboundary⟩, fun h => congrArg _ h.1.symm⟩
  · next h =>
    refine ⟨nofun, fun ⟨_, after, hcs, hboundary⟩ => absurd ?_ h⟩
    subst hcs
    rw [List.drop_left, hboundary, Bool.and_true]
    exact List.isPrefixOf_iff_prefix.mpr (List.prefix_append name after)

/-- As much white space as there is room for is tried first. -/
theorem greatest_blankAndName? (name cs : List Char) (room : Nat) :
    Greatest {m | ∃ g, 1 ≤ g ∧ g ≤ room ∧ nameLength? name (cs.drop g) = some name.length ∧
      m = g + name.length} (blankAndName? name cs room) := by
  induction room with
  | zero =>
    refine Set.eq_empty_of_forall_notMem fun m ⟨g, hg, hroom, _⟩ => ?_
    omega
  | succ room ih =>
    unfold blankAndName?
    cases hname : nameLength? name (cs.drop (room + 1)) with
    | none =>
      refine ih.of_eq (Set.ext fun m => ⟨?_, ?_⟩)
      · rintro ⟨g, hg, hroom, hread, rfl⟩
        have hne : g ≠ room + 1 := by
          rintro rfl
          rw [hname] at hread
          cases hread
        exact ⟨g, hg, by omega, hread, rfl⟩
      · rintro ⟨g, hg, hroom, hread, rfl⟩
        exact ⟨g, hg, by omega, hread, rfl⟩
    | some n =>
      obtain rfl := (nameLength?_eq_some_iff.mp hname).1
      refine ⟨⟨room + 1, by omega, Nat.le_refl _, hname, rfl⟩, ?_⟩
      rintro m ⟨g, hg, hroom, hread, rfl⟩
      omega

/-- The white space that a text starts with has room for each part of it. -/
theorem isGap_take_iff {g : Nat} (hg : 1 ≤ g) : g ≤ (cs.takeWhile Text.isBlank).length ↔
    g ≤ cs.length ∧ IsGap (cs.take g) := by
  constructor
  · intro hroom
    have htake : cs.take g = (cs.takeWhile Text.isBlank).take g := by
      conv_lhs => rw [← List.takeWhile_append_dropWhile (p := Text.isBlank) (l := cs)]
      exact List.take_append_of_le_length hroom
    have hle : (cs.takeWhile Text.isBlank).length ≤ cs.length := (List.takeWhile_sublist _).length_le
    refine ⟨Nat.le_trans hroom hle, ?_, fun c hc => ?_⟩
    · rw [← List.length_pos_iff, List.length_take]
      omega
    · rw [htake] at hc
      exact List.all_eq_true.mp List.all_takeWhile c (List.mem_of_mem_take hc)
  · rintro ⟨hle, -, hblank⟩
    have hsplit : (cs.take g ++ cs.drop g).takeWhile Text.isBlank =
        cs.take g ++ (cs.drop g).takeWhile Text.isBlank := List.takeWhile_append_of_pos hblank
    rw [List.take_append_drop] at hsplit
    rw [hsplit, List.length_append, List.length_take_of_le hle]
    exact Nat.le_add_right _ _

/-- What a keyword, white space and a name come to is the most that they can. -/
theorem greatest_keywordAndName? (keyword name cs : List Char) :
    Greatest {n | Spells keyword name cs n} (keywordAndName? keyword name cs) := by
  unfold keywordAndName?
  split
  · next h =>
    obtain ⟨rest, rfl⟩ := List.isPrefixOf_iff_prefix.mp h
    rw [List.drop_left]
    refine Greatest.of_eq ((greatest_blankAndName? name rest _).image
      fun _ _ hle => Nat.add_le_add_left hle keyword.length) (Set.ext fun n => ⟨?_, ?_⟩)
    · rintro ⟨gap, after, hgap, hrest, hboundary, rfl⟩
      obtain rfl : rest = gap ++ (name ++ after) := by simpa using hrest
      have hpos : 1 ≤ gap.length := List.length_pos_iff.mpr hgap.1
      have htake : IsGap ((gap ++ (name ++ after)).take gap.length) := by rwa [List.take_left]
      refine ⟨gap.length + name.length, ⟨gap.length, hpos, (isGap_take_iff hpos).mpr ⟨by simp, htake⟩,
        ?_, rfl⟩, by simp⟩
      rw [List.drop_left]
      exact nameLength?_eq_some_iff.mpr ⟨rfl, after, rfl, hboundary⟩
    · rintro ⟨_, ⟨g, hg, hroom, hname, rfl⟩, rfl⟩
      obtain ⟨hle, hgap⟩ := (isGap_take_iff hg).mp hroom
      obtain ⟨-, after, hdrop, hboundary⟩ := nameLength?_eq_some_iff.mp hname
      refine ⟨rest.take g, after, hgap, ?_, hboundary, ?_⟩
      · rw [List.append_assoc, List.append_assoc, ← hdrop, List.take_append_drop]
      · simp [hle]
  · next h =>
    refine Set.eq_empty_of_forall_notMem fun n ⟨gap, after, _, hcs, _⟩ => h ?_
    rw [hcs, List.isPrefixOf_iff_prefix, List.append_assoc, List.append_assoc]
    exact List.prefix_append _ _

/-- White space before a word is all that a text starts with. -/
theorem takeWhile_of_isGap (hgap : IsGap gap) {c : Char} (hc : Text.isBlank c = false)
    (rest : List Char) : (gap ++ c :: rest).takeWhile Text.isBlank = gap := by
  refine takeWhile_run hgap.2 ?_
  rintro _ ⟨⟩
  exact hc

/-- A contract after `abstract`. -/
theorem spells_abstract_iff {rest : List Char} :
    (∃ gap, IsGap gap ∧ Spells ("abstract".toList ++ gap ++ "contract".toList) name
      ("abstract".toList ++ rest) n) ↔
    IsGap (rest.takeWhile Text.isBlank) ∧ ∃ m, Spells "contract".toList name
      (rest.drop (rest.takeWhile Text.isBlank).length) m ∧
        n = "abstract".toList.length + (rest.takeWhile Text.isBlank).length + m := by
  constructor
  · rintro ⟨gap, hgap, gap', after, hgap', hrest, hboundary, rfl⟩
    obtain rfl : rest = gap ++ ("contract".toList ++ gap' ++ name ++ after) := by simpa using hrest
    have htake : (gap ++ ("contract".toList ++ gap' ++ name ++ after)).takeWhile Text.isBlank = gap :=
      takeWhile_of_isGap hgap (by decide) _
    rw [htake, List.drop_left]
    exact ⟨hgap, _, ⟨gap', after, hgap', rfl, hboundary, rfl⟩, by simp; omega⟩
  · rintro ⟨hgap, _, ⟨gap', after, hgap', hdrop, hboundary, rfl⟩, rfl⟩
    have hrest := List.prefix_iff_eq_append.mp (List.takeWhile_prefix Text.isBlank (l := rest))
    rw [hdrop] at hrest
    refine ⟨_, hgap, gap', after, hgap', ?_, hboundary, by simp; omega⟩
    conv_lhs => rw [← hrest]
    simp

theorem greatest_abstractAndName? (name cs : List Char) :
    Greatest {n | ∃ gap, IsGap gap ∧
      Spells ("abstract".toList ++ gap ++ "contract".toList) name cs n} (abstractAndName? name cs) := by
  unfold abstractAndName?
  dsimp only
  split
  · next h =>
    obtain ⟨rest, rfl⟩ := List.isPrefixOf_iff_prefix.mp h
    rw [List.drop_left]
    split
    · next hroom =>
      refine Set.eq_empty_of_forall_notMem fun n hn => ?_
      exact (spells_abstract_iff.mp hn).1.1 (List.eq_nil_of_length_eq_zero hroom)
    · next hroom =>
      have hgap : IsGap (rest.takeWhile Text.isBlank) :=
        ⟨mt (congrArg List.length) hroom, List.all_eq_true.mp List.all_takeWhile⟩
      refine Greatest.of_eq ((greatest_keywordAndName? "contract".toList name _).image
        fun _ _ hle => Nat.add_le_add_left hle _) (Set.ext fun n => ?_)
      refine spells_abstract_iff.trans ((and_iff_right hgap).trans (exists_congr fun m => ?_))
      exact and_congr_right fun _ => eq_comm
  · next h =>
    refine Set.eq_empty_of_forall_notMem fun n ⟨gap', _, gap, after, _, hcs, _⟩ => h ?_
    rw [hcs, List.isPrefixOf_iff_prefix]
    simp only [List.append_assoc]
    exact List.prefix_append _ _

theorem head?_of_spells (hne : opening ≠ []) (h : Spells opening name cs n) :
    cs.head? = opening.head? := by
  obtain ⟨gap, after, -, rfl, -⟩ := h
  cases opening with
  | nil => exact absurd rfl hne
  | cons c opening => rfl

/-- Matches that start with different letters leave no room for each other. -/
theorem apart_of_head {S T : Set Nat} {a : Option Char} (hS : ∀ n ∈ S, cs.head? = a)
    (hT : ∀ n ∈ T, cs.head? ≠ a) (h : S.Nonempty) : T = ∅ := by
  obtain ⟨n, hn⟩ := h
  exact Set.eq_empty_of_forall_notMem fun m hm => hT m hm (hS n hn)

theorem findSome?_keywords (f : List Char → Option Nat) : keywords.findSome? f =
    (f "contract".toList).or ((f "library".toList).or (f "interface".toList)) := by
  rw [keywords, List.findSome?_cons, List.findSome?_cons, List.findSome?_cons]
  cases f "contract".toList <;> cases f "library".toList <;> cases f "interface".toList <;> rfl

/-- What a definition comes to is the most that it can, whatever words it starts with. -/
theorem greatest_definitionLength? (name cs : List Char) :
    Greatest {n | ∃ opening, Opens opening ∧ Spells opening name cs n} (definitionLength? name cs) := by
  have hplain (keyword : List Char) := greatest_keywordAndName? keyword name cs
  have hcontract : ∀ n, Spells "contract".toList name cs n → cs.head? = some 'c' := fun _ =>
    head?_of_spells (by decide)
  have hlibrary : ∀ n, Spells "library".toList name cs n → cs.head? = some 'l' := fun _ =>
    head?_of_spells (by decide)
  have hinterface : ∀ n, Spells "interface".toList name cs n → cs.head? = some 'i' := fun _ =>
    head?_of_spells (by decide)
  have habstract : ∀ n, (∃ gap, IsGap gap ∧ Spells ("abstract".toList ++ gap ++ "contract".toList)
      name cs n) → cs.head? = some 'a' := fun _ ⟨_, _, h⟩ => head?_of_spells (by simp) h
  have hlast := (hplain "library".toList).or (hplain "interface".toList) <|
    apart_of_head hlibrary fun n hn => by rw [hinterface n hn]; decide
  have hrest := (hplain "contract".toList).or hlast <| apart_of_head hcontract fun n hn => by
    rcases hn with hn | hn
    · rw [hlibrary n hn]; decide
    · rw [hinterface n hn]; decide
  have hall := (greatest_abstractAndName? name cs).or hrest <| apart_of_head habstract fun n hn => by
    rcases hn with hn | hn | hn
    · rw [hcontract n hn]; decide
    · rw [hlibrary n hn]; decide
    · rw [hinterface n hn]; decide
  rw [← findSome?_keywords fun keyword => keywordAndName? keyword name cs] at hall
  refine hall.of_eq (Set.ext fun n => ⟨?_, ?_⟩)
  · rintro ⟨_, ⟨hkeyword⟩ | ⟨hgap⟩, h⟩
    · simp only [keywords, List.mem_cons, List.not_mem_nil, or_false] at hkeyword
      rcases hkeyword with rfl | rfl | rfl
      · exact .inr (.inl h)
      · exact .inr (.inr (.inl h))
      · exact .inr (.inr (.inr h))
    · exact .inl ⟨_, hgap, h⟩
  · rintro (⟨gap, hgap, h⟩ | h | h | h)
    · exact ⟨_, .abstract hgap, h⟩
    · exact ⟨_, .plain (by decide), h⟩
    · exact ⟨_, .plain (by decide), h⟩
    · exact ⟨_, .plain (by decide), h⟩

/-- The definition of a name that is found: the first, and the longest there. -/
structure IsFirst (name cs : List Char) (start stop : Nat) : Prop where
  defines : Defines name cs start stop
  first : ∀ start' stop', Defines name cs start' stop' → start ≤ start'
  longest : ∀ stop', Defines name cs start stop' → stop' ≤ stop

theorem defines_at_iff {before : List Char} {c : Char} {rest : List Char} {stop : Nat} :
    Defines name (before ++ c :: rest) before.length stop ↔
      isBoundary before.getLast? (some c) = true ∧
        ∃ n, stop = before.length + n ∧ ∃ opening, Opens opening ∧ Spells opening name (c :: rest) n := by
  constructor
  · rintro ⟨before', rest', opening, n, hcs, hlength, rfl, hboundary, hopens, hspells⟩
    obtain ⟨rfl, rfl⟩ := List.append_inj hcs hlength.symm
    exact ⟨hboundary, n, rfl, opening, hopens, hspells⟩
  · rintro ⟨hboundary, n, rfl, opening, hopens, hspells⟩
    exact ⟨before, c :: rest, opening, n, rfl, rfl, rfl, hboundary, hopens, hspells⟩

theorem lt_length_of_defines {start stop : Nat} (h : Defines name cs start stop) : start < cs.length := by
  obtain ⟨before, rest, opening, n, rfl, rfl, -, -, -, gap, after, hgap, rfl, -⟩ := h
  have hpos : 0 < gap.length := List.length_pos_iff.mpr hgap.1
  simp only [List.length_append]
  omega

/-- What a search from an index on comes to. -/
def Found (name cs : List Char) (i : Nat) : Option (Nat × Nat) → Prop
  | some (start, stop) => Defines name cs start stop ∧
      (∀ start' stop', Defines name cs start' stop' → i ≤ start' → start ≤ start') ∧
      ∀ stop', Defines name cs start stop' → stop' ≤ stop
  | none => ∀ start stop, Defines name cs start stop → start < i

/-- What is not found at an index is found after it. -/
theorem Found.of_succ {i : Nat} {o : Option (Nat × Nat)} (h : Found name cs (i + 1) o)
    (hnot : ∀ stop, ¬Defines name cs i stop) : Found name cs i o := by
  have hlater {start stop : Nat} (hdefines : Defines name cs start stop) : start ≠ i := by
    rintro rfl
    exact hnot stop hdefines
  cases o with
  | none =>
    intro start stop hdefines
    have := h start stop hdefines
    have := hlater hdefines
    omega
  | some found =>
    obtain ⟨hdefines, hfirst, hlongest⟩ := h
    refine ⟨hdefines, fun start' stop' hdefines' hle => hfirst start' stop' hdefines' ?_, hlongest⟩
    have := hlater hdefines'
    omega

theorem found_definition? (name before cs : List Char) :
    Found name (before ++ cs) before.length (definition? name before.length before.getLast? cs) := by
  induction cs generalizing before with
  | nil =>
    intro start stop hdefines
    have hlt := lt_length_of_defines hdefines
    rwa [List.append_nil] at hlt
  | cons c rest ih =>
    have hlength := greatest_definitionLength? name (c :: rest)
    have hnext := ih (before ++ [c])
    rw [List.append_assoc, List.singleton_append, List.length_append, List.length_singleton,
      List.getLast?_concat] at hnext
    unfold definition?
    dsimp only
    split
    · next n hhere =>
      obtain ⟨hboundary, hn⟩ : isBoundary before.getLast? (some c) = true ∧
          definitionLength? name (c :: rest) = some n := by
        split at hhere
        · next hboundary => exact ⟨hboundary, hhere⟩
        · cases hhere
      rw [hn] at hlength
      refine ⟨defines_at_iff.mpr ⟨hboundary, n, rfl, hlength.mem⟩, fun _ _ _ hle => hle, ?_⟩
      intro stop' hdefines
      obtain ⟨-, m, rfl, hm⟩ := defines_at_iff.mp hdefines
      exact Nat.add_le_add_left (hlength.le hm) _
    · next hhere =>
      refine hnext.of_succ fun stop hdefines => ?_
      obtain ⟨hboundary, m, -, hm⟩ := defines_at_iff.mp hdefines
      rw [if_pos hboundary] at hhere
      rw [hhere] at hlength
      exact hlength.notMem m hm

/-- The first definition of a name is found, if there is one. -/
theorem definition?_eq_some_iff {start stop : Nat} :
    definition? name 0 none cs = some (start, stop) ↔ IsFirst name cs start stop := by
  have hfound : Found name cs 0 (definition? name 0 none cs) := found_definition? name [] cs
  constructor
  · intro h
    rw [h] at hfound
    obtain ⟨hdefines, hfirst, hlongest⟩ := hfound
    exact ⟨hdefines, fun start' stop' hdefines' => hfirst start' stop' hdefines' (Nat.zero_le _),
      hlongest⟩
  · intro h
    cases hsearch : definition? name 0 none cs with
    | none =>
      rw [hsearch] at hfound
      exact absurd (hfound start stop h.defines) (Nat.not_lt_zero start)
    | some found =>
      obtain ⟨start', stop'⟩ := found
      rw [hsearch] at hfound
      obtain ⟨hdefines, hfirst, hlongest⟩ := hfound
      obtain rfl : start' = start := Nat.le_antisymm (hfirst start stop h.defines (Nat.zero_le _))
        (h.first start' stop' hdefines)
      obtain rfl : stop' = stop := Nat.le_antisymm (h.longest stop' hdefines) (hlongest stop h.defines)
      rfl

/-- Where there is a definition, there is a first one. -/
theorem exists_isFirst {start stop : Nat} (h : Defines name cs start stop) :
    ∃ start' stop', IsFirst name cs start' stop' := by
  have hfound : Found name cs 0 (definition? name 0 none cs) := found_definition? name [] cs
  cases hsearch : definition? name 0 none cs with
  | none =>
    rw [hsearch] at hfound
    exact absurd (hfound start stop h) (Nat.not_lt_zero start)
  | some found => exact ⟨found.1, found.2, definition?_eq_some_iff.mp hsearch⟩

end Definitions

/-! ### Braces -/

/-- Text in which every brace that opens is closed, and none else. -/
inductive Balanced : List Char → Prop where
  | nil : Balanced []
  | other {c : Char} {cs : List Char} (hopen : c ≠ '{') (hclose : c ≠ '}') (h : Balanced cs) :
      Balanced (c :: cs)
  | nested {cs rest : List Char} (h : Balanced cs) (hrest : Balanced rest) :
      Balanced ('{' :: (cs ++ '}' :: rest))

/-- A text opens a brace and closes it `n` characters on, with balanced text between the two. -/
def Encloses (cs : List Char) (n : Nat) : Prop :=
  ∃ before inner after, cs = before ++ '{' :: (inner ++ '}' :: after) ∧ '{' ∉ before ∧
    Balanced inner ∧ n = before.length + inner.length + 2

/-- The index at which what starts before an index ends: after the brace that closes the first one, or
with the text. -/
inductive EndsAt (cs : List Char) (i : Nat) : Nat → Prop where
  | closed {n : Nat} (h : Encloses (cs.drop i) n) : EndsAt cs i (i + n)
  | unclosed (h : ∀ n, ¬Encloses (cs.drop i) n) : EndsAt cs i cs.length

section Braces
variable {cs rest before : List Char} {depth n : Nat} {c : Char}

theorem closingBrace?_open (depth : Nat) (rest : List Char) :
    closingBrace? depth ('{' :: rest) = (closingBrace? (depth + 1) rest).map (· + 1) := by
  cases depth with
  | zero => rfl
  | succ depth => cases depth <;> rfl

theorem closingBrace?_other (hopen : c ≠ '{') (hclose : c ≠ '}') :
    closingBrace? (depth + 1) (c :: rest) = (closingBrace? (depth + 1) rest).map (· + 1) := by
  cases depth with
  | zero => simp [closingBrace?, hclose]
  | succ depth => simp [closingBrace?, hclose]

/-- Balanced text is passed over. -/
theorem Balanced.closingBrace? (h : Balanced cs) (depth : Nat) (rest : List Char) :
    closingBrace? (depth + 1) (cs ++ rest) =
      (closingBrace? (depth + 1) rest).map (· + cs.length) := by
  induction h generalizing depth rest with
  | nil => exact Option.map_id'.symm
  | other hopen hclose _ ih =>
    rw [List.cons_append, closingBrace?_other hopen hclose, ih, Option.map_map]
    rfl
  | @nested inner after _ _ ih ihafter =>
    have hafter : (inner ++ '}' :: after) ++ rest = inner ++ '}' :: (after ++ rest) := by simp
    have hclose : Source.closingBrace? (depth + 2) ('}' :: (after ++ rest)) =
        (Source.closingBrace? (depth + 1) (after ++ rest)).map (· + 1) := rfl
    rw [List.cons_append, closingBrace?_open, hafter, ih, hclose, ihafter, Option.map_map,
      Option.map_map, Option.map_map]
    congr 1
    funext n
    simp
    omega

/-- Where a brace closes, all before it is balanced. -/
theorem exists_balanced (h : closingBrace? (depth + 1) cs = some n) :
    ∃ inner after, cs = inner ++ '}' :: after ∧ Balanced inner := by
  induction hlength : cs.length using Nat.strong_induction_on generalizing cs depth n with
  | _ length ih =>
    subst hlength
    cases cs with
    | nil => cases h
    | cons c cs =>
      by_cases hopen : c = '{'
      · subst hopen
        rw [closingBrace?_open] at h
        obtain ⟨m, hm, -⟩ := Option.map_eq_some_iff.mp h
        obtain ⟨inner, after, rfl, hinner⟩ := ih _ (Nat.lt_succ_self _) hm rfl
        -- what opens here is closed, so the brace that is looked for comes after it
        rw [hinner.closingBrace?] at hm
        obtain ⟨_, hm, -⟩ := Option.map_eq_some_iff.mp hm
        obtain ⟨_, hm, -⟩ := Option.map_eq_some_iff.mp hm
        obtain ⟨inner', after', rfl, hinner'⟩ := ih _ (by simp; omega) hm rfl
        exact ⟨'{' :: (inner ++ '}' :: inner'), after', by simp, .nested hinner hinner'⟩
      · by_cases hclose : c = '}'
        · exact ⟨[], cs, congrArg (· :: cs) hclose, .nil⟩
        · rw [closingBrace?_other hopen hclose] at h
          obtain ⟨m, hm, -⟩ := Option.map_eq_some_iff.mp h
          obtain ⟨inner, after, rfl, hinner⟩ := ih _ (Nat.lt_succ_self _) hm rfl
          exact ⟨c :: inner, after, rfl, .other hopen hclose hinner⟩

/-- Nothing counts before the first brace that opens. -/
theorem closingBrace?_before (hbefore : '{' ∉ before) (rest : List Char) :
    closingBrace? 0 (before ++ rest) = (closingBrace? 0 rest).map (· + before.length) := by
  induction before with
  | nil => exact Option.map_id'.symm
  | cons c before ih =>
    obtain ⟨hc, hbefore⟩ := not_or.mp (mt List.mem_cons.mpr hbefore)
    rw [List.cons_append, closingBrace?, ih hbefore, Option.map_map]
    · rfl
    · exact Ne.symm hc

theorem closingBrace?_eq_some_iff : closingBrace? 0 cs = some n ↔ Encloses cs n := by
  constructor
  · intro h
    have hopens : '{' ∈ cs := by
      by_contra hnone
      have hnil := closingBrace?_before hnone []
      rw [List.append_nil, h] at hnil
      cases hnil
    obtain ⟨before, rest, rfl, hbefore⟩ := List.eq_append_cons_of_mem hopens
    rw [closingBrace?_before hbefore, closingBrace?_open, Option.map_map] at h
    obtain ⟨m, hm, rfl⟩ := Option.map_eq_some_iff.mp h
    obtain ⟨inner, after, rfl, hinner⟩ := exists_balanced hm
    rw [hinner.closingBrace?] at hm
    obtain rfl : 1 + inner.length = m := Option.some.inj hm
    exact ⟨before, inner, after, rfl, hbefore, hinner, by simp; omega⟩
  · rintro ⟨before, inner, after, rfl, hbefore, hinner, rfl⟩
    rw [closingBrace?_before hbefore, closingBrace?_open, hinner.closingBrace?]
    simp [closingBrace?]
    omega

/-- There is one end. -/
theorem endsAt_iff {i stop : Nat} : EndsAt cs i stop ↔ stop =
    match closingBrace? 0 (cs.drop i) with
    | some n => i + n
    | none => cs.length := by
  constructor
  · intro h
    cases h with
    | closed h => rw [closingBrace?_eq_some_iff.mpr h]
    | unclosed h =>
      have hnone : closingBrace? 0 (cs.drop i) = none :=
        Option.eq_none_iff_forall_ne_some.mpr fun n hn => h n (closingBrace?_eq_some_iff.mp hn)
      rw [hnone]
  · rintro rfl
    cases hclose : closingBrace? 0 (cs.drop i) with
    | some n => exact .closed (closingBrace?_eq_some_iff.mp hclose)
    | none =>
      refine .unclosed fun n hn => ?_
      rw [closingBrace?_eq_some_iff.mpr hn] at hclose
      cases hclose

theorem exists_endsAt (cs : List Char) (i : Nat) : ∃ stop, EndsAt cs i stop :=
  ⟨_, endsAt_iff.mpr rfl⟩

/-- What has an end before that of the text ends with a brace. -/
theorem EndsAt.brace {i stop : Nat} (h : EndsAt cs i stop) :
    stop = cs.length ∨ ∃ j, stop = j + 1 ∧ cs[j]? = some '}' := by
  cases h with
  | closed h =>
    obtain ⟨before, inner, after, hdrop, -, -, rfl⟩ := h
    refine .inr ⟨i + (before.length + inner.length + 1), by omega, ?_⟩
    have hsplit : before ++ '{' :: (inner ++ '}' :: after) =
        (before ++ '{' :: inner) ++ '}' :: after := by simp
    rw [← List.getElem?_drop, hdrop, hsplit, List.getElem?_append_right (by simp; omega)]
    simp [Nat.add_assoc]
  | unclosed => exact .inl rfl

/-- A contract starts with its first definition, and ends where what starts after its name does. -/
theorem body?_eq_some_iff {name : List Char} {start stop : Nat} : body? name cs = some (start, stop) ↔
    ∃ nameEnd, IsFirst name cs start nameEnd ∧ EndsAt cs nameEnd stop := by
  rw [body?, Option.map_eq_some_iff]
  constructor
  · rintro ⟨⟨start', nameEnd⟩, hfound, hbody⟩
    obtain ⟨rfl, hstop⟩ := Prod.mk.inj hbody
    exact ⟨nameEnd, definition?_eq_some_iff.mp hfound, endsAt_iff.mpr hstop.symm⟩
  · rintro ⟨nameEnd, hfirst, hends⟩
    exact ⟨(start, nameEnd), definition?_eq_some_iff.mpr hfirst,
      congrArg (start, ·) (endsAt_iff.mp hends).symm⟩

end Braces

end UpgradeSafety.Source
