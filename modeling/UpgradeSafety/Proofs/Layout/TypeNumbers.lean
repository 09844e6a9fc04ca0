import Mathlib.Data.List.TakeWhile
import UpgradeSafety.Proofs.Layout.TypePieces
import UpgradeSafety.Proofs.Layout.TypeTerms

/-! What the ids of types are without their numbers. A number is found where the kind is written in
lower case and the name is a word with a capital in front (`TypeId.finds`); there it is left out, and
all else stays as it is, lengths of arrays too (`TypeId.strip_write`). So ids are the same
afterwards exactly when they have differed in such numbers only (`TypeId.strip_eq_iff_alike`). The
number of a value type that a program defines is not among them
(`TypeId.valueType_keeps_number`). -/
namespace UpgradeSafety.TypeId
open TypeTerm

/-- The declarations whose numbers are found: their kind is written in lower case, and their name
has a capital letter in front and no dollar sign. -/
def finds : Numbering := fun kind name =>
  kind != .userDefinedValueType && isUpper name.head && !List.contains name.tail (.char '$')

/-! ### What stays as it is -/

section Stripping
variable {c : Point} {run rest after : Text} {p : Piece}

theorem strip_of_declaration (h : declaration? (c :: rest) = some (p, after)) :
    strip (c :: rest) = p.kept ++ strip after := by
  rw [strip, pieces_of_declaration h, List.flatMap_cons]
  rfl

theorem strip_cons (h : declaration? (c :: rest) = none) :
    strip (c :: rest) = c :: strip rest := by
  rw [strip, pieces_cons h, List.flatMap_cons]
  rfl

/-- A declaration starts with a mark. -/
theorem declaration?_of_ne (h : c ≠ .char 't') : declaration? (c :: rest) = none := by
  unfold declaration?
  split
  · next heq => exact absurd (List.cons.inj heq).1 h
  · rfl

theorem declaration?_of_unmarked (h : rest.head? ≠ some (.char '_')) :
    declaration? (c :: rest) = none := by
  unfold declaration?
  split
  · next heq =>
    obtain ⟨-, rfl⟩ := List.cons.inj heq
    exact absurd rfl h
  · rfl

/-- No bracket with a capitalised name follows the characters of a kind. -/
def Quiet (cs : Text) : Prop :=
  ∀ c rest, cs.dropWhile isKindChar = .char '(' :: c :: rest → isUpper c = false

theorem Quiet.declaration? {cs : Text} (h : Quiet cs) : declaration? cs = none := by
  unfold TypeId.declaration?
  split
  · next rest =>
    dsimp only
    split
    · rfl
    · next c tail hdrop _ =>
      have hquiet := h c tail hdrop
      rw [hquiet, if_neg Bool.false_ne_true]
    · rfl
  · rfl

theorem quiet_cons (hc : c ≠ .char '(') (h : Quiet rest) : Quiet (c :: rest) := by
  intro d tail hdrop
  rw [List.dropWhile_cons] at hdrop
  split at hdrop
  · exact h d tail hdrop
  · exact absurd (List.cons.inj hdrop).1 hc

theorem Ends.quiet (h : Ends rest) : Quiet rest := by
  intro d tail hdrop
  cases rest with
  | nil => cases hdrop
  | cons c rest =>
    have hstops : isKindChar c = false := h.stops rfl rfl c rfl
    rw [List.dropWhile_cons_of_neg (by rw [hstops]; decide)] at hdrop
    rw [hdrop] at h
    exact absurd h (not_ends_paren _)

/-- Characters without an opening bracket stay as they are. -/
theorem strip_append_of_quiet (hrun : .char '(' ∉ run) (h : Quiet rest) :
    Quiet (run ++ rest) ∧ strip (run ++ rest) = run ++ strip rest := by
  induction run with
  | nil => exact ⟨h, rfl⟩
  | cons c run ih =>
    rw [List.mem_cons, not_or] at hrun
    obtain ⟨hquiet, hstrip⟩ := ih hrun.2
    have hcons := quiet_cons (Ne.symm hrun.1) hquiet
    exact ⟨hcons, (strip_cons hcons.declaration?).trans (congrArg (List.cons c) hstrip)⟩

/-- Characters without an underscore stay as they are where none follows. -/
theorem strip_append_of_unmarked (hrun : .char '_' ∉ run) (h : rest.head? ≠ some (.char '_')) :
    strip (run ++ rest) = run ++ strip rest := by
  induction run with
  | nil => rfl
  | cons c run ih =>
    rw [List.mem_cons, not_or] at hrun
    have hnext : (run ++ rest).head? ≠ some (.char '_') := by
      cases run with
      | nil => exact h
      | cons d run =>
        intro heq
        exact hrun.2 (Option.some.inj heq ▸ List.mem_cons_self)
    rw [List.cons_append, strip_cons (declaration?_of_unmarked hnext), ih hrun.2]
    rfl

end Stripping

/-! ### Declarations -/

section Declarations
variable {kind : DeclarationKind} {name : Identifier} {number : Digits} {rest after : Text}

/-- Of the characters of a name only the dollar sign is none of a word. -/
theorem isWordChar_of_tail {c : Point} (h : c ∈ name.tail) (hdollar : c ≠ .char '$') :
    isWordChar c = true := by
  have hrest := name.isRest c h
  cases c with
  | half _ => cases hrest
  | char c =>
    change Text.isWordChar c = true
    simp only [Point.is, Bool.or_eq_true, beq_iff_eq, ne_eq, Point.char.injEq] at hrest hdollar
    rcases hrest with (halphanum | rfl) | rfl
    · simp [Text.isWordChar_ascii (toNat_lt_of_isAlphanum halphanum), halphanum]
    · rfl
    · exact absurd rfl hdollar

/-- A keyword in lower case is read as the kind, and what is in brackets as the name. -/
theorem declaration?_declared (hkind : kind ≠ .userDefinedValueType) (c : Point) (rest : Text) :
    declaration? (.char 't' :: .char '_' :: (kind.keyword ++ .char '(' :: c :: rest)) =
      if isUpper c then
        match rest.dropWhile isWordChar with
        | .char ')' :: after => numbered (.char 't' :: .char '_' :: kind.keyword ++
            .char '(' :: c :: rest.takeWhile isWordChar ++ [.char ')']) after
        | _ => none
      else none := by
  cases kind with
  | contract | struct | enum => rfl
  | userDefinedValueType => exact absurd rfl hkind

theorem declaration?_of_finds (h : finds kind name = true)
    (hafter : ∀ c ∈ after.head?, isDecimal c = false) :
    declaration? (.char 't' :: .char '_' :: (kind.keyword ++ .char '(' :: name.head ::
        (name.tail ++ .char ')' :: (number.chars ++ after)))) =
      some (⟨.char 't' :: .char '_' :: kind.keyword ++ .char '(' :: name.head :: name.tail ++
        [.char ')'], number.chars⟩, after) := by
  simp only [finds, Bool.and_eq_true, bne_iff_ne, Bool.not_eq_true', List.contains_eq_mem,
    decide_eq_false_iff_not] at h
  obtain ⟨⟨hkind, hupper⟩, hdollar⟩ := h
  have hne : kind.keyword ≠ [] := by cases kind <;> decide
  have hkeyword : ∀ c ∈ kind.keyword, isKindChar c = true := by
    cases kind with
    | contract | struct | enum => exact List.all_eq_true.mp rfl
    | userDefinedValueType => exact absurd rfl hkind
  have hword : ∀ c ∈ name.tail, isWordChar c = true := fun c hc =>
    isWordChar_of_tail hc fun heq => hdollar (heq ▸ hc)
  have hnumbered := Piece.Numbered.mk hne hkeyword hupper hword number.ne_nil fun c hc =>
    isDecimal_of_isDigit (number.isDigit c hc)
  simpa [Piece.chars] using declaration?_of_numbered hnumbered hafter

theorem declaration?_of_not_finds (h : finds kind name = false) (rest : Text) :
    declaration? (.char 't' :: .char '_' :: (kind.keyword ++ .char '(' :: name.head ::
      (name.tail ++ .char ')' :: rest))) = none := by
  by_cases hkind : kind = .userDefinedValueType
  · subst hkind
    refine Quiet.declaration? fun c tail hdrop => ?_
    have hcapital : (.char 'D' :: _ : Text) = .char '(' :: c :: tail := hdrop
    exact absurd (List.cons.inj hcapital).1 (by decide)
  · rw [declaration?_declared hkind]
    split
    · next hupper =>
      have hdollar : .char '$' ∈ name.tail := by
        simpa [finds, hkind, hupper] using h
      have hne : name.tail.dropWhile isWordChar ≠ [] := by
        intro hnil
        exact absurd (List.dropWhile_eq_nil_iff.mp hnil (.char '$') hdollar) (by decide)
      rw [List.dropWhile_append, List.isEmpty_eq_false_iff.mpr hne, if_neg Bool.false_ne_true]
      -- what stops the name is a character of it, so it is no bracket
      split
      · next after hbracket =>
        obtain ⟨c, tail, hdrop⟩ := List.exists_cons_of_ne_nil hne
        rw [hdrop] at hbracket
        obtain ⟨rfl, -⟩ := List.cons.inj hbracket
        have hmem : .char ')' ∈ name.tail :=
          (List.dropWhile_suffix _).subset (hdrop ▸ List.mem_cons_self)
        exact absurd (name.isRest _ hmem) (by decide)
      · rfl
    · rfl

end Declarations

/-! ### Whole ids -/

/-- The numbers that are left. -/
def leaves : Numbering := fun kind name => !finds kind name

/-- A bracket in front of an id opens no name. -/
theorem quiet_paren_write (shows : Numbering) (t : TypeTerm) (rest : Text) :
    Quiet (.char '(' :: t.write shows rest) := by
  rw [write_eq]
  intro c tail hdrop
  obtain ⟨rfl, -⟩ := List.cons.inj (List.cons.inj hdrop).2
  rfl

theorem strip_word (shows : Numbering) (t : TypeTerm) {word rest : Text}
    (hword : .char '(' ∉ word) : strip (word ++ .char '(' :: t.write shows rest) =
      word ++ .char '(' :: strip (t.write shows rest) := by
  rw [(strip_append_of_quiet hword (quiet_paren_write shows t rest)).2,
    strip_cons (declaration?_of_ne (by decide))]

theorem paren_notMem_name (name : Identifier) : .char '(' ∉ name.head :: name.tail := by
  intro hmem
  rcases List.mem_cons.mp hmem with hhead | htail
  · exact absurd name.head_isStart (hhead ▸ by decide)
  · exact absurd (name.isRest _ htail) (by decide)

theorem paren_notMem_digits (number : Digits) : .char '(' ∉ number.chars := fun hmem =>
  absurd (number.isDigit _ hmem) (by decide)

theorem paren_notMem_suffix (kind : DeclarationKind) : .char '(' ∉ kind.suffix := by
  cases kind <;> decide

/-- A declaration loses its number if it is found, and otherwise nothing. -/
theorem strip_declared (kind : DeclarationKind) (name : Identifier) (number : Digits)
    {rest : Text} (hrest : Ends rest) :
    strip ((declared kind name number).write (fun _ _ => true) rest) =
      (declared kind name number).write leaves (strip rest) := by
  have hquiet : Quiet rest := Ends.quiet hrest
  show strip (.char 't' :: .char '_' :: (kind.keyword ++ .char '(' :: name.head ::
    (name.tail ++ .char ')' :: (number.chars ++ (kind.suffix ++ rest))))) = _
  cases hfinds : finds kind name with
  | true =>
    have hafter := suffix_stops kind hrest (p := isDecimal) rfl rfl rfl
    rw [strip_of_declaration (declaration?_of_finds hfinds hafter),
      (strip_append_of_quiet (paren_notMem_suffix kind) hquiet).2]
    simp [write, leaves, hfinds]
  | false =>
    have hkeyword : .char '_' ∉ kind.keyword := by cases kind <;> decide
    have hrun :
        .char '(' ∉ name.head :: name.tail ++ .char ')' :: (number.chars ++ kind.suffix) := by
      simp only [List.mem_append, List.mem_cons, not_or]
      have hname := paren_notMem_name name
      rw [List.mem_cons, not_or] at hname
      exact ⟨hname, by decide, paren_notMem_digits number, paren_notMem_suffix kind⟩
    have hstrip := (strip_append_of_quiet hrun hquiet).2
    rw [strip_cons (declaration?_of_not_finds hfinds _),
      strip_cons (declaration?_of_ne (by decide)),
      strip_append_of_unmarked hkeyword (by simp),
      strip_cons (declaration?_of_ne (by decide))]
    simp only [List.cons_append, List.append_assoc] at hstrip
    rw [hstrip]
    simp [write, leaves, hfinds]

theorem strip_write (t : TypeTerm) {rest : Text} (hrest : Ends rest) :
    strip (t.write (fun _ _ => true) rest) = t.write leaves (strip rest) := by
  induction t generalizing rest with
  | elementary w =>
    have hchars : .char '(' ∉ w.chars := fun hmem => absurd (w.isKindChar _ hmem) (by decide)
    have hparen : .char '(' ∉ .char 't' :: .char '_' :: w.chars := by
      simp only [List.mem_cons, not_or]
      exact ⟨by decide, by decide, hchars⟩
    exact (strip_append_of_quiet hparen (Ends.quiet hrest)).2
  | declared kind name number => exact strip_declared kind name number hrest
  | mapping key value ihkey ihvalue =>
    have hword : .char '(' ∉ (.char 't' :: .char '_' :: "mapping" : Text) := by decide
    show strip (.char 't' :: .char '_' :: "mapping" ++ .char '(' :: key.write (fun _ _ => true)
      (.char ',' :: value.write (fun _ _ => true) (.char ')' :: rest))) = _
    rw [strip_word _ _ hword, ihkey (ends_comma _),
      strip_cons (declaration?_of_ne (by decide)), ihvalue (ends_bracket _),
      strip_cons (declaration?_of_ne (by decide))]
    rfl
  | array base length ih =>
    have hword : .char '(' ∉ (.char 't' :: .char '_' :: "array" : Text) := by decide
    have hlength : .char '(' ∉ lengthChars length ++ "_storage" := by
      rw [List.mem_append, not_or]
      refine ⟨fun hmem => ?_, by decide⟩
      exact absurd (lengthChars_isAlphanum length _ hmem) (by decide)
    show strip (.char 't' :: .char '_' :: "array" ++ .char '(' :: base.write (fun _ _ => true)
      (.char ')' :: (lengthChars length ++ ("_storage" ++ rest)))) = _
    rw [strip_word _ _ hword, ih (ends_bracket _),
      strip_cons (declaration?_of_ne (by decide)), ← List.append_assoc,
      (strip_append_of_quiet hlength (Ends.quiet hrest)).2, List.append_assoc]
    rfl

/-- Ids are the same without their numbers exactly when only numbers that are found differ. -/
theorem strip_eq_iff_alike (a b : TypeTerm) : strip a.id = strip b.id ↔ Alike finds a b := by
  have hleft : (fun kind name => !leaves kind name) = finds := by
    funext kind name
    exact Bool.not_not _
  have hstrip (t : TypeTerm) : strip t.id = t.write leaves [] := by
    have hnil : strip [] = [] := by simp [strip, pieces]
    rw [TypeTerm.id, strip_write t ends_nil, hnil]
  rw [hstrip, hstrip]
  constructor
  · intro h
    exact hleft ▸ (alike_of_write_eq ends_nil ends_nil h).1
  · intro h
    exact write_eq_of_alike (hleft ▸ h) []

/-- **Without the numbers that are found, ids are the same exactly when they have differed in such
numbers only. So ids that differ in anything but the numbers of declarations stay different, and
those that differ in nothing else become the same where the kinds are written in lower case and the
names are words with a capital in front.** -/
theorem strip_tells_apart (a b : TypeTerm) :
    (strip a.id = strip b.id ↔ Alike finds a b) ∧
      (¬Alike (fun _ _ => true) a b → strip a.id ≠ strip b.id) ∧
      (a.Within finds → Alike (fun _ _ => true) a b → strip a.id = strip b.id) := by
  have hiff := strip_eq_iff_alike a b
  refine ⟨hiff, fun hnot h => hnot ((hiff.mp h).mono fun _ _ _ => rfl), fun hwithin halike => ?_⟩
  exact hiff.mpr (halike.within hwithin)

/-- A mapping from a contract to arrays of structs, with numbers for the two. -/
def pairsByToken (token pair : Digits) : TypeTerm :=
  .mapping (.declared .contract ⟨.char 'T', "oken", by decide, by decide⟩ token)
    (.array (.declared .struct ⟨.char 'P', "air", by decide, by decide⟩ pair)
      (some ⟨"3", by decide, by decide⟩))

theorem strip_tells_apart_pairs :
    strip "t_mapping(t_contract(Token)7,t_array(t_struct(Pair)12_storage)3_storage)" =
      strip "t_mapping(t_contract(Token)9,t_array(t_struct(Pair)21_storage)3_storage)" :=
  (strip_tells_apart
    (pairsByToken ⟨"7", by decide, by decide⟩ ⟨"12", by decide, by decide⟩)
    (pairsByToken ⟨"9", by decide, by decide⟩ ⟨"21", by decide, by decide⟩)).2.2
    ⟨rfl, rfl⟩ (.mapping (.declared (.inl rfl)) (.array (.declared (.inl rfl))))

/-- A value type that a program defines, with its number. -/
def priceType (number : Digits) : TypeTerm :=
  .declared .userDefinedValueType ⟨.char 'P', "rice", by decide, by decide⟩ number

/-- The number of a value type stays in its id, so a new number makes another id of it. -/
theorem valueType_keeps_number :
    (priceType ⟨"12", by decide, by decide⟩).id = "t_userDefinedValueType(Price)12" ∧
      (priceType ⟨"13", by decide, by decide⟩).id = "t_userDefinedValueType(Price)13" ∧
      Alike (fun _ _ => true) (priceType ⟨"12", by decide, by decide⟩)
        (priceType ⟨"13", by decide, by decide⟩) ∧
      strip "t_userDefinedValueType(Price)12" ≠ strip "t_userDefinedValueType(Price)13" := by
  refine ⟨rfl, rfl, .declared (.inl rfl), by decide +kernel⟩

end UpgradeSafety.TypeId
