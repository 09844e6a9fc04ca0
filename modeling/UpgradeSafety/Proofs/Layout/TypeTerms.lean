import UpgradeSafety.Layout.TypeId
import UpgradeSafety.Proofs.Runs

/-! Types as their ids name them. An id starts with a word that says what the type is, and its parts
follow in brackets (`TypeTerm.write_eq`), so it can be read in one way only, also with some of the
numbers left out: then it tells types apart that differ in anything but those
(`TypeTerm.alike_of_write_eq`, `TypeTerm.write_eq_of_alike`). -/
namespace UpgradeSafety

/-! ### The parts of an id -/

/-- What a program declares and the compiler numbers. -/
inductive DeclarationKind where
  | contract
  | struct
  | enum
  | userDefinedValueType
  deriving DecidableEq

namespace DeclarationKind

def keyword : DeclarationKind → Text
  | .contract => "contract"
  | .struct => "struct"
  | .enum => "enum"
  | .userDefinedValueType => "userDefinedValueType"

/-- Only structs are said to be in storage. -/
def suffix : DeclarationKind → Text
  | .struct => "_storage"
  | _ => []

end DeclarationKind

/-- The name of a declaration: ASCII letters, digits, underscores and dollar signs, with no digit in
front. -/
@[ext] structure Identifier where
  head : Point
  tail : Text
  head_isStart : head.is (fun c => c.isAlpha || c == '_' || c == '$') = true
  tail_isRest : tail.all (Point.is fun c => c.isAlphanum || c == '_' || c == '$') = true

/-- Digits, one at least. -/
@[ext] structure Digits where
  chars : Text
  ne_nil : chars ≠ []
  all_isDigit : chars.all (Point.is Char.isDigit) = true

/-- What follows the mark in the id of an elementary type. -/
@[ext] structure ElementaryWord where
  chars : Text
  ne_nil : chars ≠ []
  all_isKindChar : chars.all TypeId.isKindChar = true

theorem Identifier.isRest (name : Identifier) :
    ∀ p ∈ name.tail, p.is (fun c => c.isAlphanum || c == '_' || c == '$') = true :=
  List.all_eq_true.mp name.tail_isRest

theorem Digits.isDigit (n : Digits) : ∀ p ∈ n.chars, p.is Char.isDigit = true :=
  List.all_eq_true.mp n.all_isDigit

theorem ElementaryWord.isKindChar (w : ElementaryWord) :
    ∀ c ∈ w.chars, TypeId.isKindChar c = true :=
  List.all_eq_true.mp w.all_isKindChar

/-- A type as its id names it. An array has a length, or is dynamic. -/
inductive TypeTerm where
  | elementary (word : ElementaryWord)
  | declared (kind : DeclarationKind) (name : Identifier) (number : Digits)
  | mapping (key value : TypeTerm)
  | array (base : TypeTerm) (length : Option Digits)

/-- Which declarations have their numbers in an id. -/
abbrev Numbering := DeclarationKind → Identifier → Bool

namespace TypeTerm

def lengthChars : Option Digits → Text
  | none => "dyn"
  | some n => n.chars

/-- The characters of an id in front of a text. -/
def write (shows : Numbering) : TypeTerm → Text → Text
  | .elementary word, rest => .char 't' :: .char '_' :: (word.chars ++ rest)
  | .declared kind name number, rest =>
    .char 't' :: .char '_' :: (kind.keyword ++ .char '(' :: name.head :: (name.tail ++ .char ')' ::
      ((if shows kind name then number.chars else []) ++ (kind.suffix ++ rest))))
  | .mapping key value, rest =>
    .char 't' :: .char '_' :: ("mapping" ++ .char '(' :: key.write shows
      (.char ',' :: value.write shows (.char ')' :: rest)))
  | .array base length, rest =>
    .char 't' :: .char '_' :: ("array" ++ .char '(' :: base.write shows (.char ')' ::
      (lengthChars length ++ ("_storage" ++ rest))))

/-- The id that the compiler writes, with all numbers. -/
def id (t : TypeTerm) : Text :=
  t.write (fun _ _ => true) []

/-- The same type but for the numbers of some declarations. -/
inductive Alike (free : Numbering) : TypeTerm → TypeTerm → Prop where
  | elementary (word : ElementaryWord) : Alike free (.elementary word) (.elementary word)
  | declared {kind : DeclarationKind} {name : Identifier} {number number' : Digits}
      (h : free kind name = true ∨ number = number') :
      Alike free (.declared kind name number) (.declared kind name number')
  | mapping {key key' value value' : TypeTerm} (hkey : Alike free key key')
      (hvalue : Alike free value value') : Alike free (.mapping key value) (.mapping key' value')
  | array {base base' : TypeTerm} {length : Option Digits} (hbase : Alike free base base') :
      Alike free (.array base length) (.array base' length)

theorem Alike.mono {free free' : Numbering} {a b : TypeTerm} (h : Alike free a b)
    (hfree : ∀ kind name, free kind name = true → free' kind name = true) : Alike free' a b := by
  induction h with
  | elementary word => exact .elementary word
  | declared h => exact .declared (h.imp_left (hfree _ _))
  | mapping _ _ ihkey ihvalue => exact .mapping ihkey ihvalue
  | array _ ih => exact .array ih

/-- Every declaration in a type is one of these. -/
def Within (numbering : Numbering) : TypeTerm → Prop
  | .elementary _ => True
  | .declared kind name _ => numbering kind name = true
  | .mapping key value => key.Within numbering ∧ value.Within numbering
  | .array base _ => base.Within numbering

/-- Only the declarations that there are count. -/
theorem Alike.within {free free' : Numbering} {a b : TypeTerm} (h : Alike free a b)
    (ha : a.Within free') : Alike free' a b := by
  induction h with
  | elementary word => exact .elementary word
  | declared => exact .declared (.inl ha)
  | mapping _ _ ihkey ihvalue => exact .mapping (ihkey ha.1) (ihvalue ha.2)
  | array _ ih => exact .array (ih ha)

/-! ### Reading an id -/

/-- Where an id may end. -/
def Ends (rest : Text) : Prop :=
  ∀ p ∈ rest.head?, p = .char ',' ∨ p = .char ')'

theorem ends_nil : Ends [] := nofun

theorem ends_comma (rest : Text) : Ends (.char ',' :: rest) := by
  rintro _ ⟨⟩
  exact .inl rfl

theorem ends_bracket (rest : Text) : Ends (.char ')' :: rest) := by
  rintro _ ⟨⟩
  exact .inr rfl

theorem Ends.stops {rest : Text} (h : Ends rest) {p : Point → Bool} (hcomma : p (.char ',') = false)
    (hbracket : p (.char ')') = false) : ∀ c ∈ rest.head?, p c = false := by
  intro c hc
  rcases h c hc with rfl | rfl
  · exact hcomma
  · exact hbracket

theorem not_ends_paren (rest : Text) : ¬Ends (.char '(' :: rest) := by
  intro h
  exact absurd (h (.char '(') rfl) (by decide)

/-- The word that says what a type is. -/
def word : TypeTerm → Text
  | .elementary word => word.chars
  | .declared kind _ _ => kind.keyword
  | .mapping _ _ => "mapping"
  | .array _ _ => "array"

/-- What follows the word, in front of a text. -/
def body (shows : Numbering) : TypeTerm → Text → Text
  | .elementary _, rest => rest
  | .declared kind name number, rest =>
    .char '(' :: name.head :: (name.tail ++ .char ')' ::
      ((if shows kind name then number.chars else []) ++ (kind.suffix ++ rest)))
  | .mapping key value, rest =>
    .char '(' :: key.write shows (.char ',' :: value.write shows (.char ')' :: rest))
  | .array base length, rest =>
    .char '(' :: base.write shows (.char ')' :: (lengthChars length ++ ("_storage" ++ rest)))

theorem write_eq (shows : Numbering) (t : TypeTerm) (rest : Text) :
    t.write shows rest = .char 't' :: .char '_' :: (t.word ++ t.body shows rest) := by
  cases t <;> rfl

/-- Characters of a word. -/
def isWordPart : Point → Bool :=
  Point.is fun c => c.isAlphanum || c == '_'

theorem isWordPart_of_isKindChar {p : Point} (h : TypeId.isKindChar p = true) :
    isWordPart p = true := by
  cases p with
  | half n => cases h
  | char c =>
    change (c.isLower || c.isDigit || c == '_') = true at h
    show (c.isUpper || c.isLower || c.isDigit || c == '_') = true
    rw [Bool.or_assoc, Bool.or_assoc, ← Bool.or_assoc c.isLower, h, Bool.or_true]

theorem word_isWordPart (t : TypeTerm) : ∀ c ∈ t.word, isWordPart c = true := by
  cases t with
  | elementary word => exact fun c hc => isWordPart_of_isKindChar (word.isKindChar c hc)
  | declared kind =>
    refine List.all_eq_true.mp (show kind.keyword.all isWordPart = true from ?_)
    cases kind <;> rfl
  | mapping => exact List.all_eq_true.mp (show List.all "mapping" isWordPart = true from rfl)
  | array => exact List.all_eq_true.mp (show List.all "array" isWordPart = true from rfl)

theorem body_stops (shows : Numbering) (t : TypeTerm) {rest : Text} (h : Ends rest) :
    ∀ c ∈ (t.body shows rest).head?, isWordPart c = false := by
  cases t with
  | elementary => exact h.stops rfl rfl
  | declared | mapping | array =>
    rintro _ ⟨⟩
    rfl

/-- Ids that are the same start with the same word. -/
theorem word_eq_of_write_eq {shows : Numbering} {a b : TypeTerm} {rest rest' : Text}
    (hrest : Ends rest) (hrest' : Ends rest') (h : a.write shows rest = b.write shows rest') :
    a.word = b.word ∧ a.body shows rest = b.body shows rest' := by
  rw [write_eq, write_eq] at h
  exact run_unique a.word_isWordPart (a.body_stops shows hrest) b.word_isWordPart
    (b.body_stops shows hrest') (List.cons.inj (List.cons.inj h).2).2

theorem keyword_injective {kind kind' : DeclarationKind} (h : kind.keyword = kind'.keyword) :
    kind = kind' := by
  cases kind <;> cases kind' <;> first | rfl | exact absurd h (by decide)

theorem keyword_ne (kind : DeclarationKind) :
    kind.keyword ≠ "mapping" ∧ kind.keyword ≠ "array" := by
  cases kind <;> decide

theorem mapping_ne_array : ("mapping" : Text) ≠ "array" := by
  decide

/-- Only an elementary type has nothing after its word. -/
theorem exists_elementary {shows : Numbering} {t : TypeTerm} {rest rest' : Text}
    (hrest' : Ends rest') (h : t.body shows rest = rest') : ∃ word, t = .elementary word := by
  subst h
  cases t with
  | elementary word => exact ⟨word, rfl⟩
  | declared | mapping | array => exact absurd hrest' (not_ends_paren _)

theorem suffix_stops (kind : DeclarationKind) {rest : Text} (h : Ends rest) {p : Point → Bool}
    (hcomma : p (.char ',') = false) (hbracket : p (.char ')') = false)
    (hunderscore : p (.char '_') = false) :
    ∀ c ∈ (kind.suffix ++ rest).head?, p c = false := by
  cases kind with
  | struct =>
    rintro _ ⟨⟩
    exact hunderscore
  | contract | enum | userDefinedValueType => exact h.stops hcomma hbracket

/-- What follows the keyword of a declaration shows its name, and its number if that is shown. -/
theorem declared_of_body_eq {shows : Numbering} {kind : DeclarationKind} {name name' : Identifier}
    {number number' : Digits} {rest rest' : Text} (hrest : Ends rest) (hrest' : Ends rest')
    (h : (declared kind name number).body shows rest =
      (declared kind name' number').body shows rest') :
    name = name' ∧ (shows kind name = true → number = number') ∧ rest = rest' := by
  obtain ⟨hhead, h⟩ := List.cons.inj (List.cons.inj h).2
  obtain ⟨htail, h⟩ := run_unique name.isRest (by rintro _ ⟨⟩; rfl) name'.isRest
    (by rintro _ ⟨⟩; rfl) h
  obtain rfl := Identifier.ext hhead htail
  replace h := (List.cons.inj h).2
  refine ⟨rfl, ?_⟩
  cases hshows : shows kind name with
  | true =>
    rw [hshows, if_pos rfl, if_pos rfl] at h
    obtain ⟨hnumber, h⟩ := run_unique number.isDigit (suffix_stops kind hrest rfl rfl rfl)
      number'.isDigit (suffix_stops kind hrest' rfl rfl rfl) h
    exact ⟨fun _ => Digits.ext hnumber, List.append_cancel_left h⟩
  | false =>
    rw [hshows, if_neg Bool.false_ne_true, if_neg Bool.false_ne_true] at h
    exact ⟨nofun, List.append_cancel_left h⟩

theorem lengthChars_isAlphanum (length : Option Digits) :
    ∀ c ∈ lengthChars length, c.is Char.isAlphanum = true := by
  cases length with
  | none =>
    exact List.all_eq_true.mp (show List.all "dyn" (Point.is Char.isAlphanum) = true from rfl)
  | some n =>
    intro p hp
    have hdigit := n.isDigit p hp
    cases p with
    | half _ => cases hdigit
    | char c =>
      change c.isDigit = true at hdigit
      show (c.isAlpha || c.isDigit) = true
      rw [hdigit, Bool.or_true]

theorem lengthChars_injective {length length' : Option Digits}
    (h : lengthChars length = lengthChars length') : length = length' := by
  -- the word for a dynamic array does not start with a digit
  have hdyn (n : Digits) : "dyn" ≠ n.chars := fun h =>
    absurd (n.isDigit (.char 'd') (h ▸ by decide)) (by decide)
  cases length with
  | none =>
    cases length' with
    | none => rfl
    | some n => exact absurd h (hdyn n)
  | some n =>
    cases length' with
    | none => exact absurd h.symm (hdyn n)
    | some n' => exact congrArg some (Digits.ext h)

/-- An id is read in one way, but for the numbers that it does not show. -/
theorem alike_of_write_eq {shows : Numbering} {a b : TypeTerm} {rest rest' : Text}
    (hrest : Ends rest) (hrest' : Ends rest') (h : a.write shows rest = b.write shows rest') :
    Alike (fun kind name => !shows kind name) a b ∧ rest = rest' := by
  induction a generalizing b rest rest' with
  | elementary w =>
    obtain ⟨hword, hbody⟩ := word_eq_of_write_eq hrest hrest' h
    obtain ⟨w', rfl⟩ := exists_elementary hrest hbody.symm
    obtain rfl := ElementaryWord.ext hword
    exact ⟨.elementary w, hbody⟩
  | declared kind name number =>
    obtain ⟨hword, hbody⟩ := word_eq_of_write_eq hrest hrest' h
    cases b with
    | elementary => exact nomatch exists_elementary hrest' hbody
    | declared kind' name' number' =>
      obtain rfl := keyword_injective hword
      obtain ⟨rfl, hnumber, rfl⟩ := declared_of_body_eq hrest hrest' hbody
      refine ⟨.declared ?_, rfl⟩
      rw [Bool.not_eq_true', ← Bool.not_eq_true]
      exact (em _).symm.imp_right hnumber
    | mapping => exact absurd hword (keyword_ne kind).1
    | array => exact absurd hword (keyword_ne kind).2
  | mapping key value ihkey ihvalue =>
    obtain ⟨hword, hbody⟩ := word_eq_of_write_eq hrest hrest' h
    cases b with
    | elementary => exact nomatch exists_elementary hrest' hbody
    | declared kind' => exact absurd hword.symm (keyword_ne kind').1
    | mapping key' value' =>
      obtain ⟨hkey, hvalues⟩ := ihkey (ends_comma _) (ends_comma _) (List.cons.inj hbody).2
      obtain ⟨hvalue, hafter⟩ :=
        ihvalue (ends_bracket _) (ends_bracket _) (List.cons.inj hvalues).2
      exact ⟨.mapping hkey hvalue, (List.cons.inj hafter).2⟩
    | array => exact absurd hword mapping_ne_array
  | array base length ih =>
    obtain ⟨hword, hbody⟩ := word_eq_of_write_eq hrest hrest' h
    cases b with
    | elementary => exact nomatch exists_elementary hrest' hbody
    | declared kind' => exact absurd hword.symm (keyword_ne kind').2
    | mapping => exact absurd hword.symm mapping_ne_array
    | array base' length' =>
      obtain ⟨hbase, hafter⟩ := ih (ends_bracket _) (ends_bracket _) (List.cons.inj hbody).2
      obtain ⟨hlength, hstorage⟩ := run_unique (lengthChars_isAlphanum length)
        (by rintro _ ⟨⟩; rfl) (lengthChars_isAlphanum length') (by rintro _ ⟨⟩; rfl)
        (List.cons.inj hafter).2
      obtain rfl := lengthChars_injective hlength
      exact ⟨.array hbase, List.append_cancel_left hstorage⟩

/-- Types that are alike have one id when the numbers in which they may differ are left out. -/
theorem write_eq_of_alike {shows : Numbering} {a b : TypeTerm}
    (h : Alike (fun kind name => !shows kind name) a b) (rest : Text) :
    a.write shows rest = b.write shows rest := by
  induction h generalizing rest with
  | elementary => rfl
  | declared h =>
    rcases h with hfree | rfl
    · rw [Bool.not_eq_true'] at hfree
      rw [write, write, hfree, if_neg Bool.false_ne_true, if_neg Bool.false_ne_true]
    · rfl
  | mapping _ _ ihkey ihvalue => rw [write, write, ihvalue, ihkey]
  | array _ ih => rw [write, write, ih]

end TypeTerm

end UpgradeSafety
