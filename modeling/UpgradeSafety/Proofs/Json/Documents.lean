import UpgradeSafety.Proofs.Json.Numbers
import UpgradeSafety.Proofs.Json.Texts

/-! Documents read back. What is written for a value is cut into the tokens of the value
(`scans_write`), and these build the value up again (`leads_tokens`). So a value that has no doubles,
no moments, no long numbers and no name twice comes back from its text, with the halves in its texts
joined (`read?_indented`). -/
namespace UpgradeSafety

/-! ### What comes back -/

namespace Value
open Text (joinHalves)

mutual

/-- The value with the halves in its texts joined. -/
def joined : Value → Value
  | .text s => .text (joinHalves s)
  | .list items => .list (joinedItems items)
  | .record fields => .record (joinedFields fields)
  | v => v

def joinedItems : List Value → List Value
  | [] => []
  | v :: rest => joined v :: joinedItems rest

def joinedFields : List (Text × Value) → List (Text × Value)
  | [] => []
  | (key, v) :: rest => (joinHalves key, joined v) :: joinedFields rest

end

mutual

/-- Whether a value comes back from its text: there are no doubles, no moments and no long numbers in
it, and no record has a name twice, nor with its halves joined. -/
def Returns : Value → Prop
  | .int n => Numeral.Short n
  | .real _ | .moment _ => False
  | .list items => ReturnsItems items
  | .record fields => (fields.map fun field => joinHalves field.1).Nodup ∧ ReturnsFields fields
  | _ => True

def ReturnsItems : List Value → Prop
  | [] => True
  | v :: rest => Returns v ∧ ReturnsItems rest

def ReturnsFields : List (Text × Value) → Prop
  | [] => True
  | (_, v) :: rest => Returns v ∧ ReturnsFields rest

end

theorem joinedItems_eq_map (items : List Value) : joinedItems items = items.map joined := by
  induction items with
  | nil => rfl
  | cons v rest ih => rw [joinedItems, ih, List.map_cons]

theorem lookup_joinedFields (fields : List (Text × Value))
    (h : ∀ key ∈ fields.map Prod.fst, joinHalves key = key) (key : Text) :
    (joinedFields fields).lookup key = (fields.lookup key).map joined := by
  induction fields with
  | nil => rfl
  | cons field rest ih =>
    rw [List.map_cons, List.forall_mem_cons] at h
    rw [joinedFields, h.1, List.lookup_cons, List.lookup_cons, ih h.2]
    cases key == field.1 <;> rfl

theorem returnsItems_iff {items : List Value} : ReturnsItems items ↔ ∀ v ∈ items, v.Returns := by
  induction items with
  | nil => simp [ReturnsItems]
  | cons v rest ih => simp [ReturnsItems, ih]

/-- A new field goes to the end. -/
theorem put_eq_append {fields : List (Text × Value)} {key : Text}
    (h : key ∉ fields.map Prod.fst) (v : Value) : put fields key v = fields ++ [(key, v)] := by
  induction fields with
  | nil => rfl
  | cons field rest ih =>
    rw [List.map_cons, List.mem_cons, not_or] at h
    rw [put, if_neg (Ne.symm h.1), ih h.2, List.cons_append]

end Value

namespace Json
open Text (joinHalves)
open Value (joined joinedItems joinedFields Returns ReturnsItems ReturnsFields put put_eq_append)

/-! ### Tokens -/

mutual

/-- The tokens of a value. -/
def tokens : Value → List Token
  | .text s => [.atom (.text (joinHalves s))]
  | .list [] => [.openList, .closeList]
  | .list (v :: rest) => [.openList] ++ tokens v ++ tokensOfItems rest ++ [.closeList]
  | .record [] => [.openRecord, .closeRecord]
  | .record ((key, v) :: rest) =>
    [.openRecord] ++ [.atom (.text (joinHalves key))] ++ [.colon] ++ tokens v ++
      tokensOfFields rest ++ [.closeRecord]
  | v => [.atom v]

/-- The tokens of the items after the first one. -/
def tokensOfItems : List Value → List Token
  | [] => []
  | v :: rest => [.comma] ++ tokens v ++ tokensOfItems rest

/-- The tokens of the fields after the first one. -/
def tokensOfFields : List (Text × Value) → List Token
  | [] => []
  | (key, v) :: rest =>
    [.comma] ++ [.atom (.text (joinHalves key))] ++ [.colon] ++ tokens v ++ tokensOfFields rest

end

/-- What is written in front of a text is cut into tokens. -/
def Scans (written : Text) (ts : List Token) (rest : Text) : Prop :=
  scan (written ++ rest) = (scan rest).map (ts ++ ·)

theorem Scans.nil (rest : Text) : Scans [] [] rest :=
  Option.map_id'.symm

theorem Scans.append {written written' rest : Text} {ts ts' : List Token}
    (h : Scans written ts (written' ++ rest)) (h' : Scans written' ts' rest) :
    Scans (written ++ written') (ts ++ ts') rest := by
  unfold Scans at h h' ⊢
  rw [List.append_assoc, h, h', Option.map_map]
  congr 1
  funext after
  exact (List.append_assoc ..).symm

theorem scan_blanks {blanks : Text} (h : ∀ p ∈ blanks, p.is isBlank = true) (rest : Text) :
    scan (blanks ++ rest) = scan rest := by
  induction blanks with
  | nil => rfl
  | cons p blanks ih =>
    obtain ⟨hp, hblanks⟩ := List.forall_mem_cons.mp h
    rw [List.cons_append, scan, if_pos hp, ih hblanks]

theorem Scans.newline {written rest : Text} {ts : List Token} {depth : Nat}
    (h : Scans written ts (newline depth ++ rest)) : Scans (written ++ newline depth) ts rest := by
  have hblank : ∀ p ∈ Json.newline depth, p.is isBlank = true := by
    refine List.forall_mem_cons.mpr ⟨rfl, fun p hp => ?_⟩
    rw [List.eq_of_mem_replicate hp]
    rfl
  unfold Scans at h ⊢
  rw [List.append_assoc, h, scan_blanks hblank]

theorem next?_blank {p : Point} (hp : p.is isBlank = true) (rest : Text) :
    next? (p :: rest) = none := by
  cases p with
  | half n => cases hp
  | char c =>
    simp only [Point.is, isBlank, Bool.or_eq_true, beq_iff_eq] at hp
    rcases hp with ((rfl | rfl) | rfl) | rfl <;> rfl

/-- What is read as a token is one. -/
theorem scans_of_next? {written rest : Text} {t : Token}
    (h : next? (written ++ rest) = some (t, rest)) : Scans written [t] rest := by
  cases written with
  | nil => exact absurd (next?_shorter h) (Nat.lt_irrefl _)
  | cons p written =>
    rw [List.cons_append] at h
    have hp : ¬p.is isBlank = true := fun hp => nomatch (next?_blank hp _).symm.trans h
    unfold Scans
    rw [List.cons_append, scan, if_neg hp]
    split
    · next hnone => cases hnone.symm.trans h
    · next hsome =>
      obtain ⟨rfl, rfl⟩ := Prod.mk.inj (Option.some.inj (hsome.symm.trans h))
      rfl

theorem scans_writeText (s rest : Text) :
    Scans (writeText s) [.atom (.text (joinHalves s))] rest :=
  scans_of_next? (next?_writeText s rest)

theorem scans_openList (rest : Text) : Scans "[" [.openList] rest :=
  scans_of_next? rfl

theorem scans_closeList (rest : Text) : Scans "]" [.closeList] rest :=
  scans_of_next? rfl

theorem scans_openRecord (rest : Text) : Scans "\x7b" [.openRecord] rest :=
  scans_of_next? rfl

theorem scans_closeRecord (rest : Text) : Scans "\x7d" [.closeRecord] rest :=
  scans_of_next? rfl

theorem scans_comma (rest : Text) : Scans "," [.comma] rest :=
  scans_of_next? rfl

/-- The colon after a key, with a blank. -/
theorem scans_colon (rest : Text) : Scans ": " [.colon] rest := by
  have hcolon : Scans [.char ':'] [.colon] (.char ' ' :: rest) := scans_of_next? rfl
  have hspace : ∀ p ∈ (" " : Text), p.is isBlank = true := by decide
  have hblank : scan (.char ' ' :: rest) = scan rest := scan_blanks hspace rest
  rw [Scans, hblank] at hcolon
  exact hcolon

theorem ends_writeItems (depth : Nat) (items : List Value) (rest : Text) :
    Ends (writeItems (depth + 1) items ++ (newline depth ++ rest)) := by
  cases items with
  | nil => exact ends_newline depth rest
  | cons v items => exact ends_comma _

theorem ends_writeFields (depth : Nat) (fields : List (Text × Value)) (rest : Text) :
    Ends (writeFields (depth + 1) fields ++ (newline depth ++ rest)) := by
  cases fields with
  | nil => exact ends_newline depth rest
  | cons field fields => exact ends_comma _

mutual

/-- What is written for a value is cut into its tokens. -/
theorem scans_write (depth : Nat) : ∀ (v : Value) {rest : Text}, v.Returns → Ends rest →
    Scans (write depth v) (tokens v) rest
  | .null, _, _, _ => scans_of_next? (t := .atom .null) rfl
  | .bool true, _, _, _ => scans_of_next? (t := .atom (.bool true)) rfl
  | .bool false, _, _, _ => scans_of_next? (t := .atom (.bool false)) rfl
  | .int _, _, hn, hrest => scans_of_next? (next?_toString hn hrest)
  | .text s, rest, _, _ => scans_writeText s rest
  | .list [], rest, _, _ => (scans_openList _).append (scans_closeList rest)
  | .list (v :: items), rest, ⟨hv, hitems⟩, _ =>
    have hopen := (scans_openList _).newline
    have hfirst := hopen.append (scans_write (depth + 1) v hv (ends_writeItems depth items _))
    have hall := hfirst.append (scans_writeItems depth items hitems _)
    hall.newline.append (scans_closeList rest)
  | .record [], rest, _, _ => (scans_openRecord _).append (scans_closeRecord rest)
  | .record ((key, v) :: fields), rest, ⟨_, hv, hfields⟩, _ =>
    have hopen := (scans_openRecord _).newline
    have hkey := (hopen.append (scans_writeText key _)).append (scans_colon _)
    have hfirst := hkey.append (scans_write (depth + 1) v hv (ends_writeFields depth fields _))
    have hall := hfirst.append (scans_writeFields depth fields hfields _)
    hall.newline.append (scans_closeRecord rest)

theorem scans_writeItems (depth : Nat) : ∀ (items : List Value), ReturnsItems items →
    ∀ rest : Text, Scans (writeItems (depth + 1) items) (tokensOfItems items) (newline depth ++ rest)
  | [], _, _ => .nil _
  | v :: items, ⟨hv, hitems⟩, rest =>
    have hcomma := (scans_comma _).newline
    have hfirst := hcomma.append (scans_write (depth + 1) v hv (ends_writeItems depth items rest))
    hfirst.append (scans_writeItems depth items hitems rest)

theorem scans_writeFields (depth : Nat) : ∀ (fields : List (Text × Value)), ReturnsFields fields →
    ∀ rest : Text,
      Scans (writeFields (depth + 1) fields) (tokensOfFields fields) (newline depth ++ rest)
  | [], _, _ => .nil _
  | (key, v) :: fields, ⟨hv, hfields⟩, rest =>
    have hcomma := (scans_comma _).newline
    have hkey := (hcomma.append (scans_writeText key _)).append (scans_colon _)
    have hfirst := hkey.append (scans_write (depth + 1) v hv (ends_writeFields depth fields rest))
    hfirst.append (scans_writeFields depth fields hfields rest)

end

/-! ### The machine -/

/-- The tokens take the machine from one state to another. -/
def Leads (s : State) (ts : List Token) (s' : State) : Prop :=
  ts.foldlM step s = some s'

theorem Leads.of_step {s s' : State} {t : Token} (h : step s t = some s') : Leads s [t] s' := by
  rw [Leads, List.foldlM_cons, h]
  rfl

theorem Leads.append {s s' s'' : State} {ts ts' : List Token} (h : Leads s ts s')
    (h' : Leads s' ts' s'') : Leads s (ts ++ ts') s'' := by
  unfold Leads at h h' ⊢
  rw [List.foldlM_append, h]
  exact h'

/-- In the state a value may begin, inside some containers. -/
def Awaits (s : State) (stack : List Frame) : Prop :=
  ∀ {t s'}, begin? stack t = some s' → step s t = some s'

theorem Awaits.leads {s s' : State} {stack : List Frame} {t : Token} (h : Awaits s stack)
    (ht : begin? stack t = some s') : Leads s [t] s' :=
  .of_step (h ht)

theorem awaits_value (stack : List Frame) : Awaits (.value stack) stack :=
  id

/-- In a list that has just been opened the first item may begin. -/
theorem awaits_item (stack : List Frame) :
    Awaits (.item (.list [] :: stack)) (.list [] :: stack) := by
  intro t s' h
  cases t with
  | closeList => cases h
  | _ => exact h

theorem notMem_of_nodup_append {key : Text} {keys more : List Text}
    (h : (keys ++ key :: more).Nodup) : key ∉ keys := fun hmem =>
  List.nodup_append.mp h |>.2.2 key hmem key List.mem_cons_self rfl

mutual

/-- The tokens of a value build it up, with its halves joined. -/
theorem leads_tokens : ∀ (v : Value), v.Returns → ∀ {s : State} {stack : List Frame},
    Awaits s stack → Leads s (tokens v) (.after v.joined stack)
  | .null, _, _, _, hs | .bool _, _, _, _, hs | .int _, _, _, _, hs | .text _, _, _, _, hs =>
    hs.leads rfl
  | .list [], _, s, stack, hs =>
    have hopen : Leads s [.openList] (.item (.list [] :: stack)) := hs.leads rfl
    hopen.append (.of_step rfl)
  | .list (v :: items), ⟨hv, hitems⟩, s, stack, hs => by
    have hopen : Leads s [.openList] (.item (.list [] :: stack)) := hs.leads rfl
    rw [tokens, List.append_assoc]
    exact (hopen.append (leads_tokens v hv (awaits_item stack))).append
      (leads_tokensOfItems items hitems)
  | .record [], _, s, stack, hs =>
    have hopen : Leads s [.openRecord] (.entry stack) := hs.leads rfl
    hopen.append (.of_step rfl)
  | .record ((key, v) :: fields), ⟨hnodup, hv, hfields⟩, s, stack, hs => by
    have hopen : Leads s [.openRecord] (.entry stack) := hs.leads rfl
    have hkey : Leads (.entry stack) [.atom (.text (joinHalves key))]
      (.colon [] (joinHalves key) stack) := .of_step rfl
    have hrest : Leads (.after v.joined (.record [] (joinHalves key) :: stack))
        (tokensOfFields fields ++ [.closeRecord])
        (.after (.record ([] ++ (joinHalves key, v.joined) :: joinedFields fields)) stack) :=
      leads_tokensOfFields fields hfields hnodup
    rw [tokens, List.append_assoc]
    exact (((hopen.append hkey).append (.of_step rfl)).append
      (leads_tokens v hv (awaits_value _))).append hrest

/-- The tokens of the items after `w` and of the end of the list build up the list. -/
theorem leads_tokensOfItems : ∀ (items : List Value), ReturnsItems items →
    ∀ {w : Value} {before : List Value} {stack : List Frame},
      Leads (.after w (.list before :: stack)) (tokensOfItems items ++ [.closeList])
        (.after (.list (before.reverse ++ w :: joinedItems items)) stack)
  | [], _, w, before, stack => by
    have hclose : Leads (.after w (.list before :: stack)) [.closeList]
      (.after (.list (w :: before).reverse) stack) := .of_step rfl
    rwa [List.reverse_cons] at hclose
  | v :: items, ⟨hv, hitems⟩, w, before, stack => by
    have hcomma : Leads (.after w (.list before :: stack)) [.comma]
      (.value (.list (w :: before) :: stack)) := .of_step rfl
    have hrest : Leads (.after v.joined (.list (w :: before) :: stack))
        (tokensOfItems items ++ [.closeList])
        (.after (.list ((w :: before).reverse ++ v.joined :: joinedItems items)) stack) :=
      leads_tokensOfItems items hitems
    rw [List.reverse_cons, List.append_assoc] at hrest
    rw [tokensOfItems, List.append_assoc]
    exact (hcomma.append (leads_tokens v hv (awaits_value _))).append hrest

/-- The tokens of the fields after that of `w` and of the end of the record build up the record. -/
theorem leads_tokensOfFields : ∀ (fields : List (Text × Value)), ReturnsFields fields →
    ∀ {w : Value} {before : List (Text × Value)} {key : Text} {stack : List Frame},
      (before.map Prod.fst ++ key :: fields.map fun field => joinHalves field.1).Nodup →
      Leads (.after w (.record before key :: stack)) (tokensOfFields fields ++ [.closeRecord])
        (.after (.record (before ++ (key, w) :: joinedFields fields)) stack)
  | [], _, w, before, key, stack, hnodup => by
    have hclose : Leads (.after w (.record before key :: stack)) [.closeRecord]
      (.after (.record (put before key w)) stack) := .of_step rfl
    rwa [put_eq_append (notMem_of_nodup_append hnodup)] at hclose
  | (key', v) :: fields, ⟨hv, hfields⟩, w, before, key, stack, hnodup => by
    have hcomma : Leads (.after w (.record before key :: stack)) [.comma]
      (.key (put before key w) stack) := .of_step rfl
    have hkey : Leads (.key (put before key w) stack) [.atom (.text (joinHalves key'))]
      (.colon (put before key w) (joinHalves key') stack) := .of_step rfl
    rw [put_eq_append (notMem_of_nodup_append hnodup)] at hcomma hkey
    have hnodup' : ((before ++ [(key, w)]).map Prod.fst ++
        joinHalves key' :: fields.map fun field => joinHalves field.1).Nodup := by
      rwa [List.map_append, List.append_assoc]
    have hrest : Leads (.after v.joined (.record (before ++ [(key, w)]) (joinHalves key') :: stack))
        (tokensOfFields fields ++ [.closeRecord])
        (.after (.record (before ++ [(key, w)] ++ (joinHalves key', v.joined) ::
          joinedFields fields)) stack) := leads_tokensOfFields fields hfields hnodup'
    rw [List.append_assoc] at hrest
    rw [tokensOfFields, List.append_assoc]
    exact (((hcomma.append hkey).append (.of_step rfl)).append
      (leads_tokens v hv (awaits_value _))).append hrest

end

/-- **A value that is written is read back, with the halves in its texts joined.** -/
theorem read?_indented {v : Value} (h : v.Returns) {blanks : Text}
    (hblanks : ∀ p ∈ blanks, p.is isBlank = true) : read? (indented v ++ blanks) = some v.joined := by
  have hends : Ends blanks := fun p hp => .inr (hblanks p (List.mem_of_mem_head? hp))
  have hscan : scan blanks = some [] := by
    rw [← List.append_nil blanks, scan_blanks hblanks, scan]
  have htokens : scan (indented v ++ blanks) = some (tokens v) := by
    have hscans : Scans (indented v) (tokens v) blanks := scans_write 0 v h hends
    rw [hscans, hscan, Option.map_some, List.append_nil]
  have hbuilt : (tokens v).foldlM step (.value []) = some (.after v.joined []) :=
    leads_tokens v h (awaits_value [])
  rw [read?, htokens, Option.bind_some, ofTokens?, hbuilt]

end Json

end UpgradeSafety
