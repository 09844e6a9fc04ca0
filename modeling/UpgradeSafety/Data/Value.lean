import UpgradeSafety.Number.Numeral
import UpgradeSafety.Number.Shortest
import UpgradeSafety.Text.Quoted

/-! Values of data files: what JSON and TOML documents hold. A record keeps its fields in the
order they were first written, and a later value for a field replaces the earlier one in place
(`lookup_put`). Two values are the same when they denote the same thing, so a flag, a whole number
and a double may be one number, and the order of a record's fields does not count. A message can
show a value exactly if all whole numbers in it have decimal texts (`exists_describe_iff`). -/
namespace UpgradeSafety

inductive Value where
  | null
  | bool (b : Bool)
  | int (n : Int)
  | real (x : Binary64)
  /-- A date or a time of day, as it is written down. -/
  | moment (written : Text)
  | text (s : Text)
  | list (items : List Value)
  | record (fields : List (Text × Value))
  deriving Inhabited

namespace Value

/-- Gives a field of a record a value. -/
def put (fields : List (Text × Value)) (key : Text) (v : Value) : List (Text × Value) :=
  match fields with
  | [] => [(key, v)]
  | (k, w) :: rest => if k = key then (k, v) :: rest else (k, w) :: put rest key v

/-- The value of a record's field; other values have none. -/
def field? (v : Value) (key : Text) : Option Value :=
  match v with
  | .record fields => fields.lookup key
  | _ => none

/-- The value of a field that may be left out. -/
def field (v : Value) (key : Text) : Value :=
  (v.field? key).getD .null

/-- What counts as nothing: null, false, zero, and whatever is empty. -/
def isVacant : Value → Bool
  | .null => true
  | .bool b => !b
  | .int n => n == 0
  | .real x => x.isZero
  | .moment _ => false
  | .text s => s.isEmpty
  | .list items => items.isEmpty
  | .record fields => fields.isEmpty

/-- Whether the value can name an entry of a table. -/
def isKey : Value → Bool
  | .list _ | .record _ => false
  | _ => true

/-- The number that a flag, a whole number or a double stands for. -/
def sameNumber : Value → Value → Bool
  | .bool a, .bool b => a == b
  | .bool a, .int n | .int n, .bool a => (if a then 1 else 0) == n
  | .int m, .int n => m == n
  | .bool a, .real x | .real x, .bool a => x.isInt (if a then 1 else 0)
  | .int n, .real x | .real x, .int n => x.isInt n
  | .real x, .real y => x.same y
  | _, _ => false

mutual

/-- Equality inside a list or a record, where what is not a number equals itself. -/
def sameInside : Value → Value → Bool
  | .null, .null => true
  | .moment s, .moment t => s == t
  | .text s, .text t => s == t
  | .list xs, .list ys => sameItems xs ys
  | .record xs, .record ys => xs.length == ys.length && sameFields xs ys
  | .real .nan, .real .nan => true
  | v, w => v.sameNumber w

def sameItems : List Value → List Value → Bool
  | [], [] => true
  | v :: vs, w :: ws => sameInside v w && sameItems vs ws
  | _, _ => false

/-- Whether every field of the first record has its value in the second. -/
def sameFields : List (Text × Value) → List (Text × Value) → Bool
  | [], _ => true
  | (key, v) :: rest, others =>
    (match others.lookup key with
      | some w => sameInside v w
      | none => false) && sameFields rest others

end

mutual

/-- Whether two values are of one form and hold the same. -/
def identical : Value → Value → Bool
  | .null, .null => true
  | .bool a, .bool b => a == b
  | .int m, .int n => m == n
  | .real x, .real y => x == y
  | .moment s, .moment t => s == t
  | .text s, .text t => s == t
  | .list xs, .list ys => identicalItems xs ys
  | .record xs, .record ys => identicalFields xs ys
  | _, _ => false

def identicalItems : List Value → List Value → Bool
  | [], [] => true
  | v :: vs, w :: ws => identical v w && identicalItems vs ws
  | _, _ => false

def identicalFields : List (Text × Value) → List (Text × Value) → Bool
  | [], [] => true
  | (key, v) :: xs, (key', w) :: ys => key == key' && identical v w && identicalFields xs ys
  | _, _ => false

end

mutual

theorem identical_iff : ∀ v w : Value, v.identical w = true ↔ v = w
  | .list xs, w => by cases w <;> simp [identical, identicalItems_iff xs]
  | .record xs, w => by cases w <;> simp [identical, identicalFields_iff xs]
  | .null, w | .bool _, w | .int _, w | .real _, w | .moment _, w | .text _, w => by
    cases w <;> simp [identical]

theorem identicalItems_iff : ∀ vs ws : List Value, identicalItems vs ws = true ↔ vs = ws
  | [], ws => by cases ws <;> simp [identicalItems]
  | v :: vs, ws => by cases ws <;> simp [identicalItems, identical_iff v, identicalItems_iff vs]

theorem identicalFields_iff : ∀ xs ys : List (Text × Value), identicalFields xs ys = true ↔ xs = ys
  | [], ys => by cases ys <;> simp [identicalFields]
  | (key, v) :: xs, ys => by
    cases ys <;> simp [identicalFields, identical_iff v, identicalFields_iff xs, Prod.ext_iff]

end

instance : DecidableEq Value := fun v w => decidable_of_iff _ (identical_iff v w)

/-- Equality of values. On its own, what is not a number differs even from itself. -/
def same : Value → Value → Bool
  | .real x, .real y => x.same y
  | v, w => v.sameInside w

mutual

/-- The text of a value in a message: as a reader would write it down, with texts in quotes. -/
def describe : Value → Except LongNumber Text
  | .null => .ok "None"
  | .bool true => .ok "True"
  | .bool false => .ok "False"
  | .int n => Numeral.write n
  | .real x => .ok x.text
  | .moment written => .ok written
  | .text s => .ok (Text.quoted s)
  | .list items => (describeItems items).map fun parts => "[" ++ Text.intercalate ", " parts ++ "]"
  | .record fields =>
    (describeFields fields).map fun parts => "\x7b" ++ Text.intercalate ", " parts ++ "\x7d"

def describeItems : List Value → Except LongNumber (List Text)
  | [] => .ok []
  | v :: rest => do
    let part ← describe v
    return part :: (← describeItems rest)

def describeFields : List (Text × Value) → Except LongNumber (List Text)
  | [] => .ok []
  | (key, v) :: rest => do
    let part ← describe v
    return (Text.quoted key ++ ": " ++ part) :: (← describeFields rest)

end

/-- The text of a value in a message: a text is itself. -/
def display : Value → Except LongNumber Text
  | .text s => .ok s
  | v => v.describe

mutual

/-- Whether all whole numbers in a value have decimal texts. -/
def Short : Value → Prop
  | .int n => Numeral.Short n
  | .list items => ShortItems items
  | .record fields => ShortFields fields
  | _ => True

def ShortItems : List Value → Prop
  | [] => True
  | v :: rest => Short v ∧ ShortItems rest

def ShortFields : List (Text × Value) → Prop
  | [] => True
  | (_, v) :: rest => Short v ∧ ShortFields rest

end

mutual

/-- A message can show a value exactly if all whole numbers in it have decimal texts. -/
theorem exists_describe_iff : ∀ v : Value, (∃ s, v.describe = .ok s) ↔ v.Short
  | .int n => by simp [describe, Short, Numeral.write_eq_ok_iff]
  | .list items => by
    simp only [describe, Short, ← exists_describeItems_iff, Except.map]
    cases describeItems items <;> simp
  | .record fields => by
    simp only [describe, Short, ← exists_describeFields_iff, Except.map]
    cases describeFields fields <;> simp
  | .bool true | .bool false | .null | .real _ | .moment _ | .text _ => by simp [describe, Short]

theorem exists_describeItems_iff : ∀ items : List Value,
    (∃ parts, describeItems items = .ok parts) ↔ ShortItems items
  | [] => by simp [describeItems, ShortItems]
  | v :: rest => by
    rw [describeItems, ShortItems, ← exists_describe_iff v, ← exists_describeItems_iff rest]
    cases describe v <;> cases describeItems rest <;> simp [bind, Except.bind, pure, Except.pure]

theorem exists_describeFields_iff : ∀ fields : List (Text × Value),
    (∃ parts, describeFields fields = .ok parts) ↔ ShortFields fields
  | [] => by simp [describeFields, ShortFields]
  | (key, v) :: rest => by
    rw [describeFields, ShortFields, ← exists_describe_iff v, ← exists_describeFields_iff rest]
    cases describe v <;> cases describeFields rest <;> simp [bind, Except.bind, pure, Except.pure]

end

theorem exists_display {v : Value} (h : v.Short) : ∃ s, v.display = .ok s := by
  unfold display
  split
  · exact ⟨_, rfl⟩
  · exact v.exists_describe_iff.mpr h

theorem shortItems_iff {items : List Value} : ShortItems items ↔ ∀ v ∈ items, v.Short := by
  induction items with
  | nil => simp [ShortItems]
  | cons v rest ih => simp [ShortItems, ih]

theorem shortFields_iff {fields : List (Text × Value)} :
    ShortFields fields ↔ ∀ entry ∈ fields, entry.2.Short := by
  induction fields with
  | nil => simp [ShortFields]
  | cons entry rest ih => simp [ShortFields, ih]

theorem ShortFields.put {fields : List (Text × Value)} (h : ShortFields fields) (key : Text)
    {v : Value} (hv : v.Short) : ShortFields (put fields key v) := by
  induction fields with
  | nil => exact ⟨hv, trivial⟩
  | cons entry rest ih =>
    unfold Value.put
    split
    · exact ⟨hv, h.2⟩
    · exact ⟨h.1, ih h.2⟩

/-- The fields of a value can be shown if the whole value can. -/
theorem Short.field? {v w : Value} (h : v.Short) {key : Text} (hw : v.field? key = some w) :
    w.Short := by
  unfold Value.field? at hw
  split at hw
  · next fields =>
    obtain ⟨before, after, rfl, -⟩ := List.lookup_eq_some_iff.mp hw
    exact shortFields_iff.mp h (key, w) (List.mem_append_right before List.mem_cons_self)
  · cases hw

theorem Short.field {v : Value} (h : v.Short) (key : Text) : (v.field key).Short := by
  unfold Value.field
  cases hfield : v.field? key with
  | none => trivial
  | some w => exact h.field? hfield

/-- An optional text as a value. -/
def ofText? : Option Text → Value
  | some s => .text s
  | none => .null

/-- A field that is put has its new value, and no other field changes. -/
theorem lookup_put (fields : List (Text × Value)) (key other : Text) (v : Value) :
    (put fields key v).lookup other = if other = key then some v else fields.lookup other := by
  have differ {a b : Text} (h : ¬a = b) : (a == b) = false := by simpa using h
  induction fields with
  | nil => by_cases h : other = key <;> simp [put, List.lookup_nil, List.lookup_cons, h, differ]
  | cons entry rest ih =>
    obtain ⟨k, w⟩ := entry
    by_cases hk : k = key
    · subst hk
      by_cases h : other = k <;> simp [put, List.lookup_cons, h, differ]
    · by_cases h : other = k
      · subst h
        simp [put, hk]
      · simp [put, hk, List.lookup_cons, differ h, ih]

end Value

end UpgradeSafety
