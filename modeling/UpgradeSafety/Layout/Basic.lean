import UpgradeSafety.Data.Value

/-! Storage layouts: the variables that a contract declares and the types they have. A variable
stands at a slot and at an offset in it; a type says how its bytes are laid out, and refers to
other types by their ids. References are kept as the compiler wrote them, checked only when they
are followed (`Layout.resolve`). -/
namespace UpgradeSafety

/-- Bytes in one storage word. -/
def wordSize : Nat := 32

/-- The label of a variable that only reserves room. -/
def gapLabel : Text := "__gap"

/-- How a type is laid out. Of the encodings that compilers name, two give rise to storage
elsewhere and one is plain; any other is opaque. -/
inductive TypeEncoding where
  | inplace
  | mapping
  | dynamicArray
  | other (v : Value)
  deriving DecidableEq

namespace TypeEncoding

def ofValue : Value → TypeEncoding
  | .text s =>
    if s = "inplace" then .inplace
    else if s = "mapping" then .mapping
    else if s = "dynamic_array" then .dynamicArray
    else .other (.text s)
  | v => .other v

/-- Whether two encodings are one; opaque ones are compared as the values that they are. -/
def same : TypeEncoding → TypeEncoding → Bool
  | .inplace, .inplace | .mapping, .mapping | .dynamicArray, .dynamicArray => true
  | .other v, .other w => v.same w
  | _, _ => false

theorem eq_mapping_of_same {e : TypeEncoding} (h : mapping.same e = true) : e = .mapping := by
  cases e with
  | mapping => rfl
  | _ => cases h

theorem eq_dynamicArray_of_same {e : TypeEncoding} (h : dynamicArray.same e = true) :
    e = .dynamicArray := by
  cases e with
  | dynamicArray => rfl
  | _ => cases h

end TypeEncoding

/-- A declared variable, or a member of a struct. -/
structure Variable where
  label : Text
  type : Text
  slot : Int
  offset : Int
  /-- The number of the declaration in the syntax tree, if the report gives one. -/
  astId : Value
  contract : Value
  deriving DecidableEq

/-- What a layout knows about a type. -/
structure TypeInfo where
  encoding : TypeEncoding
  label : Value
  size : Option Int
  members : List Variable
  base : Value
  key : Value
  value : Value
  deriving DecidableEq

namespace TypeInfo

def hasMembers (t : TypeInfo) : Bool :=
  !t.members.isEmpty

/-- How many bytes the type takes; a type without a size takes one. -/
def byteCount (t : TypeInfo) : Int :=
  match t.size with
  | none => 1
  | some n => if n = 0 then 1 else n

end TypeInfo

/-- The variables in the order of their declaration, and the types by their ids. -/
structure Layout where
  storage : List Variable
  types : List (Text × TypeInfo)
  deriving DecidableEq

/-- Why a reference to a type cannot be followed. -/
inductive ReferenceFault where
  /-- No type has this id. -/
  | unknown (reference : Value)
  /-- A list or a record names nothing. -/
  | notAName

namespace Layout

/-- The type with an id. -/
def resolve? (l : Layout) (id : Text) : Option TypeInfo :=
  l.types.lookup id

theorem mem_types_of_resolve? {l : Layout} {id : Text} {t : TypeInfo}
    (h : l.resolve? id = some t) : (id, t) ∈ l.types := by
  obtain ⟨before, after, heq, -⟩ := List.lookup_eq_some_iff.mp h
  rw [heq]
  exact List.mem_append_right before List.mem_cons_self

/-- The type that a reference names, with its id. -/
def resolve (l : Layout) (reference : Value) : Except ReferenceFault (Text × TypeInfo) :=
  match reference with
  | .text id =>
    match l.resolve? id with
    | some t => .ok (id, t)
    | none => .error (.unknown reference)
  | .list _ | .record _ => .error .notAName
  | _ => .error (.unknown reference)

theorem resolve_text {l : Layout} {id : Text} {t : TypeInfo} (h : l.resolve? id = some t) :
    l.resolve (.text id) = .ok (id, t) := by
  simp [resolve, h]

theorem resolve_eq_ok_iff {l : Layout} {reference : Value} {id : Text} {t : TypeInfo} :
    l.resolve reference = .ok (id, t) ↔ reference = .text id ∧ l.resolve? id = some t := by
  unfold resolve
  split
  · next found =>
    split
    · next t' h =>
      constructor
      · intro heq
        obtain ⟨rfl, rfl⟩ := Prod.mk.inj (Except.ok.inj heq)
        exact ⟨rfl, h⟩
      · rintro ⟨heq, ht⟩
        obtain rfl := Value.text.inj heq
        simp_all
    · next h =>
      constructor
      · intro heq; cases heq
      · rintro ⟨heq, ht⟩
        obtain rfl := Value.text.inj heq
        simp_all
  all_goals simp_all

end Layout

end UpgradeSafety
