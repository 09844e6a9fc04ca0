import UpgradeSafety.Footprint.ByteMap

/-! Differences between two layouts, one for each variable concerned. Each byte of a variable
gives rise to the same difference at another location; `unique` keeps the first of those that
agree in all but the location, so after `sort` the one at the least location. What it keeps has
one element for each identity (`map_firstPer_nodup`, `mem_map_firstPer_iff`). -/
namespace UpgradeSafety

/-- What has happened to a variable. -/
inductive DiffKind where
  /-- It has another name. -/
  | label
  /-- Another variable has taken its place. -/
  | variable
  /-- It has a type that does not fit its old one. -/
  | variableType
  /-- It is gone. -/
  | variableRemoved
  /-- It is new, and its storage is not clear. -/
  | nonZeroAddedSlot
  deriving DecidableEq, Repr

namespace DiffKind

def name : DiffKind → String
  | .label => "LABEL"
  | .variable => "VARIABLE"
  | .variableType => "VARIABLE_TYPE"
  | .variableRemoved => "VARIABLE_REMOVED"
  | .nonZeroAddedSlot => "NON_ZERO_ADDED_SLOT"

end DiffKind

structure Diff where
  kind : DiffKind
  location : Location
  /-- The struct that the slot is counted in; without one the slot is absolute. -/
  parent : Option Text
  /-- The variable of the layout in use. -/
  reference : Option Detail
  /-- The variable of the layout to come. -/
  candidate : Option Detail
  /-- The byte that was read from the chain, in two hexadecimal digits. -/
  value : Option String
  deriving DecidableEq, Repr

/-- A byte that only the layout to come makes use of. -/
structure Added where
  location : Location
  candidate : Detail
  deriving DecidableEq, Repr

/-- What two differences share when they tell the same thing of two bytes. -/
structure Diff.Identity where
  kind : DiffKind
  parent : Option Text
  reference : Option Detail
  candidate : Option Detail
  value : Option String
  deriving DecidableEq

namespace Diff

def identity (ignoreValue : Bool) (d : Diff) : Identity :=
  ⟨d.kind, d.parent, d.reference, d.candidate, if ignoreValue then none else d.value⟩

/-- The first element for each key, without those whose key has been seen. -/
def firstPer {α κ : Type} [DecidableEq κ] (key : α → κ) : List κ → List α → List α
  | _, [] => []
  | seen, x :: rest =>
    if key x ∈ seen then firstPer key seen rest
    else x :: firstPer key (key x :: seen) rest

/-- By location; differences at one location keep their order. -/
def sort (ds : List Diff) : List Diff :=
  Location.sort Diff.location ds

/-- The first difference of each identity. -/
def unique (ignoreValue : Bool) (ds : List Diff) : List Diff :=
  firstPer (identity ignoreValue) [] ds

section FirstPer
variable {α κ : Type} [DecidableEq κ] {key : α → κ}

theorem firstPer_sublist (seen : List κ) (xs : List α) : (firstPer key seen xs).Sublist xs := by
  induction xs generalizing seen with
  | nil => exact List.Sublist.refl _
  | cons x rest ih =>
    unfold firstPer
    split
    · exact (ih seen).cons x
    · exact (ih _).cons_cons x

theorem key_notMem_of_mem_firstPer {seen : List κ} {xs : List α} {x : α}
    (h : x ∈ firstPer key seen xs) : key x ∉ seen := by
  induction xs generalizing seen with
  | nil => simp [firstPer] at h
  | cons y rest ih =>
    unfold firstPer at h
    split at h
    · exact ih h
    · rcases List.mem_cons.mp h with rfl | h
      · assumption
      · exact fun hx => ih h (List.mem_cons_of_mem _ hx)

/-- No key is kept twice. -/
theorem map_firstPer_nodup (seen : List κ) (xs : List α) :
    ((firstPer key seen xs).map key).Nodup := by
  induction xs generalizing seen with
  | nil => simp [firstPer]
  | cons x rest ih =>
    unfold firstPer
    split
    · exact ih seen
    · rw [List.map_cons, List.nodup_cons]
      refine ⟨fun hx => ?_, ih _⟩
      obtain ⟨y, hy, hkey⟩ := List.mem_map.mp hx
      exact key_notMem_of_mem_firstPer hy (hkey ▸ List.mem_cons_self)

/-- Every key that has not been seen is kept. -/
theorem mem_map_firstPer_iff (seen : List κ) (xs : List α) (k : κ) :
    k ∈ (firstPer key seen xs).map key ↔ k ∈ xs.map key ∧ k ∉ seen := by
  induction xs generalizing seen with
  | nil => simp [firstPer]
  | cons x rest ih =>
    unfold firstPer
    split
    · next hx =>
      rw [ih, List.map_cons, List.mem_cons]
      grind
    · rw [List.map_cons, List.mem_cons, ih, List.map_cons, List.mem_cons]
      grind

end FirstPer

end Diff

end UpgradeSafety
