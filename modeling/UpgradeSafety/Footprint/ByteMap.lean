import Std.Data.TreeMap
import UpgradeSafety.Data.Table
import UpgradeSafety.Footprint.Location
import UpgradeSafety.Journal

/-! The bytes of storage that are taken, and by what. A `Detail` is a variable with its place
worked out and its label written in full; a `ByteMap` gives the detail of every byte that is
taken, and keeps the bytes in the order in which they were first taken. Laying one map over
another (`overlay`) lets the upper one win (`getElem?_union`) and notes how many bytes both take, if
any. The bytes that both take are looked for in the smaller map; which of the two that is makes no
difference to what is noted (`mem_common_iff`, `nodup_common`). -/
namespace UpgradeSafety

/-- The struct variable that a member belongs to, for writing labels. -/
structure Parent where
  label : Text
  typeLabel : Text
  deriving DecidableEq, Repr

structure Detail where
  label : Text
  type : Text
  slot : Int
  offset : Int
  fullLabel : Text
  typeLabel : Text
  startByte : Int
  parent : Option Parent
  deriving DecidableEq, Repr

/-- The variable whose detail takes each byte. -/
structure ByteMap where
  details : Std.TreeMap Int Detail
  /-- The bytes that are taken, the latest first. -/
  taken : List Int
  nodup_taken : taken.Nodup
  mem_taken : ∀ byte, byte ∈ taken ↔ byte ∈ details

/-- Two variables take the same bytes, which a sound report never has. -/
structure Overlap where
  /-- The variable that came later. -/
  context : Text
  /-- How many bytes both take. -/
  count : Nat
  /-- The least of them. -/
  first : Int
  /-- The log shows the byte in decimal. -/
  short : Numeral.Short first
  deriving DecidableEq

def Overlap.logLine (o : Overlap) : LogLine :=
  ⟨.warning, "字节映射冲突: " ++ o.context ++ " 覆盖了 " ++ toString o.count ++
    " 个已占用字节 (首个字节 #" ++ toString o.first ++ "), 布局报告可能有误"⟩

namespace ByteMap

def empty : ByteMap := ⟨∅, [], .nil, fun _ => by simp⟩

instance : EmptyCollection ByteMap := ⟨empty⟩

instance : Membership Int ByteMap := ⟨fun m byte => byte ∈ m.details⟩

instance (m : ByteMap) (byte : Int) : Decidable (byte ∈ m) :=
  inferInstanceAs (Decidable (byte ∈ m.details))

instance : GetElem? ByteMap Int Detail fun m byte => byte ∈ m where
  getElem m byte h := m.details.get byte h
  getElem? m byte := m.details[byte]?

/-- Gives a byte to a detail. A byte that is taken already keeps its place in the order. -/
def insert (m : ByteMap) (byte : Int) (d : Detail) : ByteMap where
  details := m.details.insert byte d
  taken := if byte ∈ m then m.taken else byte :: m.taken
  nodup_taken := by
    split
    · exact m.nodup_taken
    · next h => exact List.nodup_cons.mpr ⟨fun hmem => h ((m.mem_taken byte).mp hmem), m.nodup_taken⟩
  mem_taken other := by
    rw [Std.TreeMap.mem_insert, Std.compare_eq_iff_eq]
    split
    · next h =>
      rw [m.mem_taken]
      exact ⟨.inr, fun hor => hor.elim (fun heq => heq ▸ h) id⟩
    · rw [List.mem_cons, m.mem_taken, eq_comm]

/-- The bytes that are taken, in order. -/
def bytes (m : ByteMap) : List Int :=
  m.taken.reverse

/-- The bytes with their details, in order. -/
def entries (m : ByteMap) : List (Int × Detail) :=
  m.bytes.filterMap fun byte => m[byte]?.map fun d => (byte, d)

def size (m : ByteMap) : Nat :=
  m.taken.length

/-- Gives the bytes from `start` on to a detail; `count` counts them. -/
def claim (m : ByteMap) (d : Detail) (start : Int) : Nat → ByteMap
  | 0 => m
  | count + 1 => claim (m.insert start d) d (start + 1) count

/-- The map in which a detail takes so many bytes from `start` on, none if the count is
negative. -/
def interval (d : Detail) (start count : Int) : ByteMap :=
  claim ∅ d start count.toNat

/-- The lower map with everything that the upper one has. -/
def union (lower upper : ByteMap) : ByteMap :=
  upper.entries.foldl (fun m entry => m.insert entry.1 entry.2) lower

instance : Union ByteMap := ⟨union⟩

/-- The bytes that both maps have, found by going through the smaller one. -/
def common (lower upper : ByteMap) : List Int :=
  if upper.size ≤ lower.size then upper.bytes.filter (· ∈ lower) else lower.bytes.filter (· ∈ upper)

/-- Lays a map over another; the bytes that both have are noted under the upper one's name. A note
tells the least of them, so where that one is too long to be shown nothing is laid. -/
def overlay (lower upper : ByteMap) (context : Text) : Journal Overlap LongNumber ByteMap :=
  match (common lower upper).min? with
  | none => pure (lower ∪ upper)
  | some first =>
    if h : Numeral.Short first then do
      .note ⟨context, (common lower upper).length, first, h⟩
      return lower ∪ upper
    else .fail ⟨first⟩

/-! ### What a map holds -/

section Lookup
variable {m : ByteMap} {byte : Int} {d : Detail}

theorem mem_iff_isSome_getElem? : byte ∈ m ↔ m[byte]?.isSome = true :=
  Std.TreeMap.mem_iff_isSome_getElem?

theorem mem_of_getElem? (h : m[byte]? = some d) : byte ∈ m :=
  mem_iff_isSome_getElem?.mpr (h ▸ rfl)

theorem getElem?_eq_none (h : byte ∉ m) : m[byte]? = none :=
  Std.TreeMap.getElem?_eq_none h

@[simp] theorem getElem?_empty (byte : Int) : (∅ : ByteMap)[byte]? = none :=
  Std.TreeMap.getElem?_emptyc

@[simp] theorem notMem_empty (byte : Int) : byte ∉ (∅ : ByteMap) :=
  Std.TreeMap.not_mem_emptyc

theorem getElem?_insert (m : ByteMap) (byte : Int) (d : Detail) (other : Int) :
    (m.insert byte d)[other]? = if byte = other then some d else m[other]? := by
  show (m.details.insert byte d)[other]? = _
  rw [Std.TreeMap.getElem?_insert]
  simp only [Std.compare_eq_iff_eq]
  rfl

theorem mem_bytes_iff : byte ∈ m.bytes ↔ byte ∈ m :=
  List.mem_reverse.trans (m.mem_taken byte)

theorem nodup_bytes (m : ByteMap) : m.bytes.Nodup :=
  List.pairwise_reverse.mpr (m.nodup_taken.imp Ne.symm)

theorem length_bytes (m : ByteMap) : m.bytes.length = m.size :=
  List.length_reverse

theorem mem_entries_iff : (byte, d) ∈ m.entries ↔ m[byte]? = some d := by
  rw [entries, List.mem_filterMap]
  constructor
  · rintro ⟨other, -, h⟩
    obtain ⟨e, he, heq⟩ := Option.map_eq_some_iff.mp h
    cases heq
    exact he
  · intro h
    exact ⟨byte, mem_bytes_iff.mpr (mem_of_getElem? h), by rw [h]; rfl⟩

theorem map_fst_entries (m : ByteMap) : m.entries.map Prod.fst = m.bytes := by
  have hmem : ∀ byte ∈ m.bytes, byte ∈ m := fun _ => mem_bytes_iff.mp
  rw [entries]
  generalize m.bytes = bs at hmem
  induction bs with
  | nil => rfl
  | cons byte rest ih =>
    obtain ⟨d, hd⟩ := Option.isSome_iff_exists.mp
      (mem_iff_isSome_getElem?.mp (hmem byte List.mem_cons_self))
    have hrest := ih fun other hother => hmem other (List.mem_cons_of_mem byte hother)
    simp only [List.filterMap_cons, hd, Option.map_some, List.map_cons, hrest]

end Lookup

/-! ### Claims and unions -/

theorem getElem?_claim (m : ByteMap) (d : Detail) (start : Int) (count : Nat) (byte : Int) :
    (claim m d start count)[byte]? =
      if start ≤ byte ∧ byte < start + count then some d else m[byte]? := by
  induction count generalizing m start with
  | zero =>
    rw [claim, if_neg (by omega)]
  | succ count ih =>
    rw [claim, ih, getElem?_insert]
    grind

/-- A byte of an interval has its detail, and no other byte has one. -/
theorem getElem?_interval (d : Detail) (start count byte : Int) :
    (interval d start count)[byte]? =
      if start ≤ byte ∧ byte < start + count then some d else none := by
  rw [interval, getElem?_claim, getElem?_empty]
  grind

theorem lookup_entries (m : ByteMap) (byte : Int) : m.entries.lookup byte = m[byte]? := by
  have hnodup : (m.entries.map Prod.fst).Nodup := map_fst_entries m ▸ nodup_bytes m
  apply Option.ext
  intro d
  rw [lookup_eq_some_iff_mem hnodup, mem_entries_iff]

/-- Where the upper map has a byte its detail wins, elsewhere the lower one's stays. -/
theorem getElem?_union (lower upper : ByteMap) (byte : Int) :
    (lower ∪ upper)[byte]? = upper[byte]?.or lower[byte]? := by
  show (union lower upper)[byte]? = _
  have hown (m : ByteMap) (entry : Int × Detail) :
      (m.insert entry.1 entry.2)[entry.1]? = some entry.2 := by
    rw [getElem?_insert, if_pos rfl]
  have hother (m : ByteMap) (entry : Int × Detail) (byte : Int) (h : byte ≠ entry.1) :
      (m.insert entry.1 entry.2)[byte]? = m[byte]? := by
    rw [getElem?_insert, if_neg h.symm]
  rw [union, ← lookup_entries upper]
  exact get_foldl_put (fun m byte => m[byte]?) (fun m entry => m.insert entry.1 entry.2) hown hother
    (map_fst_entries upper ▸ nodup_bytes upper) lower byte

/-! ### The bytes that two maps have in common -/

/-- The bytes in common do not depend on which of the maps is smaller. -/
theorem mem_common_iff {lower upper : ByteMap} {byte : Int} :
    byte ∈ common lower upper ↔ byte ∈ lower ∧ byte ∈ upper := by
  unfold common
  split <;> simp only [List.mem_filter, mem_bytes_iff, decide_eq_true_eq]
  exact and_comm

theorem nodup_common (lower upper : ByteMap) : (common lower upper).Nodup := by
  unfold common
  split <;> exact (nodup_bytes _).filter _

/-- What comes of laying a map over another. -/
theorem overlay_cases (lower upper : ByteMap) (context : Text) :
    (common lower upper = [] ∧ overlay lower upper context = pure (lower ∪ upper)) ∨
    ∃ first, first ∈ common lower upper ∧ (∀ byte ∈ common lower upper, first ≤ byte) ∧
      ((∃ h : Numeral.Short first, overlay lower upper context =
          ⟨[⟨context, (common lower upper).length, first, h⟩], .ok (lower ∪ upper)⟩) ∨
        ¬Numeral.Short first ∧ overlay lower upper context = .fail ⟨first⟩) := by
  unfold overlay
  split
  · next h => exact .inl ⟨List.min?_eq_none_iff.mp h, rfl⟩
  · next first h =>
    obtain ⟨hmem, hleast⟩ := List.min?_eq_some_iff.mp h
    refine .inr ⟨first, hmem, hleast, ?_⟩
    by_cases hshort : Numeral.Short first
    · exact .inl ⟨hshort, by rw [dif_pos hshort]; rfl⟩
    · exact .inr ⟨hshort, dif_neg hshort⟩

end ByteMap

end UpgradeSafety
