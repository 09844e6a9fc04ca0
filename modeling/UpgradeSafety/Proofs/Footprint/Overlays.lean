import UpgradeSafety.Footprint.Expand
import UpgradeSafety.Proofs.Results

/-! What an expansion comes to, step by step. One map is laid over another unless the first byte that
both have is too long to be shown (`ByteMap.Fits`), and several are laid over each other in turn
(`ByteMap.Stack`). An expansion has a map where that of its example, or those of its members, can be
laid so (`expand_succ_eq_ok_iff`, `footprint_eq_ok_iff`), and it fails where a part of it fails or one
of the maps does not fit (`expand_succ_eq_error`, `footprint_eq_error`). -/
namespace UpgradeSafety

namespace ByteMap
variable {lower upper lower' upper' map : ByteMap} {first : Int}

/-- A byte is the first of those that both maps have. -/
structure Meets (lower upper : ByteMap) (first : Int) : Prop where
  mem_lower : first ∈ lower
  mem_upper : first ∈ upper
  least : ∀ byte, byte ∈ lower → byte ∈ upper → first ≤ byte

/-- A map can be laid over another. -/
def Fits (lower upper : ByteMap) : Prop :=
  ∀ first, lower.Meets upper first → Numeral.Short first

/-- Both maps have the same bytes, whatever their details. -/
def SameBytes (map map' : ByteMap) : Prop :=
  ∀ byte, byte ∈ map' ↔ byte ∈ map

theorem Meets.unique {second : Int} (h : lower.Meets upper first) (h' : lower.Meets upper second) :
    first = second :=
  Int.le_antisymm (h.least _ h'.mem_lower h'.mem_upper) (h'.least _ h.mem_lower h.mem_upper)

theorem Fits.of_sameBytes (h : lower.Fits upper) (hlower : lower.SameBytes lower')
    (hupper : upper.SameBytes upper') : lower'.Fits upper' := by
  intro first hfirst
  refine h first ⟨(hlower first).mp hfirst.mem_lower, (hupper first).mp hfirst.mem_upper,
    fun byte hl hu => ?_⟩
  exact hfirst.least byte ((hlower byte).mpr hl) ((hupper byte).mpr hu)

theorem mem_union_iff {byte : Int} : byte ∈ lower ∪ upper ↔ byte ∈ lower ∨ byte ∈ upper := by
  simp only [mem_iff_isSome_getElem?, getElem?_union, Option.isSome_or, Bool.or_eq_true]
  exact or_comm

theorem SameBytes.union (hlower : lower.SameBytes lower') (hupper : upper.SameBytes upper') :
    (lower ∪ upper).SameBytes (lower' ∪ upper') := by
  intro byte
  rw [mem_union_iff, mem_union_iff, hlower byte, hupper byte]

/-- An interval has the bytes that it claims. -/
theorem mem_interval_iff {d : Detail} {start count byte : Int} :
    byte ∈ interval d start count ↔ start ≤ byte ∧ byte < start + count := by
  rw [mem_iff_isSome_getElem?, getElem?_interval]
  split <;> simp_all

end ByteMap

section Lay
variable {lower upper map : ByteMap} {context : Text}

theorem meets_iff {first : Int} : lower.Meets upper first ↔
    first ∈ ByteMap.common lower upper ∧ ∀ byte ∈ ByteMap.common lower upper, first ≤ byte := by
  simp only [ByteMap.mem_common_iff]
  exact ⟨fun h => ⟨⟨h.mem_lower, h.mem_upper⟩, fun byte hboth => h.least byte hboth.1 hboth.2⟩,
    fun h => ⟨h.1.1, h.1.2, fun byte hl hu => h.2 byte ⟨hl, hu⟩⟩⟩

/-- One map lies over another, or the first byte that both have cannot be shown. -/
theorem lay_cases (lower upper : ByteMap) (context : Text) :
    lower.Fits upper ∧ (lay lower upper context).result = .ok (lower ∪ upper) ∨
      ∃ first, lower.Meets upper first ∧ ¬Numeral.Short first ∧
        (lay lower upper context).result = .error (.longNumber ⟨first⟩) := by
  unfold lay
  rcases ByteMap.overlay_cases lower upper context with
    ⟨hnone, hlaid⟩ | ⟨first, hmem, hleast, ⟨hshort, hlaid⟩ | ⟨hlong, hlaid⟩⟩
  · refine .inl ⟨fun first hfirst => ?_, by rw [hlaid]; rfl⟩
    rw [meets_iff, hnone] at hfirst
    cases hfirst.1
  · refine .inl ⟨fun second hsecond => ?_, by rw [hlaid]; rfl⟩
    rw [← (meets_iff.mpr ⟨hmem, hleast⟩).unique hsecond]
    exact hshort
  · exact .inr ⟨first, meets_iff.mpr ⟨hmem, hleast⟩, hlong, by rw [hlaid]; rfl⟩

theorem lay_eq_ok_iff :
    (lay lower upper context).result = .ok map ↔ lower.Fits upper ∧ lower ∪ upper = map := by
  rcases lay_cases lower upper context with ⟨hfits, hlaid⟩ | ⟨first, hfirst, hlong, hlaid⟩
  · simp [hlaid, hfits]
  · rw [hlaid]
    exact ⟨nofun, fun h => absurd (h.1 first hfirst) hlong⟩

theorem lay_eq_error {e : ExpansionFault} (h : (lay lower upper context).result = .error e) :
    ∃ first, lower.Meets upper first ∧ ¬Numeral.Short first ∧ e = .longNumber ⟨first⟩ := by
  rcases lay_cases lower upper context with ⟨-, hlaid⟩ | ⟨first, hfirst, hlong, hlaid⟩
  · cases hlaid.symm.trans h
  · exact ⟨first, hfirst, hlong, (Except.error.inj (hlaid.symm.trans h)).symm⟩

end Lay

/-! ### Maps laid over each other in turn -/

/-- The maps of some parts are laid over a map in turn. -/
inductive ByteMap.Stack {α : Type} (f : α → Journal Overlap ExpansionFault ByteMap) :
    ByteMap → List α → ByteMap → Prop where
  | nil {map : ByteMap} : Stack f map [] map
  | cons {map part top : ByteMap} {x : α} {rest : List α} (hpart : (f x).result = .ok part)
      (hfits : map.Fits part) (hrest : Stack f (map ∪ part) rest top) : Stack f map (x :: rest) top

section Stack
variable {α β : Type} {f : α → Journal Overlap ExpansionFault ByteMap} {name : α → Text}
  {map top : ByteMap} {xs : List α}

theorem foldlM_lay_eq_ok_iff :
    (xs.foldlM (fun map x => do lay map (← f x) (name x)) map).result = .ok top ↔
      ByteMap.Stack f map xs top := by
  induction xs generalizing map with
  | nil =>
    constructor
    · intro h
      obtain rfl : map = top := Except.ok.inj h
      exact .nil
    · rintro ⟨⟩
      rfl
  | cons x rest ih =>
    rw [List.foldlM_cons, Journal.result_bind, bind_eq_ok_iff]
    constructor
    · intro h
      obtain ⟨laid, hlaid, hrest⟩ := h
      rw [Journal.result_bind] at hlaid
      obtain ⟨part, hpart, hlaid⟩ := bind_eq_ok_iff.mp hlaid
      obtain ⟨hfits, rfl⟩ := lay_eq_ok_iff.mp hlaid
      exact .cons hpart hfits (ih.mp hrest)
    · intro h
      cases h with
      | cons hpart hfits hrest =>
        refine ⟨_, ?_, ih.mpr hrest⟩
        rw [Journal.result_bind_ok _ hpart]
        exact lay_eq_ok_iff.mpr ⟨hfits, rfl⟩

/-- Laying fails at the first part that has no map, or whose map does not fit. -/
theorem foldlM_lay_eq_error {e : ExpansionFault}
    (h : (xs.foldlM (fun map x => do lay map (← f x) (name x)) map).result = .error e) :
    ∃ before x after mid, xs = before ++ x :: after ∧ ByteMap.Stack f map before mid ∧
      ((f x).result = .error e ∨ ∃ part first, (f x).result = .ok part ∧ mid.Meets part first ∧
        ¬Numeral.Short first ∧ e = .longNumber ⟨first⟩) := by
  induction xs generalizing map with
  | nil => cases h
  | cons x rest ih =>
    rw [List.foldlM_cons, Journal.result_bind] at h
    rcases bind_eq_error_iff.mp h with hhere | ⟨laid, hlaid, hrest⟩
    · refine ⟨[], x, rest, map, rfl, .nil, ?_⟩
      rw [Journal.result_bind] at hhere
      rcases bind_eq_error_iff.mp hhere with hpart | ⟨part, hpart, hlaid⟩
      · exact .inl hpart
      · obtain ⟨first, hfirst, hlong, he⟩ := lay_eq_error hlaid
        exact .inr ⟨part, first, hpart, hfirst, hlong, he⟩
    · rw [Journal.result_bind] at hlaid
      obtain ⟨part, hpart, hlaid⟩ := bind_eq_ok_iff.mp hlaid
      obtain ⟨hfits, rfl⟩ := lay_eq_ok_iff.mp hlaid
      obtain ⟨before, y, after, mid, rfl, hstack, hfault⟩ := ih hrest
      exact ⟨x :: before, y, after, mid, rfl, .cons hpart hfits hstack, hfault⟩

namespace ByteMap.Stack

theorem append {ys : List α} {mid : ByteMap} (h : Stack f map xs mid) (h' : Stack f mid ys top) :
    Stack f map (xs ++ ys) top := by
  induction h with
  | nil => exact h'
  | cons hpart hfits _ ih => exact .cons hpart hfits (ih h')

/-- What has been laid keeps its bytes. -/
theorem mem_of_mem {byte : Int} (h : Stack f map xs top) (hbyte : byte ∈ map) : byte ∈ top := by
  induction h with
  | nil => exact hbyte
  | cons _ _ _ ih => exact ih (mem_union_iff.mpr (.inl hbyte))

/-- The map of each part has been laid over those of the parts before it. -/
theorem exists_part {before after : List α} {x : α} (h : Stack f map (before ++ x :: after) top) :
    ∃ mid part, Stack f map before mid ∧ (f x).result = .ok part ∧ mid.Fits part := by
  induction before generalizing map with
  | nil =>
    cases h with
    | cons hpart hfits => exact ⟨map, _, .nil, hpart, hfits⟩
  | cons y before ih =>
    cases h with
    | cons hpart hfits hrest =>
      obtain ⟨mid, part, hstack, hx⟩ := ih hrest
      exact ⟨mid, part, .cons hpart hfits hstack, hx⟩

/-- Parts whose maps have the same bytes are laid over each other alike. -/
theorem exists_sameBytes {S : α → β → Prop} {g : β → Journal Overlap ExpansionFault ByteMap}
    {ys : List β} {map' : ByteMap} (h : Stack f map xs top) (hall : List.Forall₂ S xs ys)
    (hstep : ∀ x y, S x y → ∀ part, (f x).result = .ok part →
      ∃ part', (g y).result = .ok part' ∧ part.SameBytes part')
    (hmap : map.SameBytes map') : ∃ top', Stack g map' ys top' ∧ top.SameBytes top' := by
  induction h generalizing ys map' with
  | nil =>
    cases hall
    exact ⟨map', .nil, hmap⟩
  | cons hpart hfits _ ih =>
    obtain ⟨y, rest, hy, hrest, rfl⟩ := List.forall₂_cons_left_iff.mp hall
    obtain ⟨part', hpart', hbytes⟩ := hstep _ y hy _ hpart
    obtain ⟨top', htop', hsame⟩ := ih hrest (hmap.union hbytes)
    exact ⟨top', .cons hpart' (hfits.of_sameBytes hmap hbytes) htop', hsame⟩

end ByteMap.Stack

end Stack

/-! ### Expansions -/

section Expansion
variable {hash : Hash} {l : Layout} {depth : Nat} {v : Spot} {map : ByteMap} {e : ExpansionFault}

/-- The bytes of a variable are, below the levels that are left, those of its example and its own, or
those of its members. -/
theorem expand_succ_eq_ok_iff :
    (expand hash l (depth + 1) v).result = .ok map ↔ ∃ t sample typeLabel,
      l.resolve? v.type = some t ∧
      (v.example? hash t = .ok none ∧ sample = ∅ ∨
        ∃ w, v.example? hash t = .ok (some w) ∧ (expand hash l depth w).result = .ok sample) ∧
      Spot.typeLabel v.type t = .ok typeLabel ∧
      (t.hasMembers = false ∧
          sample.Fits (.interval (v.detail typeLabel) v.startByte t.byteCount) ∧
          sample ∪ .interval (v.detail typeLabel) v.startByte t.byteCount = map ∨
        t.hasMembers = true ∧
          ByteMap.Stack (fun m => expand hash l depth (v.member typeLabel m)) ∅ t.members map) := by
  rw [expand]
  cases ht : l.resolve? v.type with
  | none => simp [Journal.fail]
  | some t =>
    have hown (sample : ByteMap) (typeLabel : Text) :
        (if t.hasMembers = true then t.members.foldlM (fun map m => do
            let part ← expand hash l depth (v.member typeLabel m)
            lay map part (v.fullLabel ++ "." ++ m.label)) ∅
          else lay sample (.interval (v.detail typeLabel) v.startByte t.byteCount)
            v.fullLabel).result = .ok map ↔
          t.hasMembers = false ∧
              sample.Fits (.interval (v.detail typeLabel) v.startByte t.byteCount) ∧
              sample ∪ .interval (v.detail typeLabel) v.startByte t.byteCount = map ∨
            t.hasMembers = true ∧
              ByteMap.Stack (fun m => expand hash l depth (v.member typeLabel m)) ∅ t.members map := by
      cases t.hasMembers with
      | false => simp [lay_eq_ok_iff]
      | true => simp [foldlM_lay_eq_ok_iff]
    simp only [Journal.result_bind, Journal.result_ofExcept, bind_eq_ok_iff, hown, Option.some.injEq,
      exists_eq_left', exists_and_left]
    cases v.example? hash t with
    | error e => simp [Journal.fail]
    | ok example? => cases example? <;> simp [@eq_comm _ (∅ : ByteMap)]

/-- An expansion fails at the type, its example or its label, or where a part of it fails, or where one
map does not fit over another. -/
theorem expand_succ_eq_error (h : (expand hash l (depth + 1) v).result = .error e) :
    l.resolve? v.type = none ∧ e = .unknownType (.text v.type) ∨
    ∃ t, l.resolve? v.type = some t ∧
      (v.example? hash t = .error e ∨
        (∃ w, v.example? hash t = .ok (some w) ∧ (expand hash l depth w).result = .error e) ∨
        Spot.typeLabel v.type t = .error e ∨
        ∃ typeLabel, Spot.typeLabel v.type t = .ok typeLabel ∧
          (t.hasMembers = false ∧ (∃ sample first,
              (v.example? hash t = .ok none ∧ sample = ∅ ∨ ∃ w, v.example? hash t = .ok (some w) ∧
                (expand hash l depth w).result = .ok sample) ∧
              sample.Meets (.interval (v.detail typeLabel) v.startByte t.byteCount) first ∧
              ¬Numeral.Short first ∧ e = .longNumber ⟨first⟩) ∨
            t.hasMembers = true ∧ ∃ before m after mid, t.members = before ++ m :: after ∧
              ByteMap.Stack (fun m => expand hash l depth (v.member typeLabel m)) ∅ before mid ∧
              ((expand hash l depth (v.member typeLabel m)).result = .error e ∨
                ∃ part first, (expand hash l depth (v.member typeLabel m)).result = .ok part ∧
                  mid.Meets part first ∧ ¬Numeral.Short first ∧ e = .longNumber ⟨first⟩))) := by
  rw [expand] at h
  cases ht : l.resolve? v.type with
  | none =>
    rw [ht] at h
    exact .inl ⟨rfl, (Except.error.inj h).symm⟩
  | some t =>
    rw [ht] at h
    refine .inr ⟨t, rfl, ?_⟩
    simp only [Journal.result_bind, Journal.result_ofExcept] at h
    rcases bind_eq_error_iff.mp h with hsample | ⟨sample, hsample, h⟩
    · cases hexample : v.example? hash t with
      | error e' =>
        rw [hexample] at hsample
        exact .inl (congrArg _ (Except.error.inj hsample))
      | ok example? =>
        rw [hexample] at hsample
        cases example? with
        | none => cases hsample
        | some w => exact .inr (.inl ⟨w, rfl, hsample⟩)
    · rcases bind_eq_error_iff.mp h with hlabel | ⟨typeLabel, hlabel, h⟩
      · exact .inr (.inr (.inl hlabel))
      · refine .inr (.inr (.inr ⟨typeLabel, hlabel, ?_⟩))
        split at h
        · next hm => exact .inr ⟨hm, foldlM_lay_eq_error h⟩
        · next hm =>
          obtain ⟨first, hfirst, hlong, he⟩ := lay_eq_error h
          refine .inl ⟨by simpa using hm, sample, first, ?_, hfirst, hlong, he⟩
          cases hexample : v.example? hash t with
          | error e' =>
            rw [hexample] at hsample
            cases hsample
          | ok example? =>
            rw [hexample] at hsample
            cases example? with
            | none => exact .inl ⟨rfl, (Except.ok.inj hsample).symm⟩
            | some w => exact .inr ⟨w, rfl, hsample⟩

/-- The footprint of a layout is that of its variables, laid over each other in turn. -/
theorem footprint_eq_ok_iff : (l.footprint hash).result = .ok map ↔
    ByteMap.Stack (fun v => expand hash l l.depth (.ofVariable v)) ∅ l.storage map :=
  foldlM_lay_eq_ok_iff

theorem footprint_eq_error (h : (l.footprint hash).result = .error e) :
    ∃ before v after mid, l.storage = before ++ v :: after ∧
      ByteMap.Stack (fun v => expand hash l l.depth (.ofVariable v)) ∅ before mid ∧
      ((expand hash l l.depth (.ofVariable v)).result = .error e ∨
        ∃ part first, (expand hash l l.depth (.ofVariable v)).result = .ok part ∧
          mid.Meets part first ∧ ¬Numeral.Short first ∧ e = .longNumber ⟨first⟩) :=
  foldlM_lay_eq_error h

end Expansion

end UpgradeSafety
